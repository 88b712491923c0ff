import EmailTemplate.Proofs.PlainText.Tags

/-! Looking for an attribute among written ones: the first of that name is found, and neither
another name nor a value is taken for one. -/

namespace EmailTemplate.PlainText

open Text

variable {key : List Char}

theorem isName_of_mem_shownNames (h : key ∈ shownNames) : IsName key := by
  have hall : ∀ key ∈ shownNames, IsName key := by decide
  exact hall key h

/-- The shown names have no letter with a case beyond the first 128 characters. -/
theorem isCaseOf_of_mem_shownNames (h : key ∈ shownNames) {k : Char} (hk : k ∈ key) (c : Char) :
    isCaseOf k c = (asciiLower c == k) := by
  have hall : ∀ key ∈ shownNames, 's' ∉ key ∧ 'k' ∉ key := by decide
  have hs : (k == 's') = false := by
    rw [beq_eq_false_iff_ne]
    rintro rfl
    exact (hall key h).1 hk
  have hkelvin : (k == 'k') = false := by
    rw [beq_eq_false_iff_ne]
    rintro rfl
    exact (hall key h).2 hk
  rw [isCaseOf, hs, hkelvin, Bool.false_and, Bool.false_and, Bool.or_false, Bool.or_false]

/-! ### Passing what is not the attribute -/

theorem attributeFrom?_cons (fresh : Bool) (c : Char) (s : List Char) (h : fresh = true →
      (afterAnyCase? key (c :: s)).bind valueAfterName? = none) :
    attributeFrom? key fresh (c :: s) = attributeFrom? key (isBlank c) s := by
  cases fresh with
  | false => rfl
  | true => rw [attributeFrom?, if_pos rfl, h rfl, Option.none_or]

/-- Where the attribute does not stand, it does not matter what was before. -/
theorem attributeFrom?_fresh {s : List Char} (h : (afterAnyCase? key s).bind valueAfterName? = none) :
    attributeFrom? key true s = attributeFrom? key false s := by
  cases s with
  | nil => rw [attributeFrom?, attributeFrom?, if_pos rfl, h, if_neg Bool.false_ne_true]
  | cons c s =>
    rw [attributeFrom?_cons true c s fun _ => h, attributeFrom?_cons false c s (by simp)]

theorem attributeFrom?_blankless {u : List Char} (h : ∀ c ∈ u, isBlank c = false)
    (s : List Char) : attributeFrom? key false (u ++ s) = attributeFrom? key false s := by
  induction u with
  | nil => rfl
  | cons c u ih =>
    rw [List.forall_mem_cons] at h
    rw [List.cons_append, attributeFrom?_cons false c (u ++ s) (by simp), h.1, ih h.2]

/-- Escaping does not make up a shown name. -/
theorem afterAnyCase?_escape (hkey : key ∈ shownNames) {m v : List Char} (hm : m ⊆ key)
    (hv : ¬ m <+: v.map asciiLower) (s : List Char) :
    afterAnyCase? m (escape valueMarks v ++ '"' :: s) = none := by
  have hname := isName_of_mem_shownNames hkey
  induction m generalizing v with
  | nil => exact absurd List.nil_prefix hv
  | cons k m ih =>
    have hk : k ∈ key := hm List.mem_cons_self
    have hkname := hname.2 k hk
    cases v with
    | nil =>
      have hquote : EndsName '"' := by decide
      exact afterAnyCase?_cons_of_not (hquote.not_isCaseOf hkname)
    | cons c v =>
      rw [escape, List.flatMap_cons, ← escape, List.append_assoc, escapeChar]
      split
      · have hampersand : EndsName '&' := by decide
        exact afterAnyCase?_cons_of_not (hampersand.not_isCaseOf hkname)
      · rw [List.singleton_append, afterAnyCase?]
        split
        · next hcase =>
          rw [isCaseOf_of_mem_shownNames hkey hk, beq_iff_eq] at hcase
          rw [List.map_cons, hcase, List.cons_prefix_cons] at hv
          exact ih (fun d hd => hm (List.mem_cons_of_mem k hd)) fun h => hv ⟨rfl, h⟩
        · rfl

/-- No attribute is found in a value, up to its closing quotation mark. -/
theorem attributeFrom?_value (hkey : key ∈ shownNames) {v : List Char}
    (hv : ∀ u b w, v = u ++ b :: w → isBlank b = true → ¬ key <+: w.map asciiLower)
    (s : List Char) : attributeFrom? key false (escape valueMarks v ++ '"' :: s) =
      attributeFrom? key false s := by
  induction v with
  | nil => exact attributeFrom?_blankless (List.forall_mem_singleton.mpr (by decide)) s
  | cons c v ih =>
    have hrest := ih fun u b w hw hb => hv (c :: u) b w (by rw [hw, List.cons_append]) hb
    rw [escape, List.flatMap_cons, ← escape, List.append_assoc, escapeChar]
    split
    · next name hname =>
      have hlower := lower_of_mem_namedChars
        (Html.markNames_subset (valueMarks_subset (lookup_mem hname)))
      have hblank : ∀ d ∈ '&' :: name ++ [';'], isBlank d = false := by
        simp only [List.cons_append, List.forall_mem_cons, List.forall_mem_append,
          List.not_mem_nil, false_implies, implies_true, and_true]
        exact ⟨by decide, fun d hd => not_blank_of_isNameChar (isNameChar_of_lower (hlower d hd)),
          by decide⟩
      rw [attributeFrom?_blankless hblank, hrest]
    · rw [List.singleton_append, attributeFrom?_cons false c _ (by simp)]
      cases hblank : isBlank c with
      | false => exact hrest
      | true =>
        have hclear := afterAnyCase?_escape hkey (List.Subset.refl key) (hv [] c v rfl hblank) s
        rw [attributeFrom?_fresh (by rw [hclear, Option.bind_none]), hrest]

/-! ### Written attributes -/

theorem quote_not_mem_escape (v : List Char) : '"' ∉ escape valueMarks v :=
  not_mem_escape valueMarks_subset (.inr (by decide)) (by decide)

theorem valueAfterName?_quoted {v : List Char} (hv : '"' ∉ v) (s : List Char) :
    valueAfterName? ('=' :: '"' :: (v ++ '"' :: s)) = some v := by
  have htake : (v ++ '"' :: s).takeWhile (· != '"') = v :=
    takeWhile_append_stop (bne_of_not_mem hv) (by decide)
  have hequals : ¬ isBlank '=' = true := by decide
  have hquote : ¬ isBlank '"' = true := by decide
  simp [valueAfterName?, trimLeft, List.dropWhile_cons_of_neg hequals,
    List.dropWhile_cons_of_neg hquote, after?, htake]

theorem Attribute.markup_append (a : Attribute) (s : List Char) : a.markup ++ s =
    ' ' :: (a.name ++ '=' :: '"' :: (escape valueMarks a.value ++ '"' :: s)) := by
  simp [Attribute.markup]

theorem Attribute.isName (a : Attribute) : IsName a.name :=
  ⟨a.name_ne_nil, fun c hc => isNameChar_of_lower (a.name_lower c hc)⟩

/-- An attribute is found where it stands. -/
theorem attributeFrom?_self (hkey : IsName key) {v : List Char} (hv : '"' ∉ v) (s : List Char) :
    attributeFrom? key false (' ' :: (key ++ '=' :: '"' :: (v ++ '"' :: s))) = some v := by
  have hblank : isBlank ' ' = true := by decide
  have hread := afterAnyCase?_self hkey.2 ('=' :: '"' :: (v ++ '"' :: s))
  obtain ⟨c, t, hct⟩ := List.exists_cons_of_ne_nil hkey.1
  rw [attributeFrom?_cons false ' ' _ (by simp)]
  generalize key ++ '=' :: '"' :: (v ++ '"' :: s) = text at hread
  cases text with
  | nil => rw [hct] at hread; cases hread
  | cons d text =>
    rw [hblank, attributeFrom?, if_pos rfl, hread, Option.bind_some, valueAfterName?_quoted hv,
      Option.some_or]

/-- An attribute that is not the one looked for is passed, if its value is. -/
theorem attributeFrom?_other {name v s : List Char} (hname : ∀ c ∈ name, isBlank c = false)
    (hnone : (afterAnyCase? key (name ++ '=' :: '"' :: (v ++ '"' :: s))).bind valueAfterName? = none)
    (hvalue : attributeFrom? key false (v ++ '"' :: s) = attributeFrom? key false s) :
    attributeFrom? key false (' ' :: (name ++ '=' :: '"' :: (v ++ '"' :: s))) =
      attributeFrom? key false s := by
  have hblank : isBlank ' ' = true := by decide
  have hmarks : ∀ c ∈ ['=', '"'], isBlank c = false :=
    List.forall_mem_cons.mpr ⟨by decide, List.forall_mem_singleton.mpr (by decide)⟩
  rw [attributeFrom?_cons false ' ' _ (by simp), hblank, attributeFrom?_fresh hnone,
    attributeFrom?_blankless hname]
  exact (attributeFrom?_blankless hmarks _).trans hvalue

theorem attributeFrom?_markup_self {a : Attribute} (hkey : a.name ∈ shownNames) (s : List Char) :
    attributeFrom? a.name false (a.markup ++ s) = some (escape valueMarks a.value) := by
  rw [a.markup_append]
  exact attributeFrom?_self (isName_of_mem_shownNames hkey) (quote_not_mem_escape a.value) s

theorem attributeFrom?_markup_of_ne (hkey : key ∈ shownNames) {a : Attribute} (hne : key ≠ a.name)
    (s : List Char) : attributeFrom? key false (a.markup ++ s) = attributeFrom? key false s := by
  have hname := isName_of_mem_shownNames hkey
  have hequals : EndsName '=' := by decide
  have hnone : (afterAnyCase? key (a.name ++ '=' :: '"' ::
      (escape valueMarks a.value ++ '"' :: s))).bind valueAfterName? = none := by
    rcases afterAnyCase?_of_ne hname.2 a.isName.2 hne hequals _ with h | ⟨c, t, hc, h⟩
    · rw [h, Option.bind_none]
    · have hblank : ¬ isBlank c = true := by simp [not_blank_of_isNameChar hc]
      have heq : '=' ≠ c := (ne_of_isNameChar hc (by decide)).symm
      rw [h, Option.bind_some, valueAfterName?, trimLeft, List.dropWhile_cons_of_neg hblank,
        after?, if_neg heq, Option.bind_none]
  rw [a.markup_append]
  exact attributeFrom?_other (fun c hc => not_blank_of_isNameChar (a.isName.2 c hc)) hnone
    (attributeFrom?_value hkey (a.value_clear key hkey) s)

/-- Among written attributes the first of the name is found, as its value is written. -/
theorem attributeFrom?_attributes (hkey : key ∈ shownNames) (attributes : List Attribute)
    (s : List Char) : attributeFrom? key false (attributes.flatMap Attribute.markup ++ s) =
      ((value? key attributes).map (escape valueMarks)).or (attributeFrom? key false s) := by
  induction attributes with
  | nil => rfl
  | cons a attributes ih =>
    rw [List.flatMap_cons, List.append_assoc, value?, List.find?_cons]
    by_cases ha : a.name = key
    · subst ha
      simp only [beq_self_eq_true, Option.map_some, Option.some_or]
      exact attributeFrom?_markup_self hkey _
    · rw [attributeFrom?_markup_of_ne hkey (Ne.symm ha), ih, beq_false_of_ne ha, value?]

theorem afterAnyCase?_eq_none_of_head (hkey : key ∈ shownNames) {s : List Char}
    (h : ∀ c ∈ s.head?, EndsName c) : afterAnyCase? key s = none := by
  have hname := isName_of_mem_shownNames hkey
  obtain ⟨k, key, rfl⟩ := List.exists_cons_of_ne_nil hname.1
  cases s with
  | nil => rfl
  | cons c s =>
    exact afterAnyCase?_cons_of_not ((h c rfl).not_isCaseOf (hname.2 k List.mem_cons_self))

/-- The attributes of a link are read by themselves. -/
theorem attribute?_attributes (hkey : key ∈ shownNames) (attributes : List Attribute) :
    attribute? key (attributes.flatMap Attribute.markup) =
      (value? key attributes).map (escape valueMarks) := by
  have hhead : ∀ c ∈ (attributes.flatMap Attribute.markup).head?, EndsName c := by
    cases attributes with
    | nil => exact fun c hc => nomatch hc
    | cons a attributes =>
      intro c hc
      obtain rfl : ' ' = c := Option.some.inj hc
      decide
  have hnone := afterAnyCase?_eq_none_of_head hkey hhead
  have hread := attributeFrom?_attributes hkey attributes []
  have hnil : attributeFrom? key false [] = none := rfl
  rw [List.append_nil, hnil, Option.or_none] at hread
  rw [attribute?, attributeFrom?_fresh (by rw [hnone, Option.bind_none]), hread]

/-- The attributes of an image are read in its tag. -/
theorem attribute?_startTag (hkey : key ∈ shownNames) {name : List Char}
    (hname : IsName name) (attributes : List Attribute) :
    attribute? key (startTag name attributes) =
      (value? key attributes).map (escape valueMarks) := by
  have hhead : ∀ c ∈ (startTag name attributes).head?, EndsName c := by
    intro c hc
    obtain rfl : '<' = c := Option.some.inj hc
    decide
  have hnone := afterAnyCase?_eq_none_of_head hkey hhead
  have hblank : ∀ c ∈ '<' :: name, isBlank c = false := by
    rw [List.forall_mem_cons]
    exact ⟨by decide, fun c hc => not_blank_of_isNameChar (hname.2 c hc)⟩
  have hread := attributeFrom?_attributes hkey attributes ['>']
  have hend : attributeFrom? key false ['>'] = none := rfl
  rw [hend, Option.or_none] at hread
  rw [attribute?, attributeFrom?_fresh (by rw [hnone, Option.bind_none]), startTag,
    List.append_assoc, attributeFrom?_blankless hblank, hread]

end EmailTemplate.PlainText
