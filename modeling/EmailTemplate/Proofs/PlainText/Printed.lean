import EmailTemplate.Html.Printer
import EmailTemplate.Proofs.PlainText.Recognition

/-! Attributes as documents are printed with: what a printed value is read as, and which value is
found under a name. -/

namespace EmailTemplate.PlainText

open Text
open Html (namedChars)

variable {key v : List Char}

/-! ### Printed values -/

def printed (v : List Char) : List Char := v.flatMap Html.escapeAttributeChar

/-- The characters of a value that are printed by name. -/
def isSpelled (c : Char) : Bool := c == '&' || c == '"' || c == noBreakSpace

theorem escapeAttributeChar_of_not {c : Char} (h : isSpelled c = false) :
    Html.escapeAttributeChar c = [c] := by
  simp only [isSpelled, Bool.or_eq_false_iff, beq_eq_false_iff_ne] at h
  obtain ⟨⟨hampersand, hquote⟩, hspace⟩ := h
  have hcode : c.toNat ≠ 0xa0 := fun hcode => hspace (Char.toNat_inj.mp hcode)
  rw [Html.escapeAttributeChar, if_neg hampersand, if_neg hquote, if_neg hcode]

theorem escapeAttributeChar_of_spelled {c : Char} (h : isSpelled c = true) :
    ∃ name, (c, name) ∈ namedChars ∧ Html.escapeAttributeChar c = '&' :: name ++ [';'] := by
  simp only [isSpelled, Bool.or_eq_true, beq_iff_eq] at h
  rcases h with (rfl | rfl) | rfl
  · exact ⟨['a', 'm', 'p'], by decide, rfl⟩
  · exact ⟨['q', 'u', 'o', 't'], by decide, rfl⟩
  · exact ⟨['n', 'b', 's', 'p'], by decide, rfl⟩

theorem mem_printed {d : Char} (h : d ∈ printed v) :
    (d ∈ v ∧ isSpelled d = false) ∨ d = '&' ∨ d = ';' ∨ isAsciiLower d = true := by
  obtain ⟨c, hc, hd⟩ := List.mem_flatMap.mp h
  cases hspelled : isSpelled c with
  | false =>
    rw [escapeAttributeChar_of_not hspelled, List.mem_singleton] at hd
    subst hd
    exact .inl ⟨hc, hspelled⟩
  | true =>
    obtain ⟨name, hname, hwritten⟩ := escapeAttributeChar_of_spelled hspelled
    simp only [hwritten, List.cons_append, List.mem_cons, List.mem_append, List.not_mem_nil,
      or_false] at hd
    rcases hd with hd | hd | hd
    · exact .inr (.inl hd)
    · exact .inr (.inr (.inr (lower_of_mem_namedChars hname d hd)))
    · exact .inr (.inr (.inl hd))

theorem quote_not_mem_printed (v : List Char) : '"' ∉ printed v := by
  intro h
  rcases mem_printed h with ⟨-, h⟩ | h | h | h <;> exact absurd h (by decide)

theorem gt_not_mem_printed (h : '>' ∉ v) : '>' ∉ printed v := by
  intro hm
  rcases mem_printed hm with ⟨hm, -⟩ | hm | hm | hm
  · exact h hm
  all_goals exact absurd hm (by decide)

theorem turns_decodeReferences_printed (v : List Char) :
    Turns decodeReferences (printed v) v := by
  induction v with
  | nil => exact .nil decodeReferences
  | cons c v ih =>
    have hchar : Turns decodeReferences (Html.escapeAttributeChar c) [c] := by
      cases hspelled : isSpelled c with
      | false =>
        rw [escapeAttributeChar_of_not hspelled]
        refine turns_decodeReferences_run fun h => ?_
        rw [← List.mem_singleton.mp h] at hspelled
        exact absurd hspelled (by decide)
      | true =>
        obtain ⟨name, hname, hwritten⟩ := escapeAttributeChar_of_spelled hspelled
        rw [hwritten]
        exact turns_decodeReferences_named hname
    exact hchar.append ih

theorem unixLines_printed (v : List Char) : unixLines (printed v) = printed (unixLines v) := by
  induction v using unixLines_induction with
  | nil => rfl
  | lineEnd v ih =>
    have hprinted : printed ('\r' :: '\n' :: v) = '\r' :: '\n' :: printed v := rfl
    rw [hprinted, unixLines_lineEnd, unixLines_lineEnd, ih]
    rfl
  | passed c v hc ih =>
    have hprinted : printed (c :: v) = Html.escapeAttributeChar c ++ printed v := rfl
    have hunix : printed (c :: unixLines v) =
      Html.escapeAttributeChar c ++ printed (unixLines v) := rfl
    rw [unixLines_cons hc, hprinted, hunix, ← ih]
    cases hspelled : isSpelled c with
    | true =>
      obtain ⟨name, hname, hwritten⟩ := escapeAttributeChar_of_spelled hspelled
      have hcr : '\r' ∉ '&' :: name ++ [';'] := by
        have hlower := lower_of_mem_namedChars hname '\r'
        simpa using fun h => absurd (hlower h) (by decide)
      rw [hwritten]
      exact turns_unixLines hcr _
    | false =>
      rw [escapeAttributeChar_of_not hspelled]
      refine unixLines_cons fun hp => hc ?_
      obtain ⟨rfl, hp⟩ := List.cons_prefix_cons.mp hp
      cases v with
      | nil => simp [printed] at hp
      | cons d v =>
        cases hd : isSpelled d with
        | true =>
          obtain ⟨name, -, hwritten⟩ := escapeAttributeChar_of_spelled hd
          simp [printed, hwritten] at hp
        | false =>
          simpa [printed, escapeAttributeChar_of_not hd] using hp

/-! ### Trimming printed values -/

/-- The blanks that are printed as they are. -/
def isBareBlank (c : Char) : Bool := isBlank c && c != noBreakSpace

/-- Drops the bare blanks at both ends. -/
def trimBare (s : List Char) : List Char := (s.dropWhile isBareBlank).rdropWhile isBareBlank

theorem forall_isBlank_of_bare (h : ∀ c ∈ v, isBareBlank c = true) : ∀ c ∈ v, isBlank c = true :=
  fun c hc => (Bool.and_eq_true_iff.mp (h c hc)).1

theorem isSpelled_of_isBareBlank {c : Char} (h : isBareBlank c = true) : isSpelled c = false := by
  rw [isBareBlank, Bool.and_eq_true, bne_iff_ne] at h
  simp only [isSpelled, Bool.or_eq_false_iff, beq_eq_false_iff_ne]
  refine ⟨⟨?_, ?_⟩, h.2⟩
  · rintro rfl
    exact absurd h.1 (by decide)
  · rintro rfl
    exact absurd h.1 (by decide)

theorem printed_of_isBareBlank (h : ∀ c ∈ v, isBareBlank c = true) : printed v = v := by
  induction v with
  | nil => rfl
  | cons c v ih =>
    rw [List.forall_mem_cons] at h
    have hchar := escapeAttributeChar_of_not (isSpelled_of_isBareBlank h.1)
    rw [printed, List.flatMap_cons, hchar, ← printed, ih h.2, List.singleton_append]

theorem escapeAttributeChar_ends {c : Char} (h : isBareBlank c = false) :
    (∃ d u, Html.escapeAttributeChar c = d :: u ∧ isBlank d = false) ∧
      ∃ u d, Html.escapeAttributeChar c = u ++ [d] ∧ isBlank d = false := by
  cases hspelled : isSpelled c with
  | true =>
    obtain ⟨name, -, hwritten⟩ := escapeAttributeChar_of_spelled hspelled
    exact ⟨⟨'&', name ++ [';'], hwritten, by decide⟩, '&' :: name, ';', hwritten, by decide⟩
  | false =>
    have hblank : isBlank c = false := by
      simp only [isSpelled, Bool.or_eq_false_iff, beq_eq_false_iff_ne] at hspelled
      simpa [isBareBlank, hspelled.2] using h
    have hchar := escapeAttributeChar_of_not hspelled
    exact ⟨⟨c, [], hchar, hblank⟩, [], c, hchar, hblank⟩

theorem dropWhile_printed (v : List Char) :
    (printed v).dropWhile isBlank = printed (v.dropWhile isBareBlank) := by
  rcases all_or_exists_first isBareBlank v with hv | ⟨u, c, w, rfl, hc, hu⟩
  · rw [printed_of_isBareBlank hv, List.dropWhile_eq_nil_iff.mpr hv,
      List.dropWhile_eq_nil_iff.mpr (forall_isBlank_of_bare hv)]
    rfl
  · obtain ⟨⟨d, x, hchar, hd⟩, -⟩ := escapeAttributeChar_ends hc
    rw [dropWhile_append_stop hu hc, printed, List.flatMap_append, ← printed,
      printed_of_isBareBlank hu, List.flatMap_cons, hchar, List.cons_append,
      dropWhile_append_stop (forall_isBlank_of_bare hu) hd, printed, List.flatMap_cons, hchar,
      List.cons_append]

theorem rdropWhile_printed (v : List Char) :
    (printed v).rdropWhile isBlank = printed (v.rdropWhile isBareBlank) := by
  rcases all_or_exists_last isBareBlank v with hv | ⟨u, c, w, rfl, hc, hw⟩
  · rw [printed_of_isBareBlank hv, List.rdropWhile_eq_nil_iff.mpr hv,
      List.rdropWhile_eq_nil_iff.mpr (forall_isBlank_of_bare hv)]
    rfl
  · obtain ⟨-, x, d, hchar, hd⟩ := escapeAttributeChar_ends hc
    have hshape : printed (u ++ c :: w) = (printed u ++ x) ++ d :: w := by
      rw [printed, List.flatMap_append, List.flatMap_cons, hchar, ← printed, ← printed,
        printed_of_isBareBlank hw]
      simp
    have hkept : printed (u ++ [c]) = (printed u ++ x) ++ [d] := by
      rw [printed, List.flatMap_append, List.flatMap_singleton, hchar, ← printed, List.append_assoc]
    rw [rdropWhile_append_stop hw hc, hshape,
      rdropWhile_append_stop (forall_isBlank_of_bare hw) hd, hkept]

theorem trim_printed (v : List Char) : trim (printed v) = printed (trimBare v) := by
  have htrim : trim (printed v) = ((printed v).dropWhile isBlank).rdropWhile isBlank := rfl
  rw [htrim, dropWhile_printed, rdropWhile_printed, trimBare]

theorem printed_eq_nil_iff : printed v = [] ↔ v = [] := by
  cases v with
  | nil => simp [printed]
  | cons c v =>
    have hchar : Html.escapeAttributeChar c ≠ [] := by
      cases hspelled : isSpelled c with
      | false => simp [escapeAttributeChar_of_not hspelled]
      | true =>
        obtain ⟨name, -, hwritten⟩ := escapeAttributeChar_of_spelled hspelled
        simp [hwritten]
    simp [printed, hchar]

theorem trimBare_unixLines (s : List Char) : trimBare (unixLines s) = unixLines (trimBare s) := by
  rw [trimBare, dropWhile_unixLines (by decide) (by decide),
    rdropWhile_unixLines (by decide) (by decide), trimBare]

/-! ### Looking for an attribute -/

/-- The text has a blank, behind it the name, and behind that an equals sign. -/
def mentions (key s : List Char) : Bool :=
  s.tails.any fun t => t.head?.any isBlank &&
    (afterAnyCase? key t.tail).any fun rest => (trimLeft rest).head? == some '='

theorem mentions_cons (key : List Char) (c : Char) (s : List Char) : mentions key (c :: s) =
    ((isBlank c && (afterAnyCase? key s).any fun rest => (trimLeft rest).head? == some '=') ||
      mentions key s) := rfl

/-- No attribute is found in a value that does not mention it, up to the closing quotation mark. -/
theorem attributeFrom?_unmentioned (hkey : IsName key) (h : mentions key v = false)
    (s : List Char) : attributeFrom? key false (v ++ '"' :: s) = attributeFrom? key false s := by
  have hquote : EndsName '"' := by decide
  have hstop : ∀ k ∈ key, isCaseOf k '"' = false := fun k hk => hquote.not_isCaseOf (hkey.2 k hk)
  induction v with
  | nil => exact attributeFrom?_blankless (List.forall_mem_singleton.mpr (by decide)) s
  | cons c v ih =>
    rw [mentions_cons, Bool.or_eq_false_iff] at h
    rw [List.cons_append, attributeFrom?_cons false c _ (by simp)]
    cases hblank : isBlank c with
    | false => exact ih h.2
    | true =>
      have hnone : (afterAnyCase? key (v ++ '"' :: s)).bind valueAfterName? = none := by
        rw [afterAnyCase?_append_cons hstop]
        cases hread : afterAnyCase? key v with
        | none => rfl
        | some rest =>
          have hhead : (trimLeft rest).head? ≠ some '=' := by
            simpa [hblank, hread] using h.1
          have hequals : after? ['='] (trimLeft rest ++ '"' :: s) = none := by
            rw [after?_append_cons (by decide), after?_eq_none_iff.mpr ?_, Option.map_none]
            rintro ⟨t, ht⟩
            exact hhead (by simp [← ht])
          rw [Option.map_some, Option.bind_some, valueAfterName?, trimLeft_append_cons (by decide),
            hequals, Option.bind_none]
      rw [attributeFrom?_fresh hnone, ih h.2]

theorem print_append (a : Html.Attribute) (s : List Char) : a.print ++ s =
    ' ' :: (a.label.toList ++ '=' :: '"' :: (printed a.value.toList ++ '"' :: s)) := by
  simp [Html.Attribute.print, Html.escapeAttribute, printed]

theorem eq_append_of_afterAnyCase? (hkey : key ∈ shownNames) {m name rest : List Char}
    (hm : m ⊆ key) (hlower : ∀ c ∈ name, asciiLower c = c)
    (h : afterAnyCase? m name = some rest) : name = m ++ rest := by
  induction m generalizing name with
  | nil => exact Option.some.inj h
  | cons k m ih =>
    cases name with
    | nil => cases h
    | cons c name =>
      rw [List.forall_mem_cons] at hlower
      rw [afterAnyCase?] at h
      split at h
      · next hcase =>
        rw [isCaseOf_of_mem_shownNames hkey (hm List.mem_cons_self), hlower.1, beq_iff_eq] at hcase
        rw [hcase, List.cons_append, ← ih (fun d hd => hm (List.mem_cons_of_mem k hd)) hlower.2 h]
      · cases h

/-- A label in lower case that ends where it is printed to end. -/
def IsLabel (name : List Char) : Prop :=
  ∀ c ∈ name, isBlank c = false ∧ c ∉ ['=', '>'] ∧ asciiLower c = c

instance (name : List Char) : Decidable (IsLabel name) := List.decidableBAll _ name

/-- Another label is not read as the name looked for. -/
theorem attributeFrom?_print_of_ne (hkey : key ∈ shownNames) {a : Html.Attribute}
    (hlabel : IsLabel a.label.toList) (hne : a.label.toList ≠ key)
    (hvalue : mentions key (printed a.value.toList) = false) (s : List Char) :
    attributeFrom? key false (a.print ++ s) = attributeFrom? key false s := by
  have hname := isName_of_mem_shownNames hkey
  have hequals : EndsName '=' := by decide
  have hstop : ∀ k ∈ key, isCaseOf k '=' = false :=
    fun k hk => hequals.not_isCaseOf (hname.2 k hk)
  have hnone : (afterAnyCase? key (a.label.toList ++ '=' :: '"' ::
      (printed a.value.toList ++ '"' :: s))).bind valueAfterName? = none := by
    rw [afterAnyCase?_append_cons hstop]
    cases hread : afterAnyCase? key a.label.toList with
    | none => rfl
    | some rest =>
      -- What is left of a longer label begins with a character that no equals sign follows.
      have hlong := eq_append_of_afterAnyCase? hkey (List.Subset.refl key)
        (fun c hc => (hlabel c hc).2.2) hread
      cases rest with
      | nil => exact absurd (by rw [hlong, List.append_nil]) hne
      | cons c rest =>
        obtain ⟨hblank, hmark, -⟩ := hlabel c (by rw [hlong]; simp)
        have heq : '=' ≠ c := by
          rintro rfl
          simp at hmark
        rw [Option.map_some, Option.bind_some, List.cons_append, valueAfterName?, trimLeft,
          List.dropWhile_cons_of_neg (by simp [hblank]), after?, if_neg heq, Option.bind_none]
  rw [print_append]
  exact attributeFrom?_other (fun c hc => (hlabel c hc).1) hnone
    (attributeFrom?_unmentioned hname hvalue s)

/-- The attribute of a name is found behind others that do not mention it. -/
theorem attributeFrom?_print {before : List Html.Attribute} {a : Html.Attribute}
    (hkey : a.label.toList ∈ shownNames)
    (hbefore : ∀ b ∈ before, IsLabel b.label.toList ∧ b.label ≠ a.label ∧
      mentions a.label.toList (printed b.value.toList) = false) (s : List Char) :
    attributeFrom? a.label.toList false (before.flatMap Html.Attribute.print ++ (a.print ++ s)) =
      some (printed a.value.toList) := by
  induction before with
  | nil =>
    rw [List.flatMap_nil, List.nil_append, print_append]
    exact attributeFrom?_self (isName_of_mem_shownNames hkey) (quote_not_mem_printed _) s
  | cons b before ih =>
    rw [List.forall_mem_cons] at hbefore
    obtain ⟨⟨hlabel, hne, hvalue⟩, hrest⟩ := hbefore
    have hlist : b.label.toList ≠ a.label.toList := fun h => hne (String.toList_inj.mp h)
    rw [List.flatMap_cons, List.append_assoc, attributeFrom?_print_of_ne hkey hlabel hlist hvalue,
      ih hrest]

/-! ### Line ends in attributes -/

theorem takeWhile_unixLines {p : Char → Bool} (hcr : p '\r' = false) (hlf : p '\n' = false)
    (s : List Char) : (unixLines s).takeWhile p = unixLines (s.takeWhile p) := by
  have hstop : '\r' ∉ s.takeWhile p := by
    intro h
    have hp := List.mem_takeWhile_imp h
    rw [hcr] at hp
    cases hp
  rw [(turns_unixLines hstop).eq rfl]
  induction s using unixLines_induction with
  | nil => rfl
  | lineEnd s =>
    rw [unixLines_lineEnd, List.takeWhile_cons_of_neg (by simp [hlf]),
      List.takeWhile_cons_of_neg (by simp [hcr])]
  | passed c s hc ih =>
    rw [unixLines_cons hc]
    by_cases h : p c = true
    · rw [List.takeWhile_cons_of_pos h] at hstop ⊢
      rw [List.takeWhile_cons_of_pos h, ih fun hm => hstop (List.mem_cons_of_mem c hm)]
    · rw [List.takeWhile_cons_of_neg h, List.takeWhile_cons_of_neg h]

/-- The text before a mark that stands in it. -/
theorem before_unixLines {mark : Char} (hmark : mark ∉ ['\r', '\n']) (u : List Char) :
    (if (unixLines u).contains mark then some ((unixLines u).takeWhile (· != mark)) else none) =
      (if u.contains mark then some (u.takeWhile (· != mark)) else none).map unixLines := by
  rcases all_or_exists_first (· != mark) u with hu | ⟨x, c, y, rfl, hc, hx⟩
  · have hnot : mark ∉ u := fun hm => by simpa using hu mark hm
    have hlf : mark ≠ '\n' := fun h => hmark (by simp [h])
    simp [hnot, not_mem_unixLines hlf hnot]
  · obtain rfl : c = mark := by simpa using hc
    have hnot : c ∉ x := fun hm => by simpa using hx c hm
    have hlf : c ≠ '\n' := fun h => hmark (by simp [h])
    have hunix := bne_of_not_mem (not_mem_unixLines hlf hnot)
    rw [unixLines_append_cons hmark, takeWhile_append_stop hunix (by simp),
      takeWhile_append_stop hx (by simp)]
    simp

theorem valueAfterName?_unixLines (s : List Char) :
    valueAfterName? (unixLines s) = (valueAfterName? s).map unixLines := by
  rw [valueAfterName?, valueAfterName?, trimLeft_unixLines, after?_unixLines (by decide) (by decide)]
  cases after? ['='] (trimLeft s) with
  | none => rfl
  | some t =>
    have hquoted : ∀ mark ∉ ['\r', '\n'],
        ((after? [mark] (unixLines (trimLeft t))).bind fun u =>
          if u.contains mark then some (u.takeWhile (· != mark)) else none) =
        ((after? [mark] (trimLeft t)).bind fun u =>
          if u.contains mark then some (u.takeWhile (· != mark)) else none).map unixLines := by
      intro mark hmark
      simp only [List.mem_cons, List.not_mem_nil, or_false, not_or] at hmark
      rw [after?_unixLines (by simpa using Ne.symm hmark.1) (by simpa using Ne.symm hmark.2)]
      cases after? [mark] (trimLeft t) with
      | none => rfl
      | some u =>
        simp only [Option.map_some, Option.bind_some]
        exact before_unixLines (by simpa using hmark) u
    simp only [Option.map_some, Option.bind_some, trimLeft_unixLines]
    rw [hquoted '"' (by decide), hquoted '\'' (by decide), takeWhile_unixLines (by decide) (by decide),
      isEmpty_unixLines, Option.map_or, Option.map_or]
    split <;> rfl

theorem attributeFrom?_unixLines (hkey : IsName key) (fresh : Bool) (s : List Char) :
    attributeFrom? key fresh (unixLines s) = (attributeFrom? key fresh s).map unixLines := by
  have hends : EndsName '\r' ∧ EndsName '\n' := by decide
  have hstop : ∀ k ∈ key, isCaseOf k '\r' = false ∧ isCaseOf k '\n' = false :=
    fun k hk => ⟨hends.1.not_isCaseOf (hkey.2 k hk), hends.2.not_isCaseOf (hkey.2 k hk)⟩
  have hhere : ∀ t, (afterAnyCase? key (unixLines t)).bind valueAfterName? =
      ((afterAnyCase? key t).bind valueAfterName?).map unixLines := by
    intro t
    rw [afterAnyCase?_unixLines hstop]
    cases afterAnyCase? key t with
    | none => rfl
    | some rest => exact valueAfterName?_unixLines rest
  induction s using unixLines_induction generalizing fresh with
  | nil =>
    cases fresh with
    | false => rfl
    | true => exact hhere []
  | lineEnd s ih =>
    obtain ⟨k, m, rfl⟩ := List.exists_cons_of_ne_nil hkey.1
    have hk := hstop k List.mem_cons_self
    have hblank : isBlank '\r' = true ∧ isBlank '\n' = true := by decide
    have hpass : ∀ fresh c t, isCaseOf k c = false →
        attributeFrom? (k :: m) fresh (c :: t) = attributeFrom? (k :: m) (isBlank c) t := by
      intro fresh c t hc
      exact attributeFrom?_cons fresh c t fun _ => by
        rw [afterAnyCase?_cons_of_not hc, Option.bind_none]
    rw [unixLines_lineEnd, hpass fresh '\n' _ hk.2, hpass fresh '\r' _ hk.1, hpass _ '\n' _ hk.2,
      hblank.2, ih]
  | passed c s hc ih =>
    have hunfold : ∀ t, attributeFrom? key fresh (c :: t) =
        (if fresh then (afterAnyCase? key (c :: t)).bind valueAfterName? else none).or
          (attributeFrom? key (isBlank c) t) := fun _ => rfl
    have hfirst : (if fresh then (afterAnyCase? key (c :: unixLines s)).bind valueAfterName?
          else none) =
        (if fresh then (afterAnyCase? key (c :: s)).bind valueAfterName? else none).map unixLines := by
      cases fresh with
      | false => rfl
      | true =>
        have hat := hhere (c :: s)
        rwa [unixLines_cons hc] at hat
    rw [unixLines_cons hc, hunfold, hunfold, hfirst, ih, Option.map_or]

theorem attribute?_unixLines (hkey : IsName key) (s : List Char) :
    attribute? key (unixLines s) = (attribute? key s).map unixLines :=
  attributeFrom?_unixLines hkey true s

end EmailTemplate.PlainText
