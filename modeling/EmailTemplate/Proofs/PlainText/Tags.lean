import EmailTemplate.Proofs.PlainText.Escape
import EmailTemplate.Proofs.PlainText.Names
import EmailTemplate.Proofs.PlainText.Passes

/-! What is recognised at a tag that stands whole at the head of a text. -/

namespace EmailTemplate.PlainText

open Text
open Html (markNames)

variable {m name : List Char} {attributes : List Attribute}

/-! ### Written tags -/

theorem textMarks_subset : textMarks ⊆ markNames := by decide

theorem valueMarks_subset : valueMarks ⊆ markNames := by decide

theorem lower_plain {c : Char} (h : isAsciiLower c = true) : c ≠ '<' ∧ c ≠ '>' ∧ c ≠ '\r' := by
  have hname := isNameChar_of_lower h
  exact ⟨ne_of_isNameChar hname (by decide), ne_of_isNameChar hname (by decide),
    ne_of_isNameChar hname (by decide)⟩

theorem Attribute.markup_plain (a : Attribute) {c : Char} (h : c ∈ a.markup) :
    c ≠ '<' ∧ c ≠ '>' ∧ c ≠ '\r' := by
  have hmark : ∀ d ∈ [' ', '=', '"', '&', ';'], d ≠ '<' ∧ d ≠ '>' ∧ d ≠ '\r' := by simp
  simp only [Attribute.markup, List.cons_append, List.mem_append, List.mem_cons,
    List.not_mem_nil, or_false] at h
  rcases h with rfl | (h | rfl | rfl | h) | rfl
  · exact hmark _ (by simp)
  · exact lower_plain (a.name_lower c h)
  · exact hmark _ (by simp)
  · exact hmark _ (by simp)
  · rcases mem_escape valueMarks_subset h with ⟨hc, -⟩ | rfl | rfl | hc
    · exact a.value_plain c hc
    · exact hmark _ (by simp)
    · exact hmark _ (by simp)
    · exact lower_plain hc
  · exact hmark _ (by simp)

theorem attributes_plain {c : Char} (h : c ∈ attributes.flatMap Attribute.markup) :
    c ≠ '<' ∧ c ≠ '>' ∧ c ≠ '\r' := by
  obtain ⟨a, -, ha⟩ := List.mem_flatMap.mp h
  exact a.markup_plain ha

theorem startTag_append (name : List Char) (attributes : List Attribute) (s : List Char) :
    startTag name attributes ++ s =
      '<' :: (name ++ (attributes.flatMap Attribute.markup ++ '>' :: s)) := by
  simp [startTag]

theorem endTag_append (name s : List Char) :
    endTag name ++ s = '<' :: '/' :: (name ++ '>' :: s) := by
  simp [endTag]

/-- After the name of a tag there is a blank or the end of the tag. -/
theorem exists_attributes_eq_cons (attributes : List Attribute) (s : List Char) :
    ∃ d t, attributes.flatMap Attribute.markup ++ '>' :: s = d :: t ∧ (d = ' ' ∨ d = '>') := by
  cases attributes with
  | nil => exact ⟨'>', s, rfl, .inr rfl⟩
  | cons a attributes => exact ⟨' ', _, rfl, .inl rfl⟩

/-! ### Opening and closing tags -/

theorem tagEnd?_append {u : List Char} (hu : '>' ∉ u) (s : List Char) :
    tagEnd? (u ++ '>' :: s) = some (u, s) := by
  have hpass := bne_of_not_mem hu
  rw [tagEnd?, dropWhile_append_stop hpass (by decide), takeWhile_append_stop hpass (by decide)]

theorem afterAnyCase?_lt (m s : List Char) :
    afterAnyCase? ('<' :: m) ('<' :: s) = afterAnyCase? m s := rfl

theorem openTag?_startTag_self (hname : IsName name) (attributes : List Attribute)
    (s : List Char) : openTag? name (startTag name attributes ++ s) =
      some (attributes.flatMap Attribute.markup, s) := by
  have hgt : '>' ∉ attributes.flatMap Attribute.markup := fun h => (attributes_plain h).2.1 rfl
  obtain ⟨d, t, htail, hd⟩ := exists_attributes_eq_cons attributes s
  have hword : ¬ isWord d = true := by
    rcases hd with rfl | rfl <;> decide
  have hend : ¬ (attributes.flatMap Attribute.markup ++ '>' :: s).head?.any isWord = true := by
    rwa [htail]
  rw [startTag_append, openTag?, afterAnyCase?_lt, afterAnyCase?_self hname.2, Option.bind_some,
    if_neg hend, tagEnd?_append hgt]

theorem openTag?_name_of_ne (hm : IsName m) (hname : IsName name) (hne : m ≠ name) {d : Char}
    (hd : EndsName d) (t : List Char) : openTag? m ('<' :: (name ++ d :: t)) = none := by
  rw [openTag?, afterAnyCase?_lt]
  rcases afterAnyCase?_of_ne hm.2 hname.2 hne hd t with h | ⟨c, u, hc, h⟩
  · rw [h, Option.bind_none]
  · simp [h, isWord_of_isNameChar hc]

theorem openTag?_startTag_of_ne (hm : IsName m) (hname : IsName name) (hne : m ≠ name)
    (attributes : List Attribute) (s : List Char) :
    openTag? m (startTag name attributes ++ s) = none := by
  obtain ⟨d, t, htail, hd⟩ := exists_attributes_eq_cons attributes s
  have hends : EndsName d := by
    rcases hd with rfl | rfl <;> decide
  rw [startTag_append, htail]
  exact openTag?_name_of_ne hm hname hne hends t

theorem openTag?_of_endsName (hm : IsName m) {d : Char} (hd : EndsName d) (s : List Char) :
    openTag? m ('<' :: d :: s) = none := by
  obtain ⟨c, m, rfl⟩ := List.exists_cons_of_ne_nil hm.1
  rw [openTag?, afterAnyCase?_lt,
    afterAnyCase?_cons_of_not (hd.not_isCaseOf (hm.2 c List.mem_cons_self)), Option.bind_none]

theorem openTag?_endTag (hm : IsName m) (name s : List Char) :
    openTag? m (endTag name ++ s) = none := by
  rw [endTag_append]
  exact openTag?_of_endsName hm (by decide) _

theorem closeTag?_endTag_self (hname : IsName name) (s : List Char) :
    closeTag? name (endTag name ++ s) = some s := by
  have hread : afterAnyCase? ('<' :: '/' :: name) ('<' :: '/' :: (name ++ '>' :: s)) =
      some ('>' :: s) := afterAnyCase?_self hname.2 ('>' :: s)
  rw [endTag_append, closeTag?, hread, Option.bind_some, trimLeft,
    List.dropWhile_cons_of_neg (by decide)]
  rfl

theorem closeTag?_endTag_of_ne (hm : IsName m) (hname : IsName name) (hne : m ≠ name)
    (s : List Char) : closeTag? m (endTag name ++ s) = none := by
  have hread : afterAnyCase? ('<' :: '/' :: m) ('<' :: '/' :: (name ++ '>' :: s)) =
      afterAnyCase? m (name ++ '>' :: s) := rfl
  have hends : EndsName '>' := by decide
  rw [endTag_append, closeTag?, hread]
  rcases afterAnyCase?_of_ne hm.2 hname.2 hne hends s with h | ⟨c, u, hc, h⟩
  · rw [h, Option.bind_none]
  · have hgt : '>' ≠ c := (ne_of_isNameChar hc (by decide)).symm
    have hblank : ¬ isBlank c = true := by simp [not_blank_of_isNameChar hc]
    rw [h, Option.bind_some, trimLeft, List.dropWhile_cons_of_neg hblank, after?, if_neg hgt]

/-- A closing tag begins with a slash. -/
theorem closeTag?_of_ne (m : List Char) {c : Char} (hc : c ≠ '/') (s : List Char) :
    closeTag? m ('<' :: c :: s) = none := by
  have hslash : isCaseOf '/' c = false := by
    cases hcase : isCaseOf '/' c with
    | false => rfl
    | true => exact absurd (eq_of_isCaseOf (by decide) hcase) hc
  rw [closeTag?, afterAnyCase?_lt, afterAnyCase?_cons_of_not hslash, Option.bind_none]

theorem closeTag?_startTag (m : List Char) (hname : IsName name) (attributes : List Attribute)
    (s : List Char) : closeTag? m (startTag name attributes ++ s) = none := by
  obtain ⟨c, name, rfl⟩ := List.exists_cons_of_ne_nil hname.1
  rw [startTag_append]
  exact closeTag?_of_ne m (ne_of_isNameChar (hname.2 c List.mem_cons_self) (by decide)) _

theorem anyTag?_append {u : List Char} (hu : '>' ∉ u) (hne : u ≠ []) (s : List Char) :
    anyTag? ('<' :: (u ++ '>' :: s)) = some s := by
  have hfull : u.isEmpty = false := by simpa using hne
  rw [anyTag?, after?, if_pos rfl, after?, Option.bind_some, tagEnd?_append hu, Option.bind_some]
  simp only [hfull, Bool.false_eq_true, if_false]

theorem anyTag?_startTag (hname : IsName name) (attributes : List Attribute) (s : List Char) :
    anyTag? (startTag name attributes ++ s) = some s := by
  have hgt : '>' ∉ name ++ attributes.flatMap Attribute.markup := by
    rw [List.mem_append, not_or]
    exact ⟨not_mem_of_isNameChar hname.2 (by decide), fun h => (attributes_plain h).2.1 rfl⟩
  rw [startTag_append, ← List.append_assoc]
  exact anyTag?_append hgt (by simp [hname.1]) s

theorem anyTag?_endTag (hname : IsName name) (s : List Char) :
    anyTag? (endTag name ++ s) = some s := by
  have hgt : '>' ∉ '/' :: name := by
    rw [List.mem_cons, not_or]
    exact ⟨by decide, not_mem_of_isNameChar hname.2 (by decide)⟩
  rw [endTag_append, ← List.cons_append]
  exact anyTag?_append hgt (List.cons_ne_nil _ _) s

theorem upToCloseTag?_idle {u s : List Char} (h : Idle (closeTag? m) u s) :
    upToCloseTag? m (u ++ s) = (upToCloseTag? m s).map fun p => (u ++ p.1, p.2) := by
  induction u with
  | nil => simp
  | cons c u ih =>
    rw [List.cons_append, upToCloseTag?, h.of_cons.1, ih h.of_cons.2, Option.map_map]
    rfl

theorem upToCloseTag?_of_idle {s : List Char} (h : Idle (closeTag? m) s []) :
    upToCloseTag? m s = none := by
  have hall := upToCloseTag?_idle h
  rwa [List.append_nil] at hall

/-- The body of an element goes on to the first closing tag of its name. -/
theorem upToCloseTag?_body (hname : IsName name) {u : List Char} (h : Ignores (closeTag? name) u)
    (s : List Char) : upToCloseTag? name (u ++ (endTag name ++ s)) = some (u, s) := by
  have hend : upToCloseTag? name (endTag name ++ s) = some ([], s) := by
    have hclose := closeTag?_endTag_self hname s
    rw [endTag_append] at hclose ⊢
    rw [upToCloseTag?, hclose]
  rw [upToCloseTag?_idle (h _), hend, Option.map_some, List.append_nil]

/-! ### Line breaks and comments -/

theorem lineBreak?_startTag (s : List Char) :
    lineBreak? (startTag ['b', 'r'] [] ++ s) = some s := by
  have hread : afterAnyCase? ['<', 'b', 'r'] (startTag ['b', 'r'] [] ++ s) = some ('>' :: s) := rfl
  rw [lineBreak?, hread, Option.bind_some, trimLeft, List.dropWhile_cons_of_neg (by decide)]
  rfl

theorem lineBreak?_startTag_of_ne (hname : IsName name) (hne : name ≠ ['b', 'r'])
    (attributes : List Attribute) (s : List Char) :
    lineBreak? (startTag name attributes ++ s) = none := by
  obtain ⟨d, t, htail, hd⟩ := exists_attributes_eq_cons attributes s
  have hends : EndsName d := by
    rcases hd with rfl | rfl <;> decide
  have hbr : IsName ['b', 'r'] := by decide
  rw [startTag_append, htail, lineBreak?, afterAnyCase?_lt]
  rcases afterAnyCase?_of_ne hbr.2 hname.2 hne.symm hends t with h | ⟨c, u, hc, h⟩
  · rw [h, Option.bind_none]
  · have hgt : '>' ≠ c := (ne_of_isNameChar hc (by decide)).symm
    have hslash : '/' ≠ c := (ne_of_isNameChar hc (by decide)).symm
    have hblank : ¬ isBlank c = true := by simp [not_blank_of_isNameChar hc]
    simp only [h, Option.bind_some, trimLeft, List.dropWhile_cons_of_neg hblank, after?,
      if_neg hgt, if_neg hslash, Option.or_none]

theorem lineBreak?_endTag (name s : List Char) : lineBreak? (endTag name ++ s) = none := by
  rw [endTag_append, lineBreak?, afterAnyCase?_lt, afterAnyCase?_cons_of_not (by decide),
    Option.bind_none]

theorem comment?_of_ne {c : Char} (hc : c ≠ '!') (s : List Char) :
    comment? ('<' :: c :: s) = none := by
  rw [comment?, after?, if_pos rfl, after?, if_neg hc.symm, Option.bind_none]

theorem comment?_startTag (hname : IsName name) (attributes : List Attribute) (s : List Char) :
    comment? (startTag name attributes ++ s) = none := by
  obtain ⟨c, name, rfl⟩ := List.exists_cons_of_ne_nil hname.1
  rw [startTag_append]
  exact comment?_of_ne (ne_of_isNameChar (hname.2 c List.mem_cons_self) (by decide)) _

theorem comment?_endTag (name s : List Char) : comment? (endTag name ++ s) = none := by
  rw [endTag_append]
  rfl

/-! ### Where tags are looked for -/

theorem atTag_afterAnyCase? (m : List Char) : AtTag (afterAnyCase? ('<' :: m)) := by
  intro c s hc
  refine afterAnyCase?_cons_of_not ?_
  cases hcase : isCaseOf '<' c with
  | false => rfl
  | true => exact absurd (eq_of_isCaseOf (by decide) hcase) hc

theorem atTag_openTag? (m : List Char) : AtTag (openTag? m) := (atTag_afterAnyCase? m).bind _

theorem atTag_closeTag? (m : List Char) : AtTag (closeTag? m) :=
  (atTag_afterAnyCase? ('/' :: m)).bind _

theorem atTag_lineBreak? : AtTag lineBreak? := (atTag_afterAnyCase? ['b', 'r']).bind _

theorem atTag_after? (m : List Char) : AtTag (after? ('<' :: m)) := by
  intro c s hc
  rw [after?, if_neg hc.symm]

theorem atTag_comment? : AtTag comment? := (atTag_after? ['!', '-', '-']).bind _

theorem atTag_anyTag? : AtTag anyTag? := (atTag_after? []).bind _

theorem atTag_anyCloseTag? (names : List (List Char)) : AtTag (anyCloseTag? names) := by
  intro c s hc
  rw [anyCloseTag?, List.findSome?_eq_none_iff]
  exact fun m _ => atTag_closeTag? m c s hc

section Ignores

variable {α : Type} {read : List Char → Option α}

theorem lt_not_mem_startTag_tail (hname : IsName name) (attributes : List Attribute) :
    '<' ∉ name ++ attributes.flatMap Attribute.markup ++ ['>'] := by
  simp only [List.mem_append, List.mem_singleton, not_or]
  exact ⟨⟨not_mem_of_isNameChar hname.2 (by decide), fun h => (attributes_plain h).1 rfl⟩,
    by decide⟩

theorem lt_not_mem_endTag_tail (hname : IsName name) : '<' ∉ '/' :: name ++ ['>'] := by
  simp only [List.cons_append, List.mem_cons, List.mem_append, List.not_mem_nil, or_false, not_or]
  exact ⟨by decide, not_mem_of_isNameChar hname.2 (by decide), by decide⟩

theorem AtTag.ignores_startTag (h : AtTag read) (hname : IsName name)
    (hread : ∀ s, read (startTag name attributes ++ s) = none) :
    Ignores read (startTag name attributes) :=
  h.ignores_tag (lt_not_mem_startTag_tail hname attributes) hread

theorem AtTag.ignores_endTag (h : AtTag read) (hname : IsName name)
    (hread : ∀ s, read (endTag name ++ s) = none) : Ignores read (endTag name) :=
  h.ignores_tag (lt_not_mem_endTag_tail hname) hread

end Ignores

theorem ignores_openTag?_startTag (hm : IsName m) (hname : IsName name) (hne : m ≠ name)
    (attributes : List Attribute) : Ignores (openTag? m) (startTag name attributes) :=
  (atTag_openTag? m).ignores_startTag hname (openTag?_startTag_of_ne hm hname hne attributes)

theorem ignores_openTag?_endTag (hm : IsName m) (hname : IsName name) :
    Ignores (openTag? m) (endTag name) :=
  (atTag_openTag? m).ignores_endTag hname (openTag?_endTag hm name)

theorem ignores_comment?_startTag (hname : IsName name) (attributes : List Attribute) :
    Ignores comment? (startTag name attributes) :=
  atTag_comment?.ignores_startTag hname (comment?_startTag hname attributes)

end EmailTemplate.PlainText
