import EmailTemplate.Proofs.PlainText.Gap
import EmailTemplate.Proofs.PlainText.Recognition

/-! A line break between two texts. One without attributes ends the line; one with attributes is
taken for any other tag and leaves nothing behind. -/

namespace EmailTemplate.PlainText

open Text

/-! ### Line-break tags -/

/-- What an attribute may be called in markup. -/
def IsAttributeName (name : List Char) : Prop :=
  name ≠ [] ∧ ∀ c ∈ name, isBlank c = false ∧ c ∉ ['"', '\'', '<', '>', '/', '=']

instance (name : List Char) : Decidable (IsAttributeName name) :=
  have : Decidable (∀ c ∈ name, isBlank c = false ∧ c ∉ ['"', '\'', '<', '>', '/', '=']) :=
    List.decidableBAll _ name
  inferInstanceAs (Decidable (_ ∧ _))

/-- An attribute whose value stands in double quotes. -/
structure QuotedAttribute where
  name : List Char
  value : List Char
  isName : IsAttributeName name
  plain : ∀ c ∈ value, c ≠ '<' ∧ c ≠ '>' ∧ c ≠ '"'

def QuotedAttribute.markup (a : QuotedAttribute) : List Char :=
  ' ' :: a.name ++ '=' :: '"' :: a.value ++ ['"']

def lineBreakTag (attributes : List QuotedAttribute) : List Char :=
  '<' :: ('b' :: 'r' :: attributes.flatMap QuotedAttribute.markup) ++ ['>']

theorem QuotedAttribute.not_mem_markup (a : QuotedAttribute) {c : Char} (hc : c = '<' ∨ c = '>') :
    c ∉ a.markup := by
  have hname : c ∉ a.name := by
    intro h
    have hnot := (a.isName.2 c h).2
    rcases hc with rfl | rfl <;> simp at hnot
  have hvalue : c ∉ a.value := by
    intro h
    have hplain := a.plain c h
    rcases hc with rfl | rfl
    · exact hplain.1 rfl
    · exact hplain.2.1 rfl
  rcases hc with rfl | rfl <;> simp [QuotedAttribute.markup, hname, hvalue]

theorem not_mem_quotedAttributes (attributes : List QuotedAttribute) {c : Char}
    (hc : c = '<' ∨ c = '>') : c ∉ attributes.flatMap QuotedAttribute.markup := by
  intro h
  obtain ⟨a, -, ha⟩ := List.mem_flatMap.mp h
  exact a.not_mem_markup hc ha

/-! ### What is read at such a tag -/

section Read

variable {c : Char} {u : List Char}

/-- Behind its name and a blank the tag goes on. -/
theorem lineBreak?_of_attribute (hblank : isBlank c = false) (hslash : c ≠ '/') (hgt : c ≠ '>')
    (s : List Char) : lineBreak? ('<' :: 'b' :: 'r' :: ' ' :: c :: s) = none := by
  have hread : afterAnyCase? ['<', 'b', 'r'] ('<' :: 'b' :: 'r' :: ' ' :: c :: s) =
      some (' ' :: c :: s) := rfl
  rw [lineBreak?, hread, Option.bind_some, trimLeft, List.dropWhile_cons_of_pos (by decide),
    List.dropWhile_cons_of_neg (by simp [hblank])]
  simp [after?, hslash.symm, hgt.symm]

theorem turns_wordedLines_attribute (hlt : '<' ∉ u) :
    Turns wordedLines ('<' :: 'b' :: 'r' :: ' ' :: u) ('<' :: 'b' :: 'r' :: ' ' :: u) := by
  have hname : IsName ['b', 'r'] := by decide
  have htail : '<' ∉ 'b' :: 'r' :: ' ' :: u := by simp [hlt]
  refine turns_wordedLines_ignored ?_
    (atTag_comment?.ignores_tag htail fun s => comment?_of_ne (by decide) _)
  intro m hm
  have hne : m ≠ ['b', 'r'] := by
    rintro rfl
    exact absurd hm (by decide)
  exact (atTag_openTag? m).ignores_tag htail fun s =>
    openTag?_name_of_ne (isName_of_mem_removed hm) hname hne (by decide) (u ++ s)

theorem turns_toCoded_attribute (hblank : isBlank c = false) (hslash : c ≠ '/')
    (hlt : '<' ∉ c :: u) (hgt : '>' ∉ c :: u) :
    Turns toCoded ('<' :: 'b' :: 'r' :: ' ' :: c :: u ++ ['>']) [] := by
  have hname : IsName ['b', 'r'] := by decide
  have htail : '<' ∉ 'b' :: 'r' :: ' ' :: c :: u ++ ['>'] := by simpa using hlt
  have hlink : Ignores (openTag? ['a']) ('<' :: 'b' :: 'r' :: ' ' :: c :: u ++ ['>']) :=
    (atTag_openTag? ['a']).ignores_tag htail fun s =>
      openTag?_name_of_ne (by decide) hname (by decide) (by decide) _
  have hbreak : Ignores lineBreak? ('<' :: 'b' :: 'r' :: ' ' :: c :: u ++ ['>']) :=
    atTag_lineBreak?.ignores_tag htail fun s =>
      lineBreak?_of_attribute hblank hslash (fun h => hgt (h ▸ List.mem_cons_self)) _
  have hclose : ∀ names,
      Ignores (anyCloseTag? names) ('<' :: 'b' :: 'r' :: ' ' :: c :: u ++ ['>']) := by
    refine fun names => (atTag_anyCloseTag? names).ignores_tag htail fun s => ?_
    rw [anyCloseTag?, List.findSome?_eq_none_iff]
    exact fun m _ => closeTag?_of_ne m (by decide) _
  have hany : ∀ s, anyTag? ('<' :: 'b' :: 'r' :: ' ' :: c :: u ++ ['>'] ++ s) = some s := by
    intro s
    have hinside : '>' ∉ 'b' :: 'r' :: ' ' :: c :: u := by simpa using hgt
    simpa using anyTag?_append hinside (List.cons_ne_nil _ _) s
  exact ((turns_replaceMatches_ignored (ignores_linkAt? hlink)).andThen
    (turns_breakLines_ignored hbreak hclose)).andThen
    (turns_replaceWith [] (List.cons_ne_nil _ _) hany)

end Read

/-! ### Between two texts -/

theorem blank_unixLines_iff {s : List Char} :
    (∀ c ∈ unixLines s, isBlank c = true) ↔ ∀ c ∈ s, isBlank c = true :=
  forall_mem_unixLines_iff (by decide) (by decide)

/-- The plain text around one tag, if it is known what the tag becomes. -/
theorem ofMarkup_around {x y u put : List Char} (hx : '<' ∉ x ∧ '&' ∉ x) (hy : '<' ∉ y ∧ '&' ∉ y)
    (hworded : Turns wordedLines ('<' :: unixLines u ++ ['>']) ('<' :: unixLines u ++ ['>']))
    (hcoded : Turns toCoded ('<' :: unixLines u ++ ['>']) put) (hput : '&' ∉ put) :
    ofMarkup (x ++ ('<' :: u ++ ['>']) ++ y) = tidy (unixLines x ++ (put ++ unixLines y)) := by
  have hlines : unixLines (x ++ ('<' :: u ++ ['>']) ++ y) =
      unixLines x ++ ('<' :: unixLines u ++ ['>']) ++ unixLines y := by
    have hshape : x ++ ('<' :: u ++ ['>']) ++ y = x ++ '<' :: (u ++ '>' :: y) := by simp
    rw [hshape, unixLines_append_cons (by decide), unixLines_append_cons (by decide)]
    simp
  have hxlt := not_mem_unixLines (by decide) hx.1
  have hylt := not_mem_unixLines (by decide) hy.1
  have hall := (((turns_wordedLines_run hxlt).append hworded).append
    (turns_wordedLines_run hylt)).andThen
    (((turns_toCoded_run hxlt).append hcoded).append (turns_toCoded_run hylt))
  have hampersand : '&' ∉ unixLines x ++ (put ++ unixLines y) := by
    simp only [List.mem_append, not_or]
    exact ⟨not_mem_unixLines (by decide) hx.2, hput, not_mem_unixLines (by decide) hy.2⟩
  rw [ofMarkup_eq, hlines, hall.eq rfl, List.append_assoc,
    (turns_decodeReferences_run hampersand).eq rfl]

theorem ofMarkup_bareLineBreak {x y : List Char} (hx : '<' ∉ x ∧ '&' ∉ x)
    (hy : '<' ∉ y ∧ '&' ∉ y) :
    ofMarkup (x ++ lineBreakTag [] ++ y) = tidy (unixLines x ++ '\n' :: unixLines y) := by
  have htag : lineBreakTag [] = '<' :: ['b', 'r'] ++ ['>'] := rfl
  have hlines : unixLines ['b', 'r'] = ['b', 'r'] := rfl
  have hworded : Turns wordedLines (startTag ['b', 'r'] []) (startTag ['b', 'r'] []) :=
    turns_wordedLines_startTag (by decide) (by decide) []
  have hall := ofMarkup_around (u := ['b', 'r']) hx hy (by rw [hlines]; exact hworded)
    (by rw [hlines]; exact turns_toCoded_lineBreak) (by decide)
  rw [htag]
  exact hall

theorem exists_attributes_eq (a : QuotedAttribute) (attributes : List QuotedAttribute) :
    ∃ c u, (a :: attributes).flatMap QuotedAttribute.markup = ' ' :: c :: u ∧
      isBlank c = false ∧ c ≠ '/' := by
  obtain ⟨c, name, hname⟩ := List.exists_cons_of_ne_nil a.isName.1
  obtain ⟨hblank, hmarks⟩ := a.isName.2 c (by rw [hname]; exact List.mem_cons_self)
  have hslash : c ≠ '/' := by
    rintro rfl
    simp at hmarks
  rw [List.flatMap_cons, QuotedAttribute.markup, hname]
  exact ⟨c, _, rfl, hblank, hslash⟩

theorem ofMarkup_attributedLineBreak {x y : List Char} (hx : '<' ∉ x ∧ '&' ∉ x)
    (hy : '<' ∉ y ∧ '&' ∉ y) (a : QuotedAttribute) (attributes : List QuotedAttribute) :
    ofMarkup (x ++ lineBreakTag (a :: attributes) ++ y) = tidy (unixLines x ++ unixLines y) := by
  have hlt := not_mem_quotedAttributes (a :: attributes) (.inl rfl)
  have hgt := not_mem_quotedAttributes (a :: attributes) (.inr rfl)
  obtain ⟨c, u, hu, hblank, hslash⟩ := exists_attributes_eq a attributes
  have htag : lineBreakTag (a :: attributes) =
      '<' :: ('b' :: 'r' :: ' ' :: c :: u) ++ ['>'] := by rw [lineBreakTag, hu]
  have hlines : unixLines ('b' :: 'r' :: ' ' :: c :: u) =
      'b' :: 'r' :: ' ' :: c :: unixLines u := by
    have hcr : c ≠ '\r' := by
      rintro rfl
      exact absurd hblank (by decide)
    have hrun : '\r' ∉ ['b', 'r', ' ', c] := by simp [hcr.symm]
    exact turns_unixLines hrun u
  rw [hu] at hlt hgt
  have hinside : ∀ d ≠ '\n', d ∉ ' ' :: c :: u → d ∉ c :: unixLines u := by
    intro d hd h
    simp only [List.mem_cons, not_or] at h ⊢
    exact ⟨h.2.1, not_mem_unixLines hd h.2.2⟩
  have hlt := hinside '<' (by decide) hlt
  have hgt := hinside '>' (by decide) hgt
  have hworded : '<' ∉ c :: unixLines u ++ ['>'] := by simpa using hlt
  have hall := ofMarkup_around (u := 'b' :: 'r' :: ' ' :: c :: u) hx hy
    (by rw [hlines]; exact turns_wordedLines_attribute hworded)
    (by rw [hlines]; exact turns_toCoded_attribute hblank hslash hlt hgt) List.not_mem_nil
  rw [htag]
  exact hall

/-- A line break with attributes does the same as one without them exactly if there is nothing to
tell apart: a text that is blank, or two line ends that are there already. -/
theorem ofMarkup_lineBreak_iff {x y : List Char} (hx : '<' ∉ x ∧ '&' ∉ x)
    (hy : '<' ∉ y ∧ '&' ∉ y) (attributes : List QuotedAttribute) :
    ofMarkup (x ++ lineBreakTag attributes ++ y) = ofMarkup (x ++ lineBreakTag [] ++ y) ↔
      attributes = [] ∨ (∀ c ∈ x, isBlank c = true) ∨ (∀ c ∈ y, isBlank c = true) ∨
        2 ≤ lineEndsBetween (unixLines x) (unixLines y) := by
  cases attributes with
  | nil => exact iff_of_true rfl (.inl rfl)
  | cons a attributes =>
    rw [ofMarkup_attributedLineBreak hx hy, ofMarkup_bareLineBreak hx hy, eq_comm, tidy_lineEnd_iff,
      blank_unixLines_iff, blank_unixLines_iff]
    simp

def clearLeft : QuotedAttribute where
  name := ['c', 'l', 'e', 'a', 'r']
  value := ['l', 'e', 'f', 't']
  isName := by decide
  plain := by decide

/-- Behind a blank line there is no need of a line break. -/
theorem ofMarkup_lineBreak_iff_blankLine :
    ('<' ∉ ['a', '\n', '\n'] ∧ '&' ∉ ['a', '\n', '\n']) ∧ ('<' ∉ ['b'] ∧ '&' ∉ ['b']) ∧
      ofMarkup (['a', '\n', '\n'] ++ lineBreakTag [clearLeft] ++ ['b']) =
        ofMarkup (['a', '\n', '\n'] ++ lineBreakTag [] ++ ['b']) := by
  have hx : '<' ∉ ['a', '\n', '\n'] ∧ '&' ∉ ['a', '\n', '\n'] := by decide
  have hy : '<' ∉ ['b'] ∧ '&' ∉ ['b'] := by decide
  have hbetween : 2 ≤ lineEndsBetween (unixLines ['a', '\n', '\n']) (unixLines ['b']) := by decide
  exact ⟨hx, hy, (ofMarkup_lineBreak_iff hx hy [clearLeft]).mpr (.inr (.inr (.inr hbetween)))⟩

/-- Between two words an attribute makes the line break disappear. -/
theorem not_ofMarkup_lineBreak : ¬ ∀ (x y : List Char) (attributes : List QuotedAttribute),
    '<' ∉ x ∧ '&' ∉ x → '<' ∉ y ∧ '&' ∉ y →
      ofMarkup (x ++ lineBreakTag attributes ++ y) = ofMarkup (x ++ lineBreakTag [] ++ y) := by
  intro h
  have hwords := h ['a'] ['b'] [clearLeft] (by decide) (by decide)
  revert hwords
  decide +kernel

end EmailTemplate.PlainText
