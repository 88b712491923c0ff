import EmailTemplate.Proofs.Html.Arena
import EmailTemplate.Proofs.Html.Rule
import EmailTemplate.Proofs.Html.Tally

/-! What stands in a document stands in its markup, and in a document that leaves no brace open a
token of the markup stands in one of the texts or values. -/

namespace EmailTemplate.Html

open Text Template

/-! ### Rules -/

def Rule.voidsEmpty : Rule where
  text _ := True
  note _ := True
  tag _ _ := True
  filled tag := tag.isVoid = false

/-- All texts and values are of one kind, and nothing else has a brace. -/
def Rule.texts (C : List Char → Prop) : Rule where
  text s := C s.toList
  note s := BraceFree s.toList
  tag tag attributes :=
    BraceFree tag.name.toList ∧ ∀ a ∈ attributes, BraceFree a.name.toList ∧ C a.value.toList
  filled _ := True

/-- No text and no value leaves a brace open, and nothing else has a brace. -/
def Rule.tidy : Rule where
  text s := Closed s.toList
  note s := BraceFree s.toList
  tag tag attributes :=
    BraceFree tag.name.toList ∧ ∀ a ∈ attributes, BraceFree a.name.toList ∧ Closed a.value.toList
  filled _ := True

def Rule.braceFree : Rule where
  text s := BraceFree s.toList
  note s := BraceFree s.toList
  tag tag attributes :=
    BraceFree tag.name.toList ∧ ∀ a ∈ attributes, BraceFree a.name.toList ∧ BraceFree a.value.toList
  filled _ := True

theorem Forest.VoidsEmpty.follows {f : Forest} (h : f.VoidsEmpty) : f.Follows .voidsEmpty := by
  induction f with
  | nil => trivial
  | text s rest ih => exact ⟨trivial, ih h⟩
  | comment s rest ih => exact ⟨trivial, ih h⟩
  | doctype name rest ih => exact ⟨trivial, ih h⟩
  | element tag attributes children rest ihc ihr =>
    refine ⟨trivial, fun hne => ?_, ihc h.2.1, ihr h.2.2⟩
    exact Bool.eq_false_iff.mpr fun hv => hne (h.1 hv)

theorem Forest.Follows.mono {r r' : Rule} (htext : ∀ s, r.text s → r'.text s)
    (hnote : ∀ s, r.note s → r'.note s) (htag : ∀ tag as, r.tag tag as → r'.tag tag as)
    (hfilled : ∀ tag, r.filled tag → r'.filled tag) {f : Forest} (h : f.Follows r) :
    f.Follows r' := by
  induction f with
  | nil => trivial
  | text s rest ih => exact ⟨htext s h.1, ih h.2⟩
  | comment s rest ih => exact ⟨hnote s h.1, ih h.2⟩
  | doctype name rest ih => exact ⟨hnote name h.1, ih h.2⟩
  | element tag attributes children rest ihc ihr =>
    obtain ⟨ht, hf, hc, hr⟩ := h
    exact ⟨htag tag attributes ht, fun hne => hfilled tag (hf hne), ihc hc, ihr hr⟩

theorem Forest.Follows.tidy {f : Forest} (h : f.Follows .braceFree) : f.Follows .tidy := by
  refine h.mono ?_ ?_ ?_ ?_
  · exact fun s (hs : BraceFree s.toList) => hs.closed
  · exact fun s hs => hs
  · rintro tag as ⟨hname, has⟩
    exact ⟨hname, fun a ha => ⟨(has a ha).1, (has a ha).2.closed⟩⟩
  · exact fun _ _ => trivial

/-! ### Escapes -/

/-- Characters that are written as they are, in texts and in values. -/
def Plain (w : List Char) : Prop := ∀ c ∈ w, escapeTextChar c = [c] ∧ escapeAttributeChar c = [c]

theorem isAsciiAlphanumeric_lt {c : Char} (h : isAsciiAlphanumeric c = true) : c.toNat < 128 := by
  simp only [isAsciiAlphanumeric, isAsciiLetter, isAsciiLower, isAsciiUpper, isAsciiDigit,
    Bool.or_eq_true, Bool.and_eq_true, decide_eq_true_eq, Char.le_def, UInt32.le_iff_toNat_le] at h
  have hz : ('z' : Char).val.toNat = 122 := by decide
  have hZ : ('Z' : Char).val.toNat = 90 := by decide
  have h9 : ('9' : Char).val.toNat = 57 := by decide
  have hc : c.toNat = c.val.toNat := rfl
  omega

theorem escape_alphanumeric {c : Char} (h : isAsciiAlphanumeric c = true) :
    escapeTextChar c = [c] ∧ escapeAttributeChar c = [c] := by
  have hlt := isAsciiAlphanumeric_lt h
  have hamp : c ≠ '&' := by rintro rfl; revert h; decide
  have hless : c ≠ '<' := by rintro rfl; revert h; decide
  have hmore : c ≠ '>' := by rintro rfl; revert h; decide
  have hquote : c ≠ '"' := by rintro rfl; revert h; decide
  have hspace : c.toNat ≠ 0xa0 := by omega
  simp [escapeTextChar, escapeAttributeChar, hamp, hless, hmore, hquote, hspace]

/-- An escape leaves a character as it is, or writes one that is no brace with an ampersand. -/
def Escapes (e : Char → List Char) : Prop :=
  ∀ c, e c = [c] ∨ (isBrace c = false ∧ BraceFree (e c) ∧ ∃ t, e c = '&' :: t)

theorem isBrace_of_toNat {c : Char} (h : c.toNat = 0xa0) : isBrace c = false := by
  have hopen : c ≠ '{' := fun he => by simp [he] at h
  have hclose : c ≠ '}' := fun he => by simp [he] at h
  simp [isBrace, hopen, hclose]

theorem escapes_text : Escapes escapeTextChar := by
  intro c
  rw [escapeTextChar]
  split_ifs with h h h h
  · exact .inr ⟨h ▸ by decide, by decide, _, rfl⟩
  · exact .inr ⟨h ▸ by decide, by decide, _, rfl⟩
  · exact .inr ⟨h ▸ by decide, by decide, _, rfl⟩
  · exact .inr ⟨isBrace_of_toNat h, by decide, _, rfl⟩
  · exact .inl rfl

theorem escapes_attribute : Escapes escapeAttributeChar := by
  intro c
  rw [escapeAttributeChar]
  split_ifs with h h h
  · exact .inr ⟨h ▸ by decide, by decide, _, rfl⟩
  · exact .inr ⟨h ▸ by decide, by decide, _, rfl⟩
  · exact .inr ⟨isBrace_of_toNat h, by decide, _, rfl⟩
  · exact .inl rfl

theorem flatMap_self {e : Char → List Char} {w : List Char} (hw : ∀ c ∈ w, e c = [c]) :
    w.flatMap e = w := (List.flatMap_congr hw).trans (List.flatMap_singleton' w)

theorem infix_escape {e : Char → List Char} {w s : List Char} (hw : ∀ c ∈ w, e c = [c])
    (h : w <:+: s) : w <:+: s.flatMap e := by
  obtain ⟨a, b, rfl⟩ := h
  exact ⟨a.flatMap e, b.flatMap e, by simp [flatMap_self hw]⟩

section Escaping

variable {e : Char → List Char} (he : Escapes e)
include he

theorem Escapes.count {b : Char} (hb : isBrace b = true) (s : List Char) :
    (s.flatMap e).count b = s.count b := by
  induction s with
  | nil => rfl
  | cons c s ih =>
    rw [List.flatMap_cons, List.count_append, ih]
    rcases he c with hc | ⟨hc, hfree, -⟩
    · rw [hc, ← List.count_append, List.singleton_append]
    · have hne : c ≠ b := fun heq => by simp [heq, hb] at hc
      have hzero : (e c).count b = 0 := by
        refine List.count_eq_zero.mpr fun hm => ?_
        rw [hfree b hm] at hb
        cases hb
      rw [hzero, Nat.zero_add, List.count_cons_of_ne hne]

theorem Escapes.flatMap_braceFree {s : List Char} (h : BraceFree s) : BraceFree (s.flatMap e) := by
  rw [braceFree_iff, ← List.count_eq_zero, ← List.count_eq_zero, he.count (by decide),
    he.count (by decide)]
  exact h.count

theorem Escapes.closed {s : List Char} (h : Closed s) : Closed (s.flatMap e) := by
  induction s with
  | nil => trivial
  | cons c s ih =>
    rcases he c with hc | ⟨-, hfree, -⟩
    · have hcount := h.1
      rw [List.flatMap_cons, hc, List.singleton_append]
      refine ⟨?_, ih h.2⟩
      have hopen := he.count (b := '{') (by decide) s
      have hclose := he.count (b := '}') (by decide) s
      simp only [List.count_cons, hopen, hclose] at hcount ⊢
      exact hcount
    · exact hfree.closed.append (ih h.2)

theorem Escapes.escape_brace {c : Char} (hc : isBrace c = true) : e c = [c] := by
  rcases he c with h | ⟨h, -⟩
  · exact h
  · rw [h] at hc
    cases hc

theorem Escapes.cons_prefix {b : Char} (hb : isBrace b = true) {x s : List Char}
    (h : b :: x <+: s.flatMap e) : ∃ s', s = b :: s' ∧ x <+: s'.flatMap e := by
  cases s with
  | nil => simp at h
  | cons c s =>
    rw [List.flatMap_cons] at h
    rcases he c with hc | ⟨-, -, t, ht⟩
    · rw [hc, List.singleton_append, List.cons_prefix_cons] at h
      exact ⟨s, by rw [h.1], h.2⟩
    · rw [ht, List.cons_append, List.cons_prefix_cons] at h
      rw [h.1] at hb
      exact absurd hb (by decide)

/-- What stands before closing braces in an escaped text has been escaped as a whole. -/
theorem Escapes.exists_prefix {v s : List Char} (hv : BraceFree v)
    (h : v ++ closeBraces <+: s.flatMap e) :
    ∃ u, BraceFree u ∧ u.flatMap e = v ∧ u ++ closeBraces <+: s := by
  induction s generalizing v with
  | nil => simp [closeBraces] at h
  | cons c s ih =>
    rw [List.flatMap_cons] at h
    by_cases hc : isBrace c = true
    · rw [he.escape_brace hc, List.singleton_append] at h
      cases v with
      | nil =>
        obtain ⟨rfl, htail⟩ := List.cons_prefix_cons.mp h
        obtain ⟨s', rfl, -⟩ := he.cons_prefix hc htail
        exact ⟨[], BraceFree.nil, rfl, ⟨s', rfl⟩⟩
      | cons d v =>
        obtain ⟨rfl, -⟩ := List.cons_prefix_cons.mp h
        rw [(braceFree_cons.mp hv).1] at hc
        cases hc
    · have hc : isBrace c = false := by simpa using hc
      have hfree : BraceFree (e c) := by
        rcases he c with h | ⟨-, h, -⟩
        · rw [h]
          exact braceFree_cons.mpr ⟨hc, BraceFree.nil⟩
        · exact h
      -- The escape of one character ends before the closing braces.
      have hwhole : e c <+: v := by
        rcases List.prefix_or_prefix_of_prefix (List.prefix_append (e c) _) h with hp | hp
        · exact (prefix_append_cons_iff hfree.close_not_mem).mp hp
        · exact absurd (hp.subset (by simp [closeBraces])) hfree.close_not_mem
      obtain ⟨v, rfl⟩ := hwhole
      rw [List.append_assoc, List.prefix_append_right_inj] at h
      obtain ⟨u, hu, rfl, hi⟩ := ih (braceFree_append.mp hv).2 h
      exact ⟨c :: u, braceFree_cons.mpr ⟨hc, hu⟩, rfl, List.cons_prefix_cons.mpr ⟨rfl, hi⟩⟩

theorem Escapes.exists_token {v s : List Char} (hv : BraceFree v)
    (h : token v <:+: s.flatMap e) : ∃ u, BraceFree u ∧ u.flatMap e = v ∧ token u <:+: s := by
  induction s with
  | nil => exact absurd (List.infix_nil.mp h) (token_ne_nil v)
  | cons c s ih =>
    have hrest : token v <:+: s.flatMap e →
        ∃ u, BraceFree u ∧ u.flatMap e = v ∧ token u <:+: c :: s := by
      intro h
      obtain ⟨u, hu, hflat, hi⟩ := ih h
      exact ⟨u, hu, hflat, hi.trans (List.suffix_cons c s).isInfix⟩
    rw [List.flatMap_cons] at h
    rcases he c with hc | ⟨-, hfree, -⟩
    · rw [hc, List.singleton_append, List.infix_cons_iff] at h
      rcases h with h | h
      · have htoken : ∀ x, token x = '{' :: '{' :: (x ++ closeBraces) := by simp [token, openBraces]
        rw [htoken] at h
        obtain ⟨rfl, hsecond⟩ := List.cons_prefix_cons.mp h
        obtain ⟨s', rfl, htail⟩ := he.cons_prefix (by decide) hsecond
        obtain ⟨u, hu, hflat, hi⟩ := he.exists_prefix hv htail
        refine ⟨u, hu, hflat, List.IsPrefix.isInfix ?_⟩
        rw [htoken]
        exact List.cons_prefix_cons.mpr ⟨rfl, List.cons_prefix_cons.mpr ⟨rfl, hi⟩⟩
      · exact hrest h
    · rcases (token_infix_append_iff hv hfree.closed).mp h with h | h
      · exact absurd h (not_token_infix_of_braceFree hfree v)
      · exact hrest h

theorem Escapes.token_infix {v s : List Char} (hv : BraceFree v) (hp : '&' ∉ v)
    (h : token v <:+: s.flatMap e) : token v <:+: s := by
  obtain ⟨u, -, rfl, hi⟩ := he.exists_token hv h
  have hself : ∀ c ∈ u, e c = [c] := by
    intro c hc
    rcases he c with h | ⟨-, -, t, ht⟩
    · exact h
    · exact absurd (List.mem_flatMap.mpr ⟨c, hc, by simp [ht]⟩) hp
  rwa [flatMap_self hself]

end Escaping

/-! ### Markup -/

theorem Forest.print_element (raw hidden : Bool) (tag : Tag) (attributes : List Attribute)
    (children rest : Forest) : (element tag attributes children rest).print raw hidden =
      (if hidden then [] else openingTag tag attributes) ++
        (children.print tag.isRawText (hidden || tag.isVoid) ++
          ((if hidden || tag.isVoid then [] else closingTag tag) ++ rest.print raw hidden)) := by
  cases hidden <;> simp [print]

theorem Attribute.print_eq (a : Attribute) : a.print =
    (' ' :: a.label.toList ++ ['=', '"']) ++ (escapeAttribute a.value ++ ['"']) := by
  simp [Attribute.print]

theorem openingTag_eq (tag : Tag) (attributes : List Attribute) : openingTag tag attributes =
    ('<' :: tag.name.toList) ++ (attributes.flatMap Attribute.print ++ ['>']) := by
  simp [openingTag]

theorem infix_openingTag {w : List Char} (hw : Plain w) {tag : Tag} {attributes : List Attribute}
    (h : (placesOf w).attributes attributes ≠ 0) : w <:+: openingTag tag attributes := by
  rw [Ne, attributes_placesOf_eq_zero] at h
  push Not at h
  obtain ⟨a, ha, hi⟩ := h
  have hvalue : w <:+: escapeAttribute a.value := infix_escape (fun c hc => (hw c hc).2) hi
  have hprint : escapeAttribute a.value <:+: a.print := by
    rw [a.print_eq]
    exact (List.prefix_append _ _).isInfix.trans (List.suffix_append _ _).isInfix
  have hall : a.print <:+: attributes.flatMap Attribute.print := by
    obtain ⟨before, after, rfl⟩ := List.mem_iff_append.mp ha
    exact ⟨before.flatMap Attribute.print, after.flatMap Attribute.print, by simp⟩
  rw [openingTag_eq]
  exact ((hvalue.trans hprint).trans hall).trans
    ((List.prefix_append _ _).isInfix.trans (List.suffix_append _ _).isInfix)

/-- What stands in a document without content in void elements stands in its markup. -/
theorem infix_print {w : List Char} (hw : Plain w) {f : Forest} (hf : f.Follows .voidsEmpty)
    (h : f.tally (placesOf w) ≠ 0) (raw : Bool) : w <:+: f.print raw false := by
  induction f generalizing raw with
  | nil => exact absurd rfl h
  | text s rest ih =>
    rw [Forest.print]
    by_cases hs : w <:+: s.toList
    · refine List.IsInfix.trans ?_ (List.prefix_append _ _).isInfix
      cases raw with
      | true => exact hs
      | false => exact infix_escape (fun c hc => (hw c hc).1) hs
    · have hrest : rest.tally (placesOf w) ≠ 0 := by
        simpa [Forest.tally, text_placesOf_eq_zero.mpr hs] using h
      exact (ih hf.2 hrest raw).trans (List.suffix_append _ _).isInfix
  | comment s rest ih => exact (ih hf.2 h raw).trans (List.suffix_append _ _).isInfix
  | doctype name rest ih => exact (ih hf.2 h raw).trans (List.suffix_append _ _).isInfix
  | element tag attributes children rest ihc ihr =>
    obtain ⟨-, hfilled, hc, hr⟩ := hf
    rw [Forest.print_element]
    by_cases ha : (placesOf w).attributes attributes = 0
    · refine List.IsInfix.trans ?_ (List.suffix_append _ _).isInfix
      by_cases hin : children.tally (placesOf w) = 0
      · have hrest : rest.tally (placesOf w) ≠ 0 := by simpa [Forest.tally, ha, hin] using h
        exact (ihr hr hrest raw).trans
          ((List.suffix_append _ _).isInfix.trans (List.suffix_append _ _).isInfix)
      · have hvoid : tag.isVoid = false := hfilled fun hnil => hin (by rw [hnil, Forest.tally])
        rw [hvoid]
        exact (ihc hc hin _).trans (List.prefix_append _ _).isInfix
    · exact (infix_openingTag hw ha).trans (List.prefix_append _ _).isInfix

/-! ### Tidy documents -/

theorem label_braceFree {a : Attribute} (h : BraceFree a.name.toList) :
    BraceFree a.label.toList := by
  have hmark : ∀ mark : String, BraceFree mark.toList → BraceFree (mark ++ a.name).toList := by
    intro mark hm
    rw [String.toList_append]
    exact braceFree_append.mpr ⟨hm, h⟩
  rw [Attribute.label]
  split
  · exact h
  · exact hmark _ (by decide)
  · exact hmark _ (by decide)
  · split
    · exact h
    · exact hmark _ (by decide)

theorem attribute_head_braceFree {a : Attribute} (h : BraceFree a.name.toList) :
    BraceFree (' ' :: a.label.toList ++ ['=', '"']) := by
  have hlabel := label_braceFree h
  simp [hlabel, isBrace, BraceFree.nil]

theorem tag_head_braceFree {tag : Tag} (h : BraceFree tag.name.toList) :
    BraceFree ('<' :: tag.name.toList) := by
  simp [h, isBrace]

theorem closingTag_braceFree {tag : Tag} (h : BraceFree tag.name.toList) :
    BraceFree (closingTag tag) := by
  simp [closingTag, h, isBrace, BraceFree.nil]

theorem printComment_braceFree {s : String} (h : BraceFree s.toList) :
    BraceFree (printComment s) := by
  simp [printComment, h, isBrace, BraceFree.nil]

theorem printDoctype_braceFree {s : String} (h : BraceFree s.toList) :
    BraceFree (printDoctype s) := by
  simp [printDoctype, h, isBrace, BraceFree.nil]

/-- A kind of texts to which everything without braces belongs, that may be joined and escaped. -/
structure Joins (C : List Char → Prop) : Prop where
  free : ∀ u, BraceFree u → C u
  append : ∀ u v, C u → C v → C (u ++ v)
  text : ∀ u, C u → C (u.flatMap escapeTextChar)
  value : ∀ u, C u → C (u.flatMap escapeAttributeChar)

theorem joins_closed : Joins Closed where
  free _ hu := hu.closed
  append _ _ hu hv := hu.append hv
  text _ hu := escapes_text.closed hu
  value _ hu := escapes_attribute.closed hu

namespace Joins

variable {C : List Char → Prop} (hC : Joins C)
include hC

theorem printAttribute {a : Attribute} (hname : BraceFree a.name.toList) (hvalue : C a.value.toList) :
    C a.print := by
  have hend : C (escapeAttribute a.value ++ ['"']) :=
    hC.append _ _ (hC.value _ hvalue) (hC.free _ (by decide))
  rw [a.print_eq]
  exact hC.append _ _ (hC.free _ (attribute_head_braceFree hname)) hend

theorem printAttributes {attributes : List Attribute}
    (h : ∀ a ∈ attributes, BraceFree a.name.toList ∧ C a.value.toList) :
    C (attributes.flatMap Attribute.print) := by
  induction attributes with
  | nil => exact hC.free _ BraceFree.nil
  | cons a rest ih =>
    have ha := h a (by simp)
    rw [List.flatMap_cons]
    exact hC.append _ _ (hC.printAttribute ha.1 ha.2) (ih fun b hb => h b (by simp [hb]))

theorem openingTag {tag : Tag} {attributes : List Attribute}
    (h : (Rule.texts C).tag tag attributes) : C (openingTag tag attributes) := by
  rw [openingTag_eq]
  exact hC.append _ _ (hC.free _ (tag_head_braceFree h.1))
    (hC.append _ _ (hC.printAttributes h.2) (hC.free _ (by decide)))

theorem printText {s : String} (h : C s.toList) (raw : Bool) :
    C (if raw then s.toList else escapeText s) := by
  cases raw with
  | true => exact h
  | false => exact hC.text _ h

theorem print {f : Forest} (hf : f.Follows (.texts C)) (raw hidden : Bool) :
    C (f.print raw hidden) := by
  induction f generalizing raw hidden with
  | nil => exact hC.free _ BraceFree.nil
  | text s rest ih => exact hC.append _ _ (hC.printText hf.1 raw) (ih hf.2 raw hidden)
  | comment s rest ih =>
    exact hC.append _ _ (hC.free _ (printComment_braceFree hf.1)) (ih hf.2 raw hidden)
  | doctype s rest ih =>
    exact hC.append _ _ (hC.free _ (printDoctype_braceFree hf.1)) (ih hf.2 raw hidden)
  | element tag attributes children rest ihc ihr =>
    obtain ⟨htag, -, hc, hr⟩ := hf
    have hopening : C (if hidden then [] else Html.openingTag tag attributes) := by
      split
      · exact hC.free _ BraceFree.nil
      · exact hC.openingTag htag
    have hclosing : C (if hidden || tag.isVoid then [] else closingTag tag) := by
      split
      · exact hC.free _ BraceFree.nil
      · exact hC.free _ (closingTag_braceFree htag.1)
    rw [Forest.print_element]
    exact hC.append _ _ hopening
      (hC.append _ _ (ihc hc _ _) (hC.append _ _ hclosing (ihr hr raw hidden)))

end Joins

theorem closed_textContent {f : Forest} (hf : f.Follows .tidy) : Closed f.textContent.toList := by
  induction f with
  | nil => trivial
  | text s rest ih =>
    rw [Forest.textContent, String.toList_append]
    exact hf.1.append (ih hf.2)
  | comment s rest ih => exact ih hf.2
  | doctype s rest ih => exact ih hf.2
  | element tag attributes children rest ihc ihr =>
    rw [Forest.textContent, String.toList_append]
    exact (ihc hf.2.2.1).append (ihr hf.2.2.2)

/-- In a tidy document a token does not stand across texts. -/
theorem of_token_infix_textContent {v : List Char} (hv : BraceFree v) {f : Forest}
    (hf : f.Follows .tidy) (h : token v <:+: f.textContent.toList) :
    f.tally (placesOf (token v)) ≠ 0 := by
  induction f with
  | nil => exact absurd (List.infix_nil.mp h) (token_ne_nil v)
  | text s rest ih =>
    rw [Forest.textContent, String.toList_append, token_infix_append_iff hv hf.1] at h
    rcases h with h | h
    · simp [Forest.tally, text_placesOf_eq_one h]
    · have hrest := ih hf.2 h
      simp only [Forest.tally]
      omega
  | comment s rest ih => exact ih hf.2 h
  | doctype s rest ih => exact ih hf.2 h
  | element tag attributes children rest ihc ihr =>
    obtain ⟨-, -, hc, hr⟩ := hf
    rw [Forest.textContent, String.toList_append,
      token_infix_append_iff hv (closed_textContent hc)] at h
    simp only [Forest.tally]
    rcases h with h | h
    · have hin := ihc hc h
      omega
    · have hrest := ihr hr h
      omega

/-! ### Documents without braces -/

theorem placesOf_token_eq_zero (v : List Char) {f : Forest} (hf : f.Follows .braceFree) :
    f.tally (placesOf (token v)) = 0 := by
  induction f with
  | nil => rfl
  | text s rest ih =>
    have hs := text_placesOf_eq_zero.mpr (not_token_infix_of_braceFree hf.1 v)
    rw [Forest.tally, hs, ih hf.2]
  | comment s rest ih => exact ih hf.2
  | doctype s rest ih => exact ih hf.2
  | element tag attributes children rest ihc ihr =>
    obtain ⟨htag, -, hc, hr⟩ := hf
    have hattributes : (placesOf (token v)).attributes attributes = 0 :=
      attributes_placesOf_eq_zero.mpr fun a ha => not_token_infix_of_braceFree (htag.2 a ha).2 v
    rw [Forest.tally, hattributes, ihc hc, ihr hr]

theorem Escapes.braceFree {e : Char → List Char} (he : Escapes e) {s : List Char}
    (h : BraceFree (s.flatMap e)) : BraceFree s := by
  intro c hc
  rcases he c with hself | ⟨hfree, -⟩
  · exact h c (List.mem_flatMap.mpr ⟨c, hc, by simp [hself]⟩)
  · exact hfree

theorem braceFree_of_label {a : Attribute} (h : BraceFree a.label.toList) :
    BraceFree a.name.toList := by
  rw [Attribute.label] at h
  split at h
  · exact h
  · rw [String.toList_append] at h
    exact (braceFree_append.mp h).2
  · rw [String.toList_append] at h
    exact (braceFree_append.mp h).2
  · split at h
    · exact h
    · rw [String.toList_append] at h
      exact (braceFree_append.mp h).2

theorem braceFree_of_openingTag {tag : Tag} {attributes : List Attribute}
    (h : BraceFree (openingTag tag attributes)) : Rule.braceFree.tag tag attributes := by
  rw [openingTag_eq, braceFree_append, braceFree_append] at h
  refine ⟨(braceFree_cons.mp h.1).2, fun a ha => ?_⟩
  have hprint : BraceFree a.print := fun c hc => h.2.1 c (List.mem_flatMap.mpr ⟨a, ha, hc⟩)
  rw [a.print_eq] at hprint
  obtain ⟨hhead, hvalue⟩ := braceFree_append.mp hprint
  refine ⟨braceFree_of_label ?_, escapes_attribute.braceFree (braceFree_append.mp hvalue).1⟩
  exact (braceFree_cons.mp (braceFree_append.mp hhead).1).2

/-- If the markup of a document has no brace, no part of the document has one. -/
theorem follows_braceFree {f : Forest} (hf : f.Follows .voidsEmpty) {raw : Bool}
    (h : BraceFree (f.print raw false)) : f.Follows .braceFree := by
  induction f generalizing raw with
  | nil => trivial
  | text s rest ih =>
    obtain ⟨hs, hr⟩ := braceFree_append.mp h
    refine ⟨?_, ih hf.2 hr⟩
    cases raw with
    | true => exact hs
    | false => exact escapes_text.braceFree hs
  | comment s rest ih =>
    obtain ⟨hs, hr⟩ := braceFree_append.mp h
    simp only [printComment, braceFree_append] at hs
    exact ⟨hs.1.2, ih hf.2 hr⟩
  | doctype s rest ih =>
    obtain ⟨hs, hr⟩ := braceFree_append.mp h
    simp only [printDoctype, braceFree_append] at hs
    exact ⟨hs.1.2, ih hf.2 hr⟩
  | element tag attributes children rest ihc ihr =>
    obtain ⟨-, hfilled, hc, hr⟩ := hf
    rw [Forest.print_element] at h
    obtain ⟨hopening, h⟩ := braceFree_append.mp h
    obtain ⟨hchildren, h⟩ := braceFree_append.mp h
    refine ⟨braceFree_of_openingTag hopening, fun _ => trivial, ?_, ihr hr (braceFree_append.mp h).2⟩
    by_cases hnil : children = .nil
    · rw [hnil]
      trivial
    · rw [hfilled hnil] at hchildren
      exact ihc hc hchildren

section Tokens

variable {v : List Char} (hv : BraceFree v) (hp : '&' ∉ v)
include hv hp

theorem of_token_infix_attribute {a : Attribute} (hname : BraceFree a.name.toList)
    (hvalue : Closed a.value.toList) (h : token v <:+: a.print) : token v <:+: a.value.toList := by
  have hhead := attribute_head_braceFree hname
  have hclosed : Closed (escapeAttribute a.value) := escapes_attribute.closed hvalue
  rw [a.print_eq, token_infix_append_iff hv hhead.closed, token_infix_append_iff hv hclosed] at h
  rcases h with h | h | h
  · exact absurd h (not_token_infix_of_braceFree hhead v)
  · exact escapes_attribute.token_infix hv hp h
  · exact absurd h (not_token_infix_of_braceFree (by decide) v)

theorem of_token_infix_openingTag {tag : Tag} {attributes : List Attribute}
    (h : Rule.tidy.tag tag attributes) (hi : token v <:+: openingTag tag attributes) :
    (placesOf (token v)).attributes attributes ≠ 0 := by
  have hrow : token v <:+: attributes.flatMap Attribute.print := by
    rw [openingTag_eq, token_infix_append_iff hv (tag_head_braceFree h.1).closed,
      token_infix_append_iff hv (joins_closed.printAttributes h.2)] at hi
    rcases hi with hi | hi | hi
    · exact absurd hi (not_token_infix_of_braceFree (tag_head_braceFree h.1) v)
    · exact hi
    · exact absurd hi (not_token_infix_of_braceFree (by decide) v)
  obtain ⟨-, hall⟩ := h
  clear hi
  induction attributes with
  | nil => exact absurd (List.infix_nil.mp hrow) (token_ne_nil v)
  | cons a rest ih =>
    have ha := hall a (by simp)
    rw [List.flatMap_cons, token_infix_append_iff hv (joins_closed.printAttribute ha.1 ha.2)] at hrow
    rw [Ne, attributes_placesOf_eq_zero]
    intro hnone
    rcases hrow with hrow | hrow
    · exact hnone a (by simp) (of_token_infix_attribute hv hp ha.1 ha.2 hrow)
    · refine ih hrow (fun b hb => hall b (by simp [hb])) (attributes_placesOf_eq_zero.mpr ?_)
      exact fun b hb => hnone b (by simp [hb])

/-- In a tidy document a token of the markup stands in one of the texts or values. -/
theorem of_token_infix_print {f : Forest} (hf : f.Follows .tidy) {raw hidden : Bool}
    (h : token v <:+: f.print raw hidden) : f.tally (placesOf (token v)) ≠ 0 := by
  induction f generalizing raw hidden with
  | nil => exact absurd (List.infix_nil.mp h) (token_ne_nil v)
  | text s rest ih =>
    rw [Forest.print, token_infix_append_iff hv (joins_closed.printText hf.1 raw)] at h
    rcases h with h | h
    · have hs : token v <:+: s.toList := by
        cases raw with
        | true => exact h
        | false => exact escapes_text.token_infix hv hp h
      simp [Forest.tally, text_placesOf_eq_one hs]
    · have hrest := ih hf.2 h
      simp only [Forest.tally]
      omega
  | comment s rest ih =>
    have hs := printComment_braceFree hf.1
    rw [Forest.print, token_infix_append_iff hv hs.closed] at h
    exact ih hf.2 (h.resolve_left (not_token_infix_of_braceFree hs v))
  | doctype s rest ih =>
    have hs := printDoctype_braceFree hf.1
    rw [Forest.print, token_infix_append_iff hv hs.closed] at h
    exact ih hf.2 (h.resolve_left (not_token_infix_of_braceFree hs v))
  | element tag attributes children rest ihc ihr =>
    obtain ⟨htag, -, hc, hr⟩ := hf
    have hopening : token v <:+: (if hidden then [] else openingTag tag attributes) →
        (placesOf (token v)).attributes attributes ≠ 0 := by
      intro hi
      split at hi
      · exact absurd (List.infix_nil.mp hi) (token_ne_nil v)
      · exact of_token_infix_openingTag hv hp htag hi
    have hclosing : BraceFree (if hidden || tag.isVoid then [] else closingTag tag) := by
      split
      · exact BraceFree.nil
      · exact closingTag_braceFree htag.1
    have hopen : Closed (if hidden then [] else openingTag tag attributes) := by
      split
      · trivial
      · exact joins_closed.openingTag htag
    rw [Forest.print_element, token_infix_append_iff hv hopen,
      token_infix_append_iff hv (joins_closed.print hc _ _), token_infix_append_iff hv hclosing.closed] at h
    simp only [Forest.tally]
    rcases h with h | h | h | h
    · have ha := hopening h
      omega
    · have hin := ihc hc h
      omega
    · exact absurd h (not_token_infix_of_braceFree hclosing v)
    · have hrest := ihr hr h
      omega

end Tokens

end EmailTemplate.Html
