import EmailTemplate.Adaptation.Anchor
import EmailTemplate.Proofs.Html.Edit
import EmailTemplate.Proofs.Template.Braces

/-! Counting what stands in the texts and attributes of a document, and what edits do to a count. -/

namespace EmailTemplate.Html

open Text Template

/-- What a text and what the attributes of an element count for. -/
structure Measure where
  text : String → Nat
  attributes : List Attribute → Nat

def Forest.tally (m : Measure) : Forest → Nat
  | nil => 0
  | text s rest => m.text s + rest.tally m
  | comment _ rest | doctype _ rest => rest.tally m
  | element _ attributes children rest =>
    m.attributes attributes + children.tally m + rest.tally m

def Element.tally (m : Measure) (e : Element) : Nat := m.attributes e.attributes + e.children.tally m

variable {m m' : Measure}

@[simp]
theorem tally_followedBy (e : Element) (rest : Forest) :
    (e.followedBy rest).tally m = e.tally m + rest.tally m := rfl

namespace Forest

@[simp]
theorem tally_append (f g : Forest) : (f.append g).tally m = f.tally m + g.tally m := by
  induction f with
  | nil => simp [append, tally]
  | text s rest ih => simp [append, tally, ih, Nat.add_assoc]
  | comment s rest ih => simpa [append, tally] using ih
  | doctype name rest ih => simpa [append, tally] using ih
  | element tag attributes children rest _ ih => simp [append, tally, ih, Nat.add_assoc]

theorem tally_mono (htext : ∀ s, m.text s ≤ m'.text s)
    (hattributes : ∀ as, m.attributes as ≤ m'.attributes as) (f : Forest) :
    f.tally m ≤ f.tally m' := by
  induction f with
  | nil => exact Nat.le_refl _
  | text s rest ih => exact Nat.add_le_add (htext s) ih
  | comment s rest ih => exact ih
  | doctype name rest ih => exact ih
  | element tag attributes children rest ihc ihr =>
    exact Nat.add_le_add (Nat.add_le_add (hattributes attributes) ihc) ihr

/-- What counts for nothing in one way counts for nothing in another. -/
theorem tally_eq_zero (htext : ∀ s, m.text s = 0 → m'.text s = 0)
    (hattributes : ∀ as, m.attributes as = 0 → m'.attributes as = 0) {f : Forest}
    (h : f.tally m = 0) : f.tally m' = 0 := by
  induction f with
  | nil => rfl
  | text s rest ih =>
    obtain ⟨hs, hr⟩ := Nat.add_eq_zero_iff.mp h
    exact Nat.add_eq_zero_iff.mpr ⟨htext s hs, ih hr⟩
  | comment s rest ih => exact ih h
  | doctype name rest ih => exact ih h
  | element tag attributes children rest ihc ihr =>
    obtain ⟨h, hr⟩ := Nat.add_eq_zero_iff.mp h
    obtain ⟨ha, hc⟩ := Nat.add_eq_zero_iff.mp h
    exact Nat.add_eq_zero_iff.mpr
      ⟨Nat.add_eq_zero_iff.mpr ⟨hattributes attributes ha, ihc hc⟩, ihr hr⟩

@[simp]
theorem tally_none (f : Forest) : f.tally ⟨fun _ => 0, fun _ => 0⟩ = 0 := by
  induction f with
  | nil => rfl
  | text s rest ih => simpa [tally] using ih
  | comment s rest ih => exact ih
  | doctype name rest ih => exact ih
  | element tag attributes children rest ihc ihr => simp [tally, ihc, ihr]

/-! ### Edits -/

/-- An edit changes the count of a document as it changes that of the element. -/
theorem tally_editAt {f : Forest} {i : Nat} {e : Element} {edit : Element → Forest → Forest}
    {a b : Nat} (he : f.elementAt? i = some e)
    (hedit : ∀ rest : Forest, (edit e rest).tally m + a = e.tally m + rest.tally m + b) :
    (f.editAt edit i).tally m + a = f.tally m + b := by
  induction f, i, he using elementAt?_induction with
  | text s rest i _ ih =>
    simp only [editAt, tally]
    omega
  | comment s rest i _ ih => exact ih
  | doctype name rest i _ ih => exact ih
  | here rest => exact hedit rest
  | inner tag attributes children rest i hi _ ih =>
    rw [editAt_inner hi]
    simp only [tally]
    omega
  | later tag attributes children rest i _ ih =>
    rw [editAt_later]
    simp only [tally]
    omega

theorem tally_updateAt {f : Forest} {i : Nat} {e : Element} (he : f.elementAt? i = some e)
    (change : Element → Element) :
    (f.updateAt i change).tally m + e.tally m = f.tally m + (change e).tally m := by
  refine tally_editAt he fun rest => ?_
  rw [tally_followedBy]
  omega

theorem tally_setText {f : Forest} {i : Nat} {e : Element} (he : f.elementAt? i = some e)
    (s : String) : (f.setText i s).tally m + e.children.tally m = f.tally m + m.text s := by
  have h := tally_updateAt (m := m) he fun e => { e with children := text s nil }
  simp only [Element.tally, tally] at h
  rw [setText]
  omega

/-- The document with nothing in an element. -/
def outside (f : Forest) (i : Nat) : Forest := f.updateAt i fun e => { e with children := nil }

theorem tally_updateAt_children {f : Forest} {i : Nat} {e : Element} (he : f.elementAt? i = some e)
    (change : Forest → Forest) :
    (f.updateAt i fun e => { e with children := change e.children }).tally m =
      (f.outside i).tally m + (change e.children).tally m := by
  have hchange := tally_updateAt (m := m) he fun e => { e with children := change e.children }
  have hnone := tally_updateAt (m := m) he fun e => { e with children := nil }
  simp only [Element.tally, tally] at hchange hnone
  rw [outside]
  omega

theorem tally_eq_outside {f : Forest} {i : Nat} {e : Element} (he : f.elementAt? i = some e) :
    f.tally m = (f.outside i).tally m + e.children.tally m := by
  have hnone := tally_updateAt (m := m) he fun e => { e with children := nil }
  simp only [Element.tally, tally] at hnone
  rw [outside]
  omega

/-- What is outside an element does not change with its content. -/
theorem tally_outside_updateAt {f : Forest} {i : Nat} {e : Element} (he : f.elementAt? i = some e)
    (change : Forest → Forest) :
    ((f.updateAt i fun e => { e with children := change e.children }).outside i).tally m =
      (f.outside i).tally m := by
  have hnew := elementAt?_updateAt (fun e => { e with children := change e.children }) he
  have hsplit := tally_eq_outside (m := m) hnew
  have hchange := tally_updateAt_children (m := m) he change
  simp only at hsplit
  omega

theorem tally_wrap {f : Forest} {i : Nat} {e : Element} (he : f.elementAt? i = some e)
    (name : String) : (f.wrap i name).tally m = f.tally m +
      (m.text (String.ofList (sectionOpener name.toList)) +
        m.text (String.ofList (sectionCloser name.toList))) := by
  rw [wrap_eq_editAt]
  refine tally_editAt (a := 0) he fun rest => ?_
  simp only [tally, tally_followedBy]
  omega

@[simp]
theorem tally_stripComments (f : Forest) : f.stripComments.tally m = f.tally m := by
  induction f with
  | nil => rfl
  | text s rest ih => simp [stripComments, tally, ih]
  | comment s rest ih => simpa [stripComments, tally] using ih
  | doctype name rest ih => simpa [stripComments, tally] using ih
  | element tag attributes children rest ihc ihr => simp [stripComments, tally, ihc, ihr]

theorem tally_replaceLiteral (find put : List Char) (f : Forest) :
    (f.replaceLiteral find put).tally m = f.tally
      ⟨fun s => m.text (String.ofList (replaceAll find put s.toList)),
        fun as => m.attributes (replaceInValues find put as)⟩ := by
  induction f with
  | nil => rfl
  | text s rest ih => simp [replaceLiteral, tally, ih]
  | comment s rest ih => simpa [replaceLiteral, tally] using ih
  | doctype name rest ih => simpa [replaceLiteral, tally] using ih
  | element tag attributes children rest ihc ihr => simp [replaceLiteral, tally, ihc, ihr]

theorem countLiteral_eq_tally (find : List Char) (f : Forest) :
    f.countLiteral find = f.tally ⟨fun s => countAll find s.toList, countInValues find⟩ := by
  induction f with
  | nil => rfl
  | text s rest ih => simp [countLiteral, tally, ih]
  | comment s rest ih => simpa [countLiteral, tally] using ih
  | doctype name rest ih => simpa [countLiteral, tally] using ih
  | element tag attributes children rest ihc ihr => simp [countLiteral, tally, ihc, ihr]

theorem tally_le_of_mem {f : Forest} {e : Element} (h : e ∈ f.elements) : e.tally m ≤ f.tally m := by
  induction f with
  | nil => simp [elements] at h
  | text s rest ih => exact Nat.le_trans (ih h) (Nat.le_add_left _ _)
  | comment s rest ih => exact ih h
  | doctype name rest ih => exact ih h
  | element tag attributes children rest ihc ihr =>
    simp only [elements, List.mem_cons, List.mem_append] at h
    simp only [tally]
    rcases h with rfl | h | h
    · exact Nat.le_add_right _ _
    · have hc := ihc h
      omega
    · have hr := ihr h
      omega

theorem tally_le_of_elementAt? {f : Forest} {i : Nat} {e : Element} (h : f.elementAt? i = some e) :
    e.tally m ≤ f.tally m := tally_le_of_mem (mem_elements_of_elementAt? h)

end Forest

/-! ### Where a word stands -/

/-- Counts the texts that have a word in them. -/
def textsWith (w : List Char) : Measure where
  text s := if occurs w s.toList then 1 else 0
  attributes _ := 0

/-- Counts the texts and the values that have a word in them. -/
def placesOf (w : List Char) : Measure where
  text s := if occurs w s.toList then 1 else 0
  attributes as := as.countP fun a => occurs w a.value.toList

theorem text_placesOf_eq_zero {w : List Char} {s : String} :
    (placesOf w).text s = 0 ↔ ¬ w <:+: s.toList := by
  rw [← occurs_iff]
  simp [placesOf]

theorem text_placesOf_eq_one {w : List Char} {s : String} (h : w <:+: s.toList) :
    (placesOf w).text s = 1 := by
  simp [placesOf, occurs_iff.mpr h]

theorem text_placesOf_le (w : List Char) (s : String) : (placesOf w).text s ≤ 1 := by
  simp only [placesOf]
  split
  · exact Nat.le_refl 1
  · exact Nat.zero_le 1

theorem attributes_placesOf_eq_zero {w : List Char} {as : List Attribute} :
    (placesOf w).attributes as = 0 ↔ ∀ a ∈ as, ¬ w <:+: a.value.toList := by
  simp only [placesOf, List.countP_eq_zero, occurs_iff]

namespace Forest

theorem textsWith_le_placesOf (w : List Char) (f : Forest) :
    f.tally (textsWith w) ≤ f.tally (placesOf w) := by
  refine f.tally_mono ?_ ?_
  · exact fun s => Nat.le_refl ((textsWith w).text s)
  · exact fun as => Nat.zero_le _

theorem infix_textContent {w : List Char} {f : Forest} (h : f.tally (textsWith w) ≠ 0) :
    w <:+: f.textContent.toList := by
  induction f with
  | nil => exact absurd rfl h
  | text s rest ih =>
    rw [textContent, String.toList_append]
    by_cases hs : w <:+: s.toList
    · exact hs.trans (List.prefix_append _ _).isInfix
    · have hrest : rest.tally (textsWith w) ≠ 0 := by
        simpa [tally, textsWith, Bool.eq_false_iff.mpr (mt occurs_iff.mp hs)] using h
      exact (ih hrest).trans (List.suffix_append _ _).isInfix
  | comment s rest ih => exact ih h
  | doctype name rest ih => exact ih h
  | element tag attributes children rest ihc ihr =>
    rw [textContent, String.toList_append]
    by_cases hc : children.tally (textsWith w) = 0
    · have hrest : rest.tally (textsWith w) ≠ 0 := by
        intro hr
        exact h (by rw [tally, hc, hr, textsWith])
      exact (ihr hrest).trans (List.suffix_append _ _).isInfix
    · exact (ihc hc).trans (List.prefix_append _ _).isInfix

theorem textContent_infix_of_mem {f : Forest} {e : Element} (h : e ∈ f.elements) :
    e.textContent.toList <:+: f.textContent.toList := by
  induction f with
  | nil => simp [elements] at h
  | text s rest ih =>
    rw [textContent, String.toList_append]
    exact (ih h).trans (List.suffix_append _ _).isInfix
  | comment s rest ih => exact ih h
  | doctype name rest ih => exact ih h
  | element tag attributes children rest ihc ihr =>
    simp only [elements, List.mem_cons, List.mem_append] at h
    rw [textContent, String.toList_append]
    rcases h with rfl | h | h
    · exact (List.prefix_append _ _).isInfix
    · exact (ihc h).trans (List.prefix_append _ _).isInfix
    · exact (ihr h).trans (List.suffix_append _ _).isInfix

/-! ### Tokens and the replacement of a literal -/

section Replacing

variable {find v q : List Char} (hf : find ≠ [])
include hf

section Spared

variable (hfind : BraceFree find) (hno : ¬ find <:+: v) (put : List Char)
include hfind hno

theorem occurs_token_replaceAll {s : String} (hs : occurs (token v) s.toList = true) :
    occurs (token v) (String.ofList (replaceAll find put s.toList)).toList = true := by
  rw [occurs_iff] at hs ⊢
  rw [String.toList_ofList]
  exact token_infix_replaceAll hf hfind hno put hs

theorem text_textsWith_le_replaceAll (s : String) : (textsWith (token v)).text s ≤
    (textsWith (token v)).text (String.ofList (replaceAll find put s.toList)) := by
  simp only [textsWith]
  by_cases hs : occurs (token v) s.toList = true
  · rw [if_pos hs, if_pos (occurs_token_replaceAll hf hfind hno put hs)]
  · simp [hs]

/-- A token stays where it stands if the literal is not inside it. -/
theorem placesOf_le_replaceLiteral (f : Forest) :
    f.tally (placesOf (token v)) ≤ (f.replaceLiteral find put).tally (placesOf (token v)) := by
  rw [tally_replaceLiteral]
  refine tally_mono (text_textsWith_le_replaceAll hf hfind hno put) (fun as => ?_) f
  simp only [placesOf, replaceInValues, List.countP_map]
  exact List.countP_mono_left fun a _ ha => occurs_token_replaceAll hf hfind hno put ha

theorem textsWith_le_replaceLiteral (f : Forest) :
    f.tally (textsWith (token v)) ≤ (f.replaceLiteral find put).tally (textsWith (token v)) := by
  rw [tally_replaceLiteral]
  exact tally_mono (text_textsWith_le_replaceAll hf hfind hno put) (fun _ => Nat.zero_le _) f

end Spared

/-- No token but the one put in is new, and none is left that has the literal inside. -/
theorem placesOf_replaceLiteral_eq_zero (hv : BraceFree v) (hq : BraceFree q) (hne : v ≠ q)
    {f : Forest} (h : f.tally (placesOf (token v)) = 0 ∨ find <:+: v) :
    (f.replaceLiteral find (token q)).tally (placesOf (token v)) = 0 := by
  have hold : ∀ s : String, token v <:+: (String.ofList (replaceAll find (token q) s.toList)).toList →
      token v <:+: s.toList ∧ ¬ find <:+: v := by
    intro s hs
    rw [String.toList_ofList] at hs
    exact (of_token_infix_replaceAll hf hv hq hs).resolve_left hne
  have htext : ∀ s : String, (¬ token v <:+: s.toList ∨ find <:+: v) →
      (placesOf (token v)).text (String.ofList (replaceAll find (token q) s.toList)) = 0 := by
    intro s hs
    refine text_placesOf_eq_zero.mpr fun hnew => ?_
    exact hs.elim (fun hs => hs (hold s hnew).1) fun hin => (hold s hnew).2 hin
  have hvalues : ∀ as : List Attribute, ((∀ a ∈ as, ¬ token v <:+: a.value.toList) ∨ find <:+: v) →
      (placesOf (token v)).attributes (replaceInValues find (token q) as) = 0 := by
    intro as has
    refine attributes_placesOf_eq_zero.mpr fun a ha hnew => ?_
    obtain ⟨b, hb, rfl⟩ := List.mem_map.mp ha
    exact has.elim (fun has => has b hb (hold b.value hnew).1) fun hin => (hold b.value hnew).2 hin
  rw [tally_replaceLiteral]
  rcases h with h | h
  · refine tally_eq_zero ?_ ?_ h
    · exact fun s hs => htext s (.inl (text_placesOf_eq_zero.mp hs))
    · exact fun as has => hvalues as (.inl (attributes_placesOf_eq_zero.mp has))
  · refine tally_eq_zero ?_ ?_ f.tally_none
    · exact fun s _ => htext s (.inr h)
    · exact fun as _ => hvalues as (.inr h)

/-- Where an occurrence is counted, its replacement stands afterwards. -/
theorem placesOf_put_ne_zero (put : List Char) {f : Forest} (h : f.countLiteral find ≠ 0) :
    (f.replaceLiteral find put).tally (placesOf put) ≠ 0 := by
  have hcount : ∀ s : String,
      ¬ put <:+: (String.ofList (replaceAll find put s.toList)).toList →
        countAll find s.toList = 0 := by
    intro s hs
    rw [String.toList_ofList] at hs
    by_contra hne
    exact hs (infix_replaceAll_of_countAll hf put hne)
  have hvalues : ∀ as : List Attribute,
      (∀ a ∈ as, ¬ put <:+: (String.ofList (replaceAll find put a.value.toList)).toList) →
        countInValues find as = 0 := by
    intro as has
    induction as with
    | nil => rfl
    | cons a as ih =>
      have hfirst := hcount a.value (has a List.mem_cons_self)
      have hrest := ih fun b hb => has b (List.mem_cons_of_mem _ hb)
      simp only [countInValues, List.foldr_cons] at hrest ⊢
      rw [hfirst, hrest]
  rw [countLiteral_eq_tally] at h
  rw [tally_replaceLiteral]
  intro hzero
  refine h (tally_eq_zero ?_ ?_ hzero)
  · exact fun s hs => hcount s (text_placesOf_eq_zero.mp hs)
  · intro as has
    have hzero : (placesOf put).attributes (replaceInValues find put as) = 0 := has
    refine hvalues as fun a ha => ?_
    have hno := attributes_placesOf_eq_zero.mp hzero _ (List.mem_map_of_mem ha)
    exact hno

end Replacing

end Forest

end EmailTemplate.Html
