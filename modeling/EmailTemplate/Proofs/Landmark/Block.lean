import EmailTemplate.Landmark.Block
import EmailTemplate.Proofs.Html.Visits
import EmailTemplate.Proofs.Text.Splitting

/-! Which element is taken for a named block. Of the five patterns the last two decide nothing: a name
that is a whole word of a class or a whole identifier is also a part of it, so an earlier pattern has
found an element already. -/

namespace EmailTemplate

open Html Text

namespace Html.Element

section Marks

variable (name : String) (e : Element)

def ClassHas : Prop := ∃ c, e.attribute? "class" = some c ∧ name.toList <:+: c.toList

def IdHas : Prop := ∃ c, e.attribute? "id" = some c ∧ name.toList <:+: c.toList

def DataIs : Prop := e.attribute? "data-block" = some name

/-- An element that can be the block of a name. -/
def Marked : Prop := e.ClassHas name ∨ e.IdHas name ∨ e.DataIs name

end Marks

end Html.Element

namespace Landmark

variable {name : String} {e : Element}

namespace BlockPattern

theorem fits_classContains_iff : fits name e classContains = true ↔ e.ClassHas name := by
  simp only [fits, Element.classContains, Option.any_eq_true, occurs_iff, Element.ClassHas]

theorem fits_idContains_iff : fits name e idContains = true ↔ e.IdHas name := by
  simp only [fits, Option.any_eq_true, occurs_iff, Element.IdHas]

theorem fits_dataBlock_iff : fits name e dataBlock = true ↔ e.DataIs name := by
  simp only [fits, beq_iff_eq, Element.DataIs]

theorem classHas_of_className (h : fits name e className = true) : e.ClassHas name := by
  simp only [fits, Option.any_eq_true, List.contains_iff_mem] at h
  obtain ⟨c, hc, hword⟩ := h
  exact ⟨c, hc, infix_of_mem_words hword⟩

theorem idHas_of_id (h : fits name e id = true) : e.IdHas name :=
  ⟨name, beq_iff_eq.mp h, List.infix_refl _⟩

variable {visits : List Visit}

/-- Where no class has the name in it, none has it as a word. -/
theorem find?_className_eq_none (h : ∀ w ∈ visits, ¬ w.element.ClassHas name) :
    (visits.find? fun v => fits name v.element className) = none :=
  List.find?_eq_none.mpr fun w hw hfits => h w hw (classHas_of_className hfits)

theorem find?_id_eq_none (h : ∀ w ∈ visits, ¬ w.element.IdHas name) :
    (visits.find? fun v => fits name v.element id) = none :=
  List.find?_eq_none.mpr fun w hw hfits => h w hw (idHas_of_id hfits)

end BlockPattern

instance (name : String) (e : Element) : Decidable (e.Marked name) :=
  decidable_of_iff (BlockPattern.fits name e .classContains = true ∨
    BlockPattern.fits name e .idContains = true ∨ BlockPattern.fits name e .dataBlock = true)
    (or_congr BlockPattern.fits_classContains_iff
      (or_congr BlockPattern.fits_idContains_iff BlockPattern.fits_dataBlock_iff))

/-- The block of a name: the first element with the name in its class; if there is none, the first with
the name in its identifier; if there is none either, the first with the name as its data attribute. -/
inductive Located (doc : Forest) (name : String) : Block → Prop
  | byClass {v : Visit} (hfirst : doc.First (fun w => w.element.ClassHas name) v) :
      Located doc name ⟨name, v, .classContains⟩
  | byId {v : Visit} (hclass : ∀ w ∈ doc.visits, ¬ w.element.ClassHas name)
      (hfirst : doc.First (fun w => w.element.IdHas name) v) :
      Located doc name ⟨name, v, .idContains⟩
  | byData {v : Visit} (hclass : ∀ w ∈ doc.visits, ¬ w.element.ClassHas name)
      (hid : ∀ w ∈ doc.visits, ¬ w.element.IdHas name)
      (hfirst : doc.First (fun w => w.element.DataIs name) v) :
      Located doc name ⟨name, v, .dataBlock⟩

theorem Located.marked {doc : Forest} {b : Block} (h : Located doc name b) :
    b.visit ∈ doc.visits ∧ b.visit.element.Marked name := by
  cases h with
  | byClass hfirst => exact ⟨hfirst.mem, .inl hfirst.holds⟩
  | byId _ hfirst => exact ⟨hfirst.mem, .inr (.inl hfirst.holds)⟩
  | byData _ _ hfirst => exact ⟨hfirst.mem, .inr (.inr hfirst.holds)⟩

theorem Located.pattern_ne {doc : Forest} {b : Block} (h : Located doc name b) :
    b.pattern ≠ .className ∧ b.pattern ≠ .id := by
  cases h <;> exact ⟨by simp, by simp⟩

/-- Either a block of the name is found where it should be, or no element is marked with the name. -/
theorem block?_visits (doc : Forest) (name : String) :
    (∃ b, block? doc.visits name = some b ∧ Located doc name b) ∨
      block? doc.visits name = none ∧ ∀ v ∈ doc.visits, ¬ v.element.Marked name := by
  rw [block?, BlockPattern.all]
  cases hclass : doc.visits.find? fun v => BlockPattern.fits name v.element .classContains with
  | some v =>
    refine .inl ⟨_, by rw [List.findSome?_cons, hclass]; rfl, .byClass ?_⟩
    exact .of_find? (fun _ => BlockPattern.fits_classContains_iff) hclass
  | none =>
    have hnoclass : ∀ w ∈ doc.visits, ¬ w.element.ClassHas name :=
      Forest.not_of_find?_eq_none (fun _ => BlockPattern.fits_classContains_iff) hclass
    rw [List.findSome?_cons, hclass]
    cases hid : doc.visits.find? fun v => BlockPattern.fits name v.element .idContains with
    | some v =>
      refine .inl ⟨_, by rw [List.findSome?_cons, hid]; rfl, .byId hnoclass ?_⟩
      exact .of_find? (fun _ => BlockPattern.fits_idContains_iff) hid
    | none =>
      have hnoid : ∀ w ∈ doc.visits, ¬ w.element.IdHas name :=
        Forest.not_of_find?_eq_none (fun _ => BlockPattern.fits_idContains_iff) hid
      rw [List.findSome?_cons, hid]
      cases hdata : doc.visits.find? fun v => BlockPattern.fits name v.element .dataBlock with
      | some v =>
        refine .inl ⟨_, by rw [List.findSome?_cons, hdata]; rfl, .byData hnoclass hnoid ?_⟩
        exact .of_find? (fun _ => BlockPattern.fits_dataBlock_iff) hdata
      | none =>
        have hnodata : ∀ w ∈ doc.visits, ¬ w.element.DataIs name :=
          Forest.not_of_find?_eq_none (fun _ => BlockPattern.fits_dataBlock_iff) hdata
        refine .inr ⟨?_, fun w hw h => ?_⟩
        · -- What fits one of the last two patterns would have fitted one of the first two.
          simp [hdata, BlockPattern.find?_className_eq_none hnoclass,
            BlockPattern.find?_id_eq_none hnoid]
        · rcases h with h | h | h
          · exact hnoclass w hw h
          · exact hnoid w hw h
          · exact hnodata w hw h

theorem located_of_block? {doc : Forest} {b : Block} (h : block? doc.visits name = some b) :
    Located doc name b := by
  rcases block?_visits doc name with ⟨b', hb', hlocated⟩ | ⟨hnone, -⟩
  · rw [h] at hb'
    exact Option.some.inj hb' ▸ hlocated
  · simp [h] at hnone

/-- The names that have a marked element, and only these, have a block each, in their order. It is found
by a part of the class or of the identifier or by the data attribute, never by the other patterns. -/
theorem blocks_located (doc : Forest) (names : List String) :
    List.Forall₂ (Located doc)
        (names.filter fun name => ∃ v ∈ doc.visits, v.element.Marked name) (blocks doc names) ∧
      ∀ b ∈ blocks doc names, b.pattern ≠ .className ∧ b.pattern ≠ .id := by
  have hlocated : List.Forall₂ (Located doc)
      (names.filter fun name => ∃ v ∈ doc.visits, v.element.Marked name) (blocks doc names) := by
    induction names with
    | nil => exact .nil
    | cons name names ih =>
      rw [blocks] at ih ⊢
      rcases block?_visits doc name with ⟨b, hb, hlocated⟩ | ⟨hnone, hunmarked⟩
      · rw [List.filter_cons_of_pos (by simpa using ⟨b.visit, hlocated.marked⟩),
          List.filterMap_cons_some hb]
        exact .cons hlocated ih
      · rw [List.filter_cons_of_neg (by simpa using hunmarked), List.filterMap_cons_none hnone]
        exact ih
  refine ⟨hlocated, fun b hb => ?_⟩
  obtain ⟨name, -, hfound⟩ := List.mem_filterMap.mp hb
  exact (located_of_block? hfound).pattern_ne

/-- A whole word of a class behind an identifier: the class decides, and as a part of it. -/
example : (blocks (parse "<p id=hero>a<p class='x hero'>b") ["hero", "agenda"]).map
    (fun b => (b.name, b.visit.index, b.pattern)) = [("hero", 4, .classContains)] := by
  decide +kernel

end Landmark

end EmailTemplate
