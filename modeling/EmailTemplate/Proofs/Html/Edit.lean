import EmailTemplate.Adaptation.Stage
import Mathlib.Data.List.Infix

/-! Edits by place. An edit that neither adds nor drops an element leaves the places as they are. -/

namespace EmailTemplate.Html

namespace Forest

theorem count_editAt {edit : Element → Forest → Forest}
    (h : ∀ e rest, (edit e rest).count = e.children.count + rest.count + 1) (f : Forest) (i : Nat) :
    (f.editAt edit i).count = f.count := by
  induction f generalizing i with
  | nil => rfl
  | text s rest ih => simpa [editAt, count] using ih i
  | comment s rest ih => simpa [editAt, count] using ih i
  | doctype name rest ih => simpa [editAt, count] using ih i
  | element tag attributes children rest ihc ihr =>
    cases i with
    | zero => exact h _ _
    | succ i =>
      by_cases hi : i < children.count
      · simp only [editAt, hi, if_true, count, ihc]
      · simp only [editAt, hi, if_false, count, ihr]

/-- Wrapping is one edit. -/
theorem wrap_eq_editAt (f : Forest) (i : Nat) (name : String) :
    f.wrap i name = f.editAt (fun e rest =>
      text (String.ofList (Template.sectionOpener name.toList)) (e.followedBy
        (text (String.ofList (Template.sectionCloser name.toList)) rest))) i := by
  induction f generalizing i with
  | nil => rfl
  | text s rest ih => exact congrArg (text s) (ih i)
  | comment s rest ih => exact congrArg (comment s) (ih i)
  | doctype n rest ih => exact congrArg (doctype n) (ih i)
  | element tag attributes children rest ihc ihr =>
    cases i with
    | zero => rfl
    | succ i =>
      have hcount : (children.insertBefore i
          (text (String.ofList (Template.sectionOpener name.toList)) nil)).count = children.count :=
        count_editAt (fun e rest => by simp [append, Element.followedBy, count]) children i
      by_cases hi : i < children.count
      · have h := ihc i
        simp only [wrap, insertBefore, insertAfter] at h hcount ⊢
        simp only [editAt, hi, if_true, hcount, h]
      · have h := ihr (i - children.count)
        simp only [wrap, insertBefore, insertAfter] at h ⊢
        simp only [editAt, hi, if_false, h]

/-! ### The element at a place -/

/-- The element that an edit at a place is about. -/
def elementAt? : Forest → Nat → Option Element
  | nil, _ => none
  | text _ rest, i | comment _ rest, i | doctype _ rest, i => rest.elementAt? i
  | element tag attributes children _, 0 => some ⟨tag, attributes, children⟩
  | element _ _ children rest, i + 1 =>
    if i < children.count then children.elementAt? i else rest.elementAt? (i - children.count)

section Places

variable {tag : Tag} {attributes : List Attribute} {children rest : Forest} {i : Nat}

theorem elementAt?_inner (hi : i < children.count) :
    (element tag attributes children rest).elementAt? (i + 1) = children.elementAt? i := if_pos hi

theorem elementAt?_later : (element tag attributes children rest).elementAt?
    (children.count + i + 1) = rest.elementAt? i := by
  rw [elementAt?, if_neg (by omega), Nat.add_sub_cancel_left]

theorem editAt_inner {edit : Element → Forest → Forest} (hi : i < children.count) :
    (element tag attributes children rest).editAt edit (i + 1) =
      element tag attributes (children.editAt edit i) rest := if_pos hi

theorem editAt_later {edit : Element → Forest → Forest} :
    (element tag attributes children rest).editAt edit (children.count + i + 1) =
      element tag attributes children (rest.editAt edit i) := by
  rw [editAt, if_neg (by omega), Nat.add_sub_cancel_left]

theorem updateAt_inner {change : Element → Element} (hi : i < children.count) :
    (element tag attributes children rest).updateAt (i + 1) change =
      element tag attributes (children.updateAt i change) rest := editAt_inner hi

theorem updateAt_later {change : Element → Element} :
    (element tag attributes children rest).updateAt (children.count + i + 1) change =
      element tag attributes children (rest.updateAt i change) := editAt_later

end Places

/-- The way to the element at a place: an element before it is passed, or entered. -/
@[elab_as_elim]
theorem elementAt?_induction {e : Element} {motive : ∀ f i, elementAt? f i = some e → Prop}
    (text : ∀ s rest i h, motive rest i h → motive (text s rest) i h)
    (comment : ∀ s rest i h, motive rest i h → motive (comment s rest) i h)
    (doctype : ∀ name rest i h, motive rest i h → motive (doctype name rest) i h)
    (here : ∀ rest, motive (element e.tag e.attributes e.children rest) 0 rfl)
    (inner : ∀ tag attributes children rest i (hi : i < children.count) h, motive children i h →
      motive (element tag attributes children rest) (i + 1) ((elementAt?_inner hi).trans h))
    (later : ∀ tag attributes children rest i h, motive rest i h →
      motive (element tag attributes children rest) (children.count + i + 1)
        (elementAt?_later.trans h))
    (f : Forest) (i : Nat) (h : f.elementAt? i = some e) : motive f i h := by
  induction f generalizing i with
  | nil => cases h
  | text s rest ih => exact text s rest i h (ih i h)
  | comment s rest ih => exact comment s rest i h (ih i h)
  | doctype name rest ih => exact doctype name rest i h (ih i h)
  | element tag attributes children rest ihc ihr =>
    cases i with
    | zero =>
      obtain rfl : (⟨tag, attributes, children⟩ : Element) = e := Option.some.inj h
      exact here rest
    | succ i =>
      by_cases hi : i < children.count
      · have hinner : children.elementAt? i = some e := by rwa [elementAt?_inner hi] at h
        exact inner tag attributes children rest i hi hinner (ihc i hinner)
      · obtain ⟨j, rfl⟩ := Nat.exists_eq_add_of_le (Nat.le_of_not_lt hi)
        have hlater : rest.elementAt? j = some e := by rwa [elementAt?_later] at h
        exact later tag attributes children rest j hlater (ihr j hlater)

@[simp]
theorem length_visitsFrom (f : Forest) (index : Nat) (around : List (Nat × Element)) :
    (f.visitsFrom index around).length = f.count := by
  induction f generalizing index around with
  | nil => rfl
  | text s rest ih => exact ih index around
  | comment s rest ih => exact ih index around
  | doctype name rest ih => exact ih index around
  | element tag attributes children rest ihc ihr => simp [visitsFrom, count, ihc, ihr]

theorem getElem?_visitsFrom (f : Forest) (index : Nat) (around : List (Nat × Element)) (i : Nat) :
    ((f.visitsFrom index around)[i]?).map (fun v => (v.index, v.element)) =
      (f.elementAt? i).map fun e => (index + i, e) := by
  induction f generalizing index around i with
  | nil => simp [visitsFrom, elementAt?]
  | text s rest ih => exact ih index around i
  | comment s rest ih => exact ih index around i
  | doctype name rest ih => exact ih index around i
  | element tag attributes children rest ihc ihr =>
    cases i with
    | zero => simp [visitsFrom, elementAt?]
    | succ i =>
      rw [visitsFrom, List.getElem?_cons_succ, List.getElem?_append, length_visitsFrom, elementAt?]
      split
      · rw [ihc, show index + (i + 1) = index + 1 + i by omega]
      · rw [ihr, show index + 1 + children.count + (i - children.count) = index + (i + 1) by omega]

theorem elementAt?_of_visits {f : Forest} {i : Nat} {v : Visit} (h : f.visits[i]? = some v) :
    v.index = i ∧ f.elementAt? i = some v.element := by
  have hi := getElem?_visitsFrom f 0 [] i
  rw [show f.visitsFrom 0 [] = f.visits from rfl, h, Option.map_some, eq_comm,
    Option.map_eq_some_iff] at hi
  obtain ⟨e, he, heq⟩ := hi
  obtain ⟨hindex, rfl⟩ := Prod.mk.inj heq
  exact ⟨by omega, he⟩

theorem elementAt?_of_mem_visits {f : Forest} {v : Visit} (h : v ∈ f.visits) :
    f.elementAt? v.index = some v.element := by
  obtain ⟨i, hi⟩ := List.mem_iff_getElem?.mp h
  obtain ⟨rfl, he⟩ := elementAt?_of_visits hi
  exact he

theorem exists_visit {f : Forest} {i : Nat} {e : Element} (h : f.elementAt? i = some e) :
    ∃ v, f.visits[i]? = some v ∧ v.element = e := by
  have hi := getElem?_visitsFrom f 0 [] i
  rw [h, Option.map_some, Option.map_eq_some_iff] at hi
  obtain ⟨v, hv, heq⟩ := hi
  exact ⟨v, hv, (Prod.mk.inj heq).2⟩

theorem elementAt?_lt {f : Forest} {i : Nat} {e : Element} (h : f.elementAt? i = some e) :
    i < f.count := by
  obtain ⟨v, hv, -⟩ := exists_visit h
  rw [← length_visitsFrom f 0 []]
  exact (List.getElem?_eq_some_iff.mp hv).1

theorem mem_elements_of_elementAt? {f : Forest} {i : Nat} {e : Element}
    (h : f.elementAt? i = some e) : e ∈ f.elements := by
  induction f, i, h using elementAt?_induction with
  | text s rest i _ ih => exact ih
  | comment s rest i _ ih => exact ih
  | doctype name rest i _ ih => exact ih
  | here rest => exact List.mem_cons_self
  | inner tag attributes children rest i _ _ ih =>
    exact List.mem_cons_of_mem _ (List.mem_append_left _ ih)
  | later tag attributes children rest i _ ih =>
    exact List.mem_cons_of_mem _ (List.mem_append_right _ ih)

theorem exists_elementAt? {f : Forest} {i : Nat} (h : i < f.count) : ∃ e, f.elementAt? i = some e := by
  have hlength : i < f.visits.length := by rwa [visits, length_visitsFrom]
  exact ⟨_, (elementAt?_of_visits (List.getElem?_eq_getElem hlength)).2⟩

theorem elementAt?_of_mem_rootVisitsFrom {f : Forest} {index : Nat} {around : List (Nat × Element)}
    {v : Visit} (h : v ∈ f.rootVisitsFrom index around) :
    ∃ j, v.index = index + j ∧ f.elementAt? j = some v.element := by
  induction f generalizing index with
  | nil => simp [rootVisitsFrom] at h
  | text s rest ih => exact ih h
  | comment s rest ih => exact ih h
  | doctype name rest ih => exact ih h
  | element tag attributes children rest _ ih =>
    rcases List.mem_cons.mp h with rfl | h
    · exact ⟨0, rfl, rfl⟩
    · obtain ⟨j, hj, he⟩ := ih h
      exact ⟨children.count + j + 1, by omega, elementAt?_later.trans he⟩

/-- The elements inside one have the places after it. -/
theorem elementAt?_inside {f : Forest} {i j : Nat} {e inner : Element}
    (he : f.elementAt? i = some e) (hinner : e.children.elementAt? j = some inner) :
    f.elementAt? (i + 1 + j) = some inner := by
  induction f, i, he using elementAt?_induction with
  | text s rest i _ ih => exact ih
  | comment s rest i _ ih => exact ih
  | doctype name rest i _ ih => exact ih
  | here rest =>
    rw [Nat.zero_add, Nat.add_comm, elementAt?_inner (elementAt?_lt hinner), hinner]
  | inner tag attributes children rest i _ _ ih =>
    rw [Nat.add_right_comm, elementAt?_inner (elementAt?_lt ih), ih]
  | later tag attributes children rest i _ ih =>
    rw [show children.count + i + 1 + 1 + j = children.count + (i + 1 + j) + 1 by omega,
      elementAt?_later, ih]

theorem elementAt?_updateAt {f : Forest} {i : Nat} {e : Element} (change : Element → Element)
    (h : f.elementAt? i = some e) : (f.updateAt i change).elementAt? i = some (change e) := by
  induction f, i, h using elementAt?_induction with
  | text s rest i _ ih => exact ih
  | comment s rest i _ ih => exact ih
  | doctype name rest i _ ih => exact ih
  | here rest => rfl
  | inner tag attributes children rest i hi _ ih =>
    rw [updateAt_inner hi, elementAt?_inner (elementAt?_lt ih), ih]
  | later tag attributes children rest i _ ih =>
    rw [updateAt_later, elementAt?_later, ih]

theorem updateAt_eq_self {f : Forest} {i : Nat} {e : Element} {change : Element → Element}
    (he : f.elementAt? i = some e) (h : change e = e) : f.updateAt i change = f := by
  induction f, i, he using elementAt?_induction with
  | text s rest i _ ih => exact congrArg (text s) ih
  | comment s rest i _ ih => exact congrArg (comment s) ih
  | doctype name rest i _ ih => exact congrArg (doctype name) ih
  | here rest => exact congrArg (Element.followedBy · rest) h
  | inner tag attributes children rest i hi _ ih =>
    rw [updateAt_inner hi, ih]
  | later tag attributes children rest i _ ih =>
    rw [updateAt_later, ih]

/-- A change inside an element is a change of its content. -/
theorem updateAt_inside {f : Forest} {i j : Nat} {e : Element} (change : Element → Element)
    (he : f.elementAt? i = some e) (hj : j < e.children.count) :
    f.updateAt (i + 1 + j) change =
      f.updateAt i fun e => { e with children := e.children.updateAt j change } := by
  induction f, i, he using elementAt?_induction with
  | text s rest i _ ih => exact congrArg (text s) ih
  | comment s rest i _ ih => exact congrArg (comment s) ih
  | doctype name rest i _ ih => exact congrArg (doctype name) ih
  | here rest =>
    rw [Nat.zero_add, Nat.add_comm, updateAt_inner hj]
    rfl
  | inner tag attributes children rest i hi h ih =>
    obtain ⟨inner, hinner⟩ := exists_elementAt? hj
    have hlt : i + 1 + j < children.count := elementAt?_lt (elementAt?_inside h hinner)
    rw [Nat.add_right_comm, updateAt_inner hlt, updateAt_inner hi, ih]
  | later tag attributes children rest i _ ih =>
    rw [show children.count + i + 1 + 1 + j = children.count + (i + 1 + j) + 1 by omega,
      updateAt_later, updateAt_later, ih]

end Forest

end EmailTemplate.Html
