import EmailTemplate.Html.Edit
import EmailTemplate.Proofs.Text.Replace

/-! Rewriting texts and attribute values one by one, as the replacement of a literal does. The nodes stay
as they are, so that each text and each element can be told from its place. -/

namespace EmailTemplate.Html

open Text

def Attribute.rewrite (g : List Char → List Char) (a : Attribute) : Attribute :=
  { a with value := String.ofList (g a.value.toList) }

namespace Forest

def textNodes : Forest → List String
  | nil => []
  | text s rest => s :: rest.textNodes
  | comment _ rest | doctype _ rest => rest.textNodes
  | element _ _ children rest => children.textNodes ++ rest.textNodes

def rewrite (g : List Char → List Char) : Forest → Forest
  | nil => nil
  | text s rest => text (String.ofList (g s.toList)) (rest.rewrite g)
  | comment s rest => comment s (rest.rewrite g)
  | doctype name rest => doctype name (rest.rewrite g)
  | element tag attributes children rest =>
    element tag (attributes.map (·.rewrite g)) (children.rewrite g) (rest.rewrite g)

end Forest

def Element.rewrite (g : List Char → List Char) (e : Element) : Element :=
  ⟨e.tag, e.attributes.map (·.rewrite g), e.children.rewrite g⟩

theorem Attribute.rewrite_rewrite (g g' : List Char → List Char) (a : Attribute) :
    (a.rewrite g).rewrite g' = a.rewrite (g' ∘ g) := by
  simp [rewrite]

@[simp]
theorem Attribute.rewrite_id (a : Attribute) : a.rewrite id = a := by
  simp [rewrite]

namespace Forest

theorem rewrite_rewrite (g g' : List Char → List Char) (f : Forest) :
    (f.rewrite g).rewrite g' = f.rewrite (g' ∘ g) := by
  induction f with
  | nil => rfl
  | text s rest ih => simp [rewrite, ih]
  | comment s rest ih => simp [rewrite, ih]
  | doctype name rest ih => simp [rewrite, ih]
  | element tag attributes children rest ihc ihr =>
    simp [rewrite, ihc, ihr, Attribute.rewrite_rewrite]

@[simp]
theorem rewrite_id (f : Forest) : f.rewrite id = f := by
  induction f with
  | nil => rfl
  | text s rest ih => simp [rewrite, ih]
  | comment s rest ih => simp [rewrite, ih]
  | doctype name rest ih => simp [rewrite, ih]
  | element tag attributes children rest ihc ihr => simp [rewrite, ihc, ihr]

theorem textNodes_rewrite (g : List Char → List Char) (f : Forest) :
    (f.rewrite g).textNodes = f.textNodes.map fun s => String.ofList (g s.toList) := by
  induction f with
  | nil => rfl
  | text s rest ih => simp [rewrite, textNodes, ih]
  | comment s rest ih => simpa [rewrite, textNodes] using ih
  | doctype name rest ih => simpa [rewrite, textNodes] using ih
  | element tag attributes children rest ihc ihr => simp [rewrite, textNodes, ihc, ihr]

theorem elements_rewrite (g : List Char → List Char) (f : Forest) :
    (f.rewrite g).elements = f.elements.map (·.rewrite g) := by
  induction f with
  | nil => rfl
  | text s rest ih => exact ih
  | comment s rest ih => exact ih
  | doctype name rest ih => exact ih
  | element tag attributes children rest ihc ihr => simp [rewrite, elements, ihc, ihr, Element.rewrite]

end Forest

theorem Element.attribute?_rewrite (g : List Char → List Char) (e : Element) (name : String) :
    (e.rewrite g).attribute? name =
      (e.attribute? name).map fun value => String.ofList (g value.toList) := by
  rw [attribute?, attribute?, rewrite, List.find?_map, Option.map_map, Option.map_map]
  rfl

/-! ### Replacement of a literal -/

namespace Forest

variable {find put : List Char}

theorem replaceLiteral_eq_rewrite (find put : List Char) (f : Forest) :
    f.replaceLiteral find put = f.rewrite (replaceAll find put) := by
  induction f with
  | nil => rfl
  | text s rest ih => rw [replaceLiteral, rewrite, ih]
  | comment s rest ih => rw [replaceLiteral, rewrite, ih]
  | doctype name rest ih => rw [replaceLiteral, rewrite, ih]
  | element tag attributes children rest ihc ihr =>
    rw [replaceLiteral, rewrite, ihc, ihr]
    rfl

theorem replaceInValues_of_countInValues (hf : find ≠ []) {attributes : List Attribute}
    (h : countInValues find attributes = 0) : replaceInValues find put attributes = attributes := by
  induction attributes with
  | nil => rfl
  | cons a attributes ih =>
    obtain ⟨hvalue, hrest⟩ := Nat.add_eq_zero_iff.mp h
    have hsame : replaceAll find put a.value.toList = a.value.toList :=
      (replaceAll_eq_self_iff hf).mpr (.inr hvalue)
    rw [replaceInValues, List.map_cons, hsame, String.ofList_toList]
    exact congrArg (a :: ·) (ih hrest)

/-- Where no occurrence is counted, none is replaced. -/
theorem replaceLiteral_of_countLiteral (hf : find ≠ []) {f : Forest} (h : f.countLiteral find = 0) :
    f.replaceLiteral find put = f := by
  induction f with
  | nil => rfl
  | text s rest ih =>
    obtain ⟨hs, hrest⟩ := Nat.add_eq_zero_iff.mp h
    rw [replaceLiteral, (replaceAll_eq_self_iff hf).mpr (.inr hs), String.ofList_toList, ih hrest]
  | comment s rest ih => exact congrArg (comment s) (ih h)
  | doctype name rest ih => exact congrArg (doctype name) (ih h)
  | element tag attributes children rest ihc ihr =>
    obtain ⟨h, hrest⟩ := Nat.add_eq_zero_iff.mp h
    obtain ⟨hvalues, hchildren⟩ := Nat.add_eq_zero_iff.mp h
    rw [replaceLiteral, replaceInValues_of_countInValues hf hvalues, ihc hchildren, ihr hrest]

end Forest

end EmailTemplate.Html
