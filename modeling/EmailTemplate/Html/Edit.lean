import EmailTemplate.Html.Parse
import EmailTemplate.Html.Printer
import EmailTemplate.Text.Find

/-! Finding elements of a document and changing it. An element is named by its place in document
order, counted from zero, which inserting text does not change. -/

namespace EmailTemplate.Html

open Text

/-- An element with its place and the elements around it, the innermost first. -/
structure Visit where
  index : Nat
  element : Element
  around : List (Nat × Element)
  deriving Repr

def Element.isTag (e : Element) (name : String) : Bool :=
  eqIgnoreAsciiCase e.tag.name.toList name.toList

def Visit.isInside (v : Visit) (wanted : Element → Bool) : Bool := v.around.any fun a => wanted a.2

/-- The text inside an element, comments left out. -/
def Element.textContent (e : Element) : String := e.children.textContent

def replaceInValues (find put : List Char) (attributes : List Attribute) : List Attribute :=
  attributes.map fun a =>
    { a with value := String.ofList (replaceAll find put a.value.toList) }

def countInValues (find : List Char) (attributes : List Attribute) : Nat :=
  attributes.foldr (fun a n => countAll find a.value.toList + n) 0

namespace Forest

/-- All elements in document order, with what is around them; the first has the given place. -/
def visitsFrom (index : Nat) (around : List (Nat × Element)) : Forest → List Visit
  | nil => []
  | text _ rest | comment _ rest | doctype _ rest => rest.visitsFrom index around
  | element tag attributes children rest =>
    let e : Element := ⟨tag, attributes, children⟩
    ⟨index, e, around⟩ :: (children.visitsFrom (index + 1) ((index, e) :: around) ++
      rest.visitsFrom (index + 1 + children.count) around)

def visits (f : Forest) : List Visit := f.visitsFrom 0 []

/-- The elements of the row itself, as `visitsFrom` has them. -/
def rootVisitsFrom (index : Nat) (around : List (Nat × Element)) : Forest → List Visit
  | nil => []
  | text _ rest | comment _ rest | doctype _ rest => rest.rootVisitsFrom index around
  | element tag attributes children rest =>
    ⟨index, ⟨tag, attributes, children⟩, around⟩ ::
      rest.rootVisitsFrom (index + 1 + children.count) around

/-- Puts something else for the element at a place and the row after it. -/
def editAt (edit : Element → Forest → Forest) : Nat → Forest → Forest
  | _, nil => nil
  | i, text s rest => text s (rest.editAt edit i)
  | i, comment s rest => comment s (rest.editAt edit i)
  | i, doctype name rest => doctype name (rest.editAt edit i)
  | 0, element tag attributes children rest => edit ⟨tag, attributes, children⟩ rest
  | i + 1, element tag attributes children rest =>
    if i < children.count then element tag attributes (children.editAt edit i) rest
    else element tag attributes children (rest.editAt edit (i - children.count))

def updateAt (f : Forest) (i : Nat) (change : Element → Element) : Forest :=
  f.editAt (fun e rest => (change e).followedBy rest) i

def setText (f : Forest) (i : Nat) (s : String) : Forest :=
  f.updateAt i fun e => { e with children := text s nil }

def setAttributeAt (f : Forest) (i : Nat) (name value : String) : Forest :=
  f.updateAt i fun e => { e with attributes := setAttribute name value e.attributes }

def remove (f : Forest) (i : Nat) : Forest := f.editAt (fun _ rest => rest) i

def insertBefore (f : Forest) (i : Nat) (new : Forest) : Forest :=
  f.editAt (fun e rest => new.append (e.followedBy rest)) i

def insertAfter (f : Forest) (i : Nat) (new : Forest) : Forest :=
  f.editAt (fun e rest => e.followedBy (new.append rest)) i

def prepend (f : Forest) (i : Nat) (new : Forest) : Forest :=
  f.updateAt i fun e => { e with children := new.append e.children }

def stripComments : Forest → Forest
  | nil => nil
  | text s rest => text s rest.stripComments
  | comment _ rest => rest.stripComments
  | doctype name rest => doctype name rest.stripComments
  | element tag attributes children rest =>
    element tag attributes children.stripComments rest.stripComments

def replaceLiteral (find put : List Char) : Forest → Forest
  | nil => nil
  | text s rest =>
    text (String.ofList (replaceAll find put s.toList)) (rest.replaceLiteral find put)
  | comment s rest => comment s (rest.replaceLiteral find put)
  | doctype name rest => doctype name (rest.replaceLiteral find put)
  | element tag attributes children rest =>
    element tag (replaceInValues find put attributes) (children.replaceLiteral find put)
      (rest.replaceLiteral find put)

/-- How many occurrences `replaceLiteral` replaces. -/
def countLiteral (find : List Char) : Forest → Nat
  | nil => 0
  | text s rest => countAll find s.toList + rest.countLiteral find
  | comment _ rest | doctype _ rest => rest.countLiteral find
  | element _ attributes children rest =>
    countInValues find attributes + children.countLiteral find + rest.countLiteral find

def body? (f : Forest) : Option Visit := f.visits.find? (·.element.isTag "body")

end Forest

/-- The elements right inside one. -/
def Visit.children (v : Visit) : List Visit :=
  v.element.children.rootVisitsFrom (v.index + 1) ((v.index, v.element) :: v.around)

/-- The first element that a piece of markup puts into a body. -/
def Element.ofHtml? (html : String) : Option Element :=
  (parse html).body?.bind fun v => v.element.children.roots.head?

end EmailTemplate.Html
