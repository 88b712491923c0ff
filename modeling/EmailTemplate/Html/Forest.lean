/-! Document trees. A forest is a row of sibling nodes, each with what follows it, so that one
induction reaches every node of a document. -/

namespace EmailTemplate.Html

/-- The vocabulary that a tag belongs to. -/
inductive Space
  | html
  | svg
  | mathml
  deriving DecidableEq, Repr

structure Tag where
  space : Space
  name : String
  deriving DecidableEq, Repr

/-- The vocabulary of an attribute: most have none. -/
inductive AttributeSpace
  | plain
  | xlink
  | xml
  | xmlns
  deriving DecidableEq, Repr

/-- An attribute; its name goes without the mark of its vocabulary. -/
structure Attribute where
  space : AttributeSpace
  name : String
  value : String
  deriving DecidableEq, Repr

inductive Forest
  | nil
  | text (content : String) (rest : Forest)
  | comment (content : String) (rest : Forest)
  | doctype (name : String) (rest : Forest)
  | element (tag : Tag) (attributes : List Attribute) (children rest : Forest)
  deriving DecidableEq, Repr, Inhabited

structure Element where
  tag : Tag
  attributes : List Attribute
  children : Forest
  deriving DecidableEq, Repr

namespace Element

/-- The value of the first attribute of a name, whatever its vocabulary. -/
def attribute? (e : Element) (name : String) : Option String :=
  (e.attributes.find? (·.name == name)).map (·.value)

def followedBy (e : Element) (rest : Forest) : Forest :=
  .element e.tag e.attributes e.children rest

end Element

/-- Gives a value to the first attribute of a name. -/
def setAttribute (name value : String) : List Attribute → List Attribute
  | [] => []
  | a :: rest =>
    if a.name = name then { a with value := value } :: rest
    else a :: setAttribute name value rest

namespace Forest

def append : Forest → Forest → Forest
  | nil, f => f
  | text s rest, f => text s (rest.append f)
  | comment s rest, f => comment s (rest.append f)
  | doctype name rest, f => doctype name (rest.append f)
  | element tag attributes children rest, f => element tag attributes children (rest.append f)

/-- The elements of the row itself. -/
def roots : Forest → List Element
  | nil => []
  | text _ rest | comment _ rest | doctype _ rest => rest.roots
  | element tag attributes children rest => ⟨tag, attributes, children⟩ :: rest.roots

/-- All elements in document order. -/
def elements : Forest → List Element
  | nil => []
  | text _ rest | comment _ rest | doctype _ rest => rest.elements
  | element tag attributes children rest =>
    ⟨tag, attributes, children⟩ :: (children.elements ++ rest.elements)

def count : Forest → Nat
  | nil => 0
  | text _ rest | comment _ rest | doctype _ rest => rest.count
  | element _ _ children rest => children.count + rest.count + 1

def textContent : Forest → String
  | nil => ""
  | text s rest => s ++ rest.textContent
  | comment _ rest | doctype _ rest => rest.textContent
  | element _ _ children rest => children.textContent ++ rest.textContent

end Forest

end EmailTemplate.Html
