import EmailTemplate.PlainText.Derive

/-! Markup as a forest of elements, how it is written, and the text that is read off it. -/

namespace EmailTemplate.PlainText

open Text

/-! ### Attributes -/

/-- The attributes whose values are shown. -/
def shownNames : List (List Char) := [['a', 'l', 't'], ['h', 'r', 'e', 'f']]

/-- An attribute whose value does not look like a tag, nor has a shown name after a blank. -/
structure Attribute where
  name : List Char
  value : List Char
  name_ne_nil : name ≠ []
  name_lower : ∀ c ∈ name, isAsciiLower c = true
  value_plain : ∀ c ∈ value, c ≠ '<' ∧ c ≠ '>' ∧ c ≠ '\r'
  value_clear : ∀ key ∈ shownNames, ∀ u b w, value = u ++ b :: w → isBlank b = true →
    ¬ key <+: w.map asciiLower

def value? (key : List Char) (attributes : List Attribute) : Option (List Char) :=
  (attributes.find? (·.name == key)).map (·.value)

/-! ### Elements -/

def isNameChar (c : Char) : Bool := isAsciiLower c || isAsciiDigit c

def IsName (name : List Char) : Prop := name ≠ [] ∧ ∀ c ∈ name, isNameChar c = true

instance (name : List Char) : Decidable (IsName name) :=
  have : Decidable (∀ c ∈ name, isNameChar c = true) := List.decidableBAll _ name
  inferInstanceAs (Decidable (name ≠ [] ∧ ∀ c ∈ name, isNameChar c = true))

/-- The names of elements with a treatment of their own. -/
def ownNames : List (List Char) := ['b', 'r'] :: ['i', 'm', 'g'] :: ['a'] :: hiddenElements

/-- The name of any other element. -/
structure ElementName where
  chars : List Char
  isName : IsName chars
  ordinary : chars ∉ ownNames

structure Run where
  chars : List Char
  plain : '\r' ∉ chars

structure Comment where
  content : List Char
  plain : '<' ∉ content ∧ '>' ∉ content

/-- An element that is not shown. -/
structure Hidden where
  name : List Char
  attributes : List Attribute
  content : List Char
  name_mem : name ∈ hiddenElements
  plain : '<' ∉ content

inductive Leaf
  | text (run : Run)
  | comment (comment : Comment)
  | hidden (element : Hidden)
  | lineBreak
  | image (attributes : List Attribute)

/-- A forest of ordinary elements over leaves of some kind. -/
inductive Fragment (α : Type)
  | nil
  | leaf (leaf : α) (rest : Fragment α)
  | element (name : ElementName) (attributes : List Attribute) (children rest : Fragment α)

/-- What may stand outside links. A link has none of these inside, hence no other link. -/
inductive Item
  | leaf (leaf : Leaf)
  | link (attributes : List Attribute) (body : Fragment Leaf)

/-! ### Forests, part by part -/

/-- What is put for each part of a forest. -/
structure Look (α : Type) where
  leaf : α → List Char
  opening : ElementName → List Attribute → List Char
  closing : ElementName → List Char

def Look.withLinks (look : Look Leaf) (link : List Attribute → Fragment Leaf → List Char) :
    Look Item where
  leaf
    | .leaf l => look.leaf l
    | .link attributes body => link attributes body
  opening := look.opening
  closing := look.closing

def Fragment.write {α : Type} (look : Look α) : Fragment α → List Char
  | nil => []
  | leaf l rest => look.leaf l ++ rest.write look
  | element name attributes children rest =>
    look.opening name attributes ++ children.write look ++ look.closing name ++ rest.write look

/-- A relation that holds for texts part by part. -/
structure Additive (R : List Char → List Char → Prop) : Prop where
  nil : R [] []
  append : ∀ {u v u' v'}, R u v → R u' v' → R (u ++ u') (v ++ v')

/-- A relation between what two looks put. -/
structure Look.Related {α : Type} (R : List Char → List Char → Prop) (look look' : Look α) :
    Prop where
  leaf : ∀ l, R (look.leaf l) (look'.leaf l)
  opening : ∀ name attributes, R (look.opening name attributes) (look'.opening name attributes)
  closing : ∀ name, R (look.closing name) (look'.closing name)

theorem Look.Related.withLinks {R : List Char → List Char → Prop} {look look' : Look Leaf}
    {link link' : List Attribute → Fragment Leaf → List Char} (h : Related R look look')
    (hlink : ∀ attributes body, R (link attributes body) (link' attributes body)) :
    Related R (look.withLinks link) (look'.withLinks link') where
  leaf
    | .leaf l => h.leaf l
    | .link attributes body => hlink attributes body
  opening := h.opening
  closing := h.closing

theorem Fragment.write_related {α : Type} {R : List Char → List Char → Prop} {look look' : Look α}
    (hR : Additive R) (h : Look.Related R look look') (f : Fragment α) :
    R (f.write look) (f.write look') := by
  induction f with
  | nil => exact hR.nil
  | leaf l rest ih => exact hR.append (h.leaf l) ih
  | element name attributes children rest hchildren hrest =>
    have hinside := hR.append (h.opening name attributes) hchildren
    exact hR.append (hR.append hinside (h.closing name)) hrest

/-! ### Markup -/

/-- Characters and the names that are written for them. -/
def textMarks : List (Char × List Char) :=
  [('&', ['a', 'm', 'p']), ('<', ['l', 't']), ('>', ['g', 't'])]

def valueMarks : List (Char × List Char) := [('&', ['a', 'm', 'p']), ('"', ['q', 'u', 'o', 't'])]

def escapeChar (marks : List (Char × List Char)) (c : Char) : List Char :=
  match marks.lookup c with
  | some name => '&' :: name ++ [';']
  | none => [c]

def escape (marks : List (Char × List Char)) (s : List Char) : List Char :=
  s.flatMap (escapeChar marks)

def Attribute.markup (a : Attribute) : List Char :=
  ' ' :: a.name ++ '=' :: '"' :: escape valueMarks a.value ++ ['"']

def startTag (name : List Char) (attributes : List Attribute) : List Char :=
  '<' :: name ++ attributes.flatMap Attribute.markup ++ ['>']

def endTag (name : List Char) : List Char := '<' :: '/' :: name ++ ['>']

def Leaf.markup : Leaf → List Char
  | text run => escape textMarks run.chars
  | comment c => ['<', '!', '-', '-'] ++ c.content ++ ['-', '-', '>']
  | hidden e => startTag e.name e.attributes ++ e.content ++ endTag e.name
  | lineBreak => startTag ['b', 'r'] []
  | image attributes => startTag ['i', 'm', 'g'] attributes

def markupLook : Look Leaf where
  leaf := Leaf.markup
  opening name attributes := startTag name.chars attributes
  closing name := endTag name.chars

def markup (f : Fragment Item) : List Char :=
  f.write (markupLook.withLinks fun attributes body =>
    startTag ['a'] attributes ++ body.write markupLook ++ endTag ['a'])

/-! ### Reading -/

/-- A description in brackets, if it is not blank. -/
def described : Option (List Char) → List Char
  | some alt => if (trim alt).isEmpty then [] else '[' :: trim alt ++ [']']
  | none => []

/-- A text with an address in parentheses, if it is not empty. -/
def addressed (text : List Char) : Option (List Char) → List Char
  | some href => if href.isEmpty then text else text ++ [' ', '('] ++ href ++ [')']
  | none => text

/-- What keeps the content of an element apart from what follows it. -/
def ending (name : List Char) : List Char :=
  if name ∈ lineElements then ['\n'] else if name ∈ cellElements then [' '] else []

def Leaf.reading (breaks : Bool) : Leaf → List Char
  | text run => run.chars
  | comment _ => []
  | hidden _ => []
  | lineBreak => if breaks then ['\n'] else []
  | image attributes => described (value? ['a', 'l', 't'] attributes)

/-- How a forest is read; `breaks` tells whether its lines and cells are kept apart. -/
def readingLook (breaks : Bool) : Look Leaf where
  leaf := Leaf.reading breaks
  opening _ _ := []
  closing name := if breaks then ending name.chars else []

/-- The text of a forest; `breaks` tells whether lines and cells are kept apart inside links. -/
def reading (breaks : Bool) (f : Fragment Item) : List Char :=
  f.write ((readingLook true).withLinks fun attributes body =>
    addressed (trim (body.write (readingLook breaks))) (value? ['h', 'r', 'e', 'f'] attributes))

end EmailTemplate.PlainText
