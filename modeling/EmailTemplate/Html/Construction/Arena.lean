import EmailTemplate.Html.Forest

/-! A document under construction: numbered nodes that can be moved about, each knowing its parent
and its children. Node 0 is the document. -/

namespace EmailTemplate.Html

/-- What a node is. A template has a document of its own for its content, which the document that
it stands in does not show. -/
inductive NodeKind
  | document
  | text (content : String)
  | comment (content : String)
  | doctype (name : String)
  | element (tag : Tag) (attributes : List Attribute) (content : Option Nat)
  deriving Repr

structure Node where
  kind : NodeKind
  parent : Option Nat
  children : List Nat
  deriving Repr

abbrev Arena := Array Node

namespace Arena

def empty : Arena := #[⟨.document, none, []⟩]

def kindOf (a : Arena) (n : Nat) : NodeKind := (a[n]?.map (·.kind)).getD .document

def parentOf (a : Arena) (n : Nat) : Option Nat := a[n]?.bind (·.parent)

def childrenOf (a : Arena) (n : Nat) : List Nat := (a[n]?.map (·.children)).getD []

def tagOf? (a : Arena) (n : Nat) : Option Tag :=
  match a.kindOf n with
  | .element tag _ _ => some tag
  | _ => none

/-- The document that holds the content of a template. -/
def contentOf? (a : Arena) (n : Nat) : Option Nat :=
  match a.kindOf n with
  | .element _ _ content => content
  | _ => none

def update (a : Arena) (n : Nat) (f : Node → Node) : Arena :=
  match a[n]? with
  | some node => a.setIfInBounds n (f node)
  | none => a

/-- Adds a node that stands nowhere. -/
def create (a : Arena) (kind : NodeKind) : Arena × Nat := (a.push ⟨kind, none, []⟩, a.size)

def createElement (a : Arena) (tag : Tag) (attributes : List Attribute) : Arena × Nat :=
  if tag = ⟨.html, "template"⟩ then
    let (a, content) := a.create .document
    a.create (.element tag attributes (some content))
  else a.create (.element tag attributes none)

def detach (a : Arena) (n : Nat) : Arena :=
  match a.parentOf n with
  | none => a
  | some p =>
    (a.update p fun node => { node with children := node.children.filter (· != n) }).update n
      fun node => { node with parent := none }

def append (a : Arena) (p n : Nat) : Arena :=
  ((a.detach n).update n fun node => { node with parent := some p }).update p
    fun node => { node with children := node.children ++ [n] }

/-- Puts a node before another in its row. -/
def putBefore (n sibling : Nat) : List Nat → List Nat
  | [] => [n]
  | c :: rest => if c = sibling then n :: c :: rest else c :: putBefore n sibling rest

def insertBefore (a : Arena) (sibling n : Nat) : Arena :=
  match a.parentOf sibling with
  | none => a
  | some p =>
    ((a.detach n).update n fun node => { node with parent := some p }).update p
      fun node => { node with children := putBefore n sibling node.children }

/-- Adds to a node if it is a text. -/
def extendText? (a : Arena) (n : Option Nat) (s : String) : Option Arena :=
  match n with
  | none => none
  | some n =>
    match a.kindOf n with
    | .text content => some (a.update n fun node => { node with kind := .text (content ++ s) })
    | _ => none

/-- Adds text at the end of a node, to the text that stands there if there is one. -/
def appendText (a : Arena) (p : Nat) (s : String) : Arena :=
  match a.extendText? (a.childrenOf p).getLast? s with
  | some a => a
  | none =>
    let (a, n) := a.create (.text s)
    a.append p n

def insertTextBefore (a : Arena) (sibling : Nat) (s : String) : Arena :=
  let row := ((a.parentOf sibling).map a.childrenOf).getD []
  match a.extendText? (row.takeWhile (· != sibling)).getLast? s with
  | some a => a
  | none =>
    let (a, n) := a.create (.text s)
    a.insertBefore sibling n

def moveChildren (a : Arena) (source target : Nat) : Arena :=
  (a.childrenOf source).foldl (fun a n => a.append target n) a

def addAttributes (a : Arena) (n : Nat) (more : List Attribute) : Arena :=
  a.update n fun node => { node with kind := match node.kind with
    | .element tag attributes content =>
      let new := more.filter fun m =>
        !attributes.any fun x => x.space == m.space && x.name == m.name
      .element tag (attributes ++ new) content
    | kind => kind }

/-- The rows below nodes, down to a depth. -/
def forestOf (a : Arena) : Nat → List Nat → Forest
  | 0, _ => .nil
  | depth + 1, row => row.foldr (fun n rest => match a.kindOf n with
      | .document => rest
      | .text s => .text s rest
      | .comment s => .comment s rest
      | .doctype name => .doctype name rest
      | .element tag attributes _ =>
        .element tag attributes (a.forestOf depth (a.childrenOf n)) rest) .nil

/-- The document as a tree: it is no deeper than it has nodes. -/
def toForest (a : Arena) : Forest := a.forestOf (a.size + 1) (a.childrenOf 0)

end Arena

end EmailTemplate.Html
