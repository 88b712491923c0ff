import EmailTemplate.Html.Construction.Arena
import EmailTemplate.Html.Construction.TagSets
import EmailTemplate.Html.Token
import EmailTemplate.Text.Ascii

/-! The state of tree construction and the moves that its rules are made of. -/

namespace EmailTemplate.Html

/-- Which rules read the next token. -/
inductive Mode
  | initial
  | beforeHtml
  | beforeHead
  | inHead
  | afterHead
  | inBody
  | text
  | inTable
  | inTableText
  | inCaption
  | inColumnGroup
  | inTableBody
  | inRow
  | inCell
  | inSelect
  | inSelectInTable
  | inTemplate
  | afterBody
  | inFrameset
  | afterFrameset
  | afterAfterBody
  | afterAfterFrameset
  deriving DecidableEq, Repr

/-- An element that is opened again where it is cut off, with the tag that opened it, or a mark
beyond which none is. -/
inductive Formatting
  | marker
  | element (node : Nat) (tag : StartTag)
  deriving DecidableEq, Repr

/-- The open elements stand with the innermost first, and so do the formatting elements. -/
structure Builder where
  arena : Arena
  mode : Mode
  returnMode : Mode
  templateModes : List Mode
  tableText : List Char
  old : Bool
  openElements : List Nat
  formatting : List Formatting
  head : Option Nat
  form : Option Nat
  framesetOk : Bool
  skipLineFeed : Bool
  fostering : Bool
  textMode : TextMode

def Builder.start : Builder :=
  { arena := Arena.empty, mode := .initial, returnMode := .inBody, templateModes := [],
    tableText := [], old := false, openElements := [], formatting := [], head := none,
    form := none, framesetOk := true, skipLineFeed := false, fostering := false,
    textMode := .data }

abbrev Build := StateM Builder

namespace Build

/-! ### Looking at the open elements -/

def tagOf (b : Builder) (n : Nat) : Tag := (b.arena.tagOf? n).getD ⟨.html, ""⟩

def isNamed (b : Builder) (name : String) (n : Nat) : Bool := tagOf b n == ⟨.html, name⟩

def current (b : Builder) : Nat := b.openElements.headD 0

def currentTag (b : Builder) : Tag := tagOf b (current b)

def currentIs (b : Builder) (name : String) : Bool := currentTag b == ⟨.html, name⟩

def isOpen (b : Builder) (name : String) : Bool := b.openElements.any (isNamed b name)

/-- Whether a search outwards meets what it looks for before the end of its scope. -/
def inScope (b : Builder) (ends : Tag → Bool) (wanted : Nat → Bool) : Bool :=
  go b.openElements
where
  go : List Nat → Bool
    | [] => false
    | n :: rest => wanted n || (!ends (tagOf b n) && go rest)

def nameInScope (b : Builder) (ends : Tag → Bool) (name : String) : Bool :=
  inScope b ends (isNamed b name)

/-- The body, if it is the second element of the document. -/
def body? (b : Builder) : Option Nat :=
  match b.openElements.reverse with
  | _ :: n :: _ => if isNamed b "body" n then some n else none
  | _ => none

def rootElement (b : Builder) : Nat := b.openElements.getLastD 0

/-! ### Opening and closing -/

def push (n : Nat) : Build Unit := modify fun b => { b with openElements := n :: b.openElements }

def pop : Build Unit := modify fun b => { b with openElements := b.openElements.drop 1 }

/-- Closes elements up to the first for which the test holds, with it. -/
def popThrough (found : Builder → Nat → Bool) : Build Unit :=
  modify fun b => { b with openElements := (b.openElements.dropWhile (!found b ·)).drop 1 }

def popThroughName (name : String) : Build Unit := popThrough fun b n => isNamed b name n

/-- Closes elements up to the first for which the test holds, without it. -/
def popTo (found : Tag → Bool) : Build Unit :=
  modify fun b => { b with openElements := b.openElements.dropWhile fun n => !found (tagOf b n) }

/-- Closes elements that close with what is around them. -/
def closeImplied (names : List String) : Build Unit :=
  modify fun b =>
    { b with openElements := b.openElements.dropWhile fun n => (tagOf b n).isHtml names }

def closeImpliedBut (name : String) : Build Unit :=
  closeImplied (impliedEndNames.filter (· != name))

def removeOpen (n : Nat) : Build Unit :=
  modify fun b => { b with openElements := b.openElements.filter (· != n) }

def closeParagraph : Build Unit := do
  closeImpliedBut "p"
  popThroughName "p"

def closeParagraphInScope : Build Unit := do
  if nameInScope (← get) Tag.endsButtonScope "p" then closeParagraph

/-! ### Inserting -/

/-- A place for a node: at the end of a parent, or before a table if that stands somewhere, and
else at the end of the element that is open around the table. -/
inductive Place
  | last (parent : Nat)
  | before (table outer : Nat)

/-- Where a node goes that belongs into an element: into the content of a template, and before the
table if it is misplaced in one. -/
def placeIn (b : Builder) (target : Nat) : Place :=
  let inside (n : Nat) : Place := .last ((b.arena.contentOf? n).getD n)
  if b.fostering && (tagOf b target).isHtml fosterNames then go inside b.openElements
  else inside target
where
  go (inside : Nat → Place) : List Nat → Place
    | [] => .last (rootElement b)
    | n :: rest =>
      if isNamed b "template" n then inside n
      else if isNamed b "table" n then .before n (rest.headD 0)
      else go inside rest

def put (place : Place) (n : Nat) : Build Unit :=
  modify fun b => { b with arena := match place with
    | .last p => b.arena.append p n
    | .before table outer =>
      if (b.arena.parentOf table).isSome then b.arena.insertBefore table n
      else b.arena.append outer n }

def putText (place : Place) (s : String) : Build Unit :=
  modify fun b => { b with arena := match place with
    | .last p => b.arena.appendText p s
    | .before table outer =>
      if (b.arena.parentOf table).isSome then b.arena.insertTextBefore table s
      else b.arena.appendText outer s }

def insertText (s : String) : Build Unit := do
  let b ← get
  putText (placeIn b (current b)) s

def createNode (kind : NodeKind) : Build Nat := do
  let b ← get
  let (arena, n) := b.arena.create kind
  set { b with arena := arena }
  return n

def createElement (tag : Tag) (attributes : List Attribute) : Build Nat := do
  let b ← get
  let (arena, n) := b.arena.createElement tag attributes
  set { b with arena := arena }
  return n

def insertComment (s : String) : Build Unit := do
  let n ← createNode (.comment s)
  let b ← get
  put (placeIn b (current b)) n

def appendComment (parent : Nat) (s : String) : Build Unit := do
  let n ← createNode (.comment s)
  put (.last parent) n

def insertClosed (tag : Tag) (attributes : List Attribute) : Build Nat := do
  let n ← createElement tag attributes
  let b ← get
  put (placeIn b (current b)) n
  return n

def insertOpen (tag : Tag) (attributes : List Attribute) : Build Nat := do
  let n ← insertClosed tag attributes
  push n
  return n

def plainAttributes (tag : StartTag) : List Attribute :=
  tag.attributes.map fun (name, value) => ⟨.plain, name, value⟩

def insertFor (tag : StartTag) : Build Nat :=
  insertOpen ⟨.html, tag.name⟩ (plainAttributes tag)

/-- Inserts an element that no tag asked for. -/
def insertPhantom (name : String) : Build Nat := insertOpen ⟨.html, name⟩ []

def insertClosedFor (tag : StartTag) : Build Nat :=
  insertClosed ⟨.html, tag.name⟩ (plainAttributes tag)

def createRoot (tag : StartTag) : Build Unit := do
  let n ← createElement ⟨.html, "html"⟩ (plainAttributes tag)
  put (.last 0) n
  push n

def addAttributes (n : Nat) (tag : StartTag) : Build Unit :=
  modify fun b => { b with arena := b.arena.addAttributes n (plainAttributes tag) }

/-! ### State -/

def setMode (mode : Mode) : Build Unit := modify fun b => { b with mode := mode }

def forbidFrameset : Build Unit := modify fun b => { b with framesetOk := false }

/-- Reads the text of the innermost element in a mode of its own. -/
def enterText (textMode : TextMode) : Build Unit :=
  modify fun b => { b with returnMode := b.mode, mode := .text, textMode := textMode }

def insertWithText (tag : StartTag) (textMode : TextMode) : Build Unit := do
  let _ ← insertFor tag
  enterText textMode

def pushMarker : Build Unit := modify fun b => { b with formatting := .marker :: b.formatting }

/-- Forgets the formatting elements back to the last mark, with it. -/
def clearToMarker : Build Unit :=
  modify fun b => { b with formatting := (b.formatting.dropWhile (· != .marker)).drop 1 }

/-- The mode that the open elements ask for. -/
def modeFor (b : Builder) : Mode := go b.openElements
where
  go : List Nat → Mode
    | [] => .inBody
    | n :: rest =>
      let tag := tagOf b n
      let isLast := rest.isEmpty
      if tag.space != .html then go rest
      else match tag.name with
        | "select" =>
          let outer := rest.find? fun m => isNamed b "template" m || isNamed b "table" m
          if outer.any (isNamed b "table") then .inSelectInTable else .inSelect
        | "td" | "th" => if isLast then go rest else .inCell
        | "tr" => .inRow
        | "tbody" | "thead" | "tfoot" => .inTableBody
        | "caption" => .inCaption
        | "colgroup" => .inColumnGroup
        | "table" => .inTable
        | "template" => b.templateModes.headD .inBody
        | "head" => if isLast then go rest else .inHead
        | "body" => .inBody
        | "frameset" => .inFrameset
        | "html" => if b.head.isSome then .afterHead else .beforeHead
        | _ => go rest

def resetMode : Build Unit := modify fun b => { b with mode := modeFor b }

/-- Replaces the mode in which the innermost template is read. -/
def setTemplateMode (mode : Mode) : Build Unit :=
  modify fun b => { b with templateModes := mode :: b.templateModes.drop 1 }

def popTemplateMode : Build Unit :=
  modify fun b => { b with templateModes := b.templateModes.drop 1 }

end Build

end EmailTemplate.Html
