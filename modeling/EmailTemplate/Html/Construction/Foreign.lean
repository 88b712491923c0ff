import EmailTemplate.Html.Construction.Formatting

/-! Elements of other vocabularies inside a document. -/

namespace EmailTemplate.Html.Build

open Text

/-- Whether a token is done with after a rule, or goes through the rules again. -/
inductive Next
  | done
  | again
  deriving DecidableEq, Repr

/-- Goes through the rules of a mode with the same token. -/
def againIn (mode : Mode) : Build Next := do
  setMode mode
  return .again

/-! ### Spelling -/

/-- The spelling that a name in lower case stands for. -/
def respell (names : List String) (name : String) : String :=
  (names.find? fun n => lowerAscii n == name).getD name

def foreignAttribute (name value : String) : Attribute :=
  match name with
  | "xlink:actuate" => ⟨.xlink, "actuate", value⟩
  | "xlink:arcrole" => ⟨.xlink, "arcrole", value⟩
  | "xlink:href" => ⟨.xlink, "href", value⟩
  | "xlink:role" => ⟨.xlink, "role", value⟩
  | "xlink:show" => ⟨.xlink, "show", value⟩
  | "xlink:title" => ⟨.xlink, "title", value⟩
  | "xlink:type" => ⟨.xlink, "type", value⟩
  | "xml:base" => ⟨.xml, "base", value⟩
  | "xml:lang" => ⟨.xml, "lang", value⟩
  | "xml:space" => ⟨.xml, "space", value⟩
  | "xmlns" => ⟨.xmlns, "xmlns", value⟩
  | "xmlns:xlink" => ⟨.xmlns, "xlink", value⟩
  | _ => ⟨.plain, name, value⟩

def foreignAttributes (space : Space) (tag : StartTag) : List Attribute :=
  tag.attributes.map fun (name, value) =>
    let spelt := match space with
      | .svg => respell svgAttributeNames name
      | .mathml => if name = "definitionurl" then "definitionURL" else name
      | .html => name
    foreignAttribute spelt value

/-! ### Rules -/

/-- Whether an annotation in a formula says that it holds markup. -/
def holdsMarkup (b : Builder) (n : Nat) : Bool :=
  match b.arena.kindOf n with
  | .element tag attributes _ =>
    tag == ⟨.mathml, "annotation-xml"⟩ && attributes.any fun a =>
      a.space == .plain && a.name == "encoding" &&
        ["text/html", "application/xhtml+xml"].contains (lowerAscii a.value)
  | _ => false

def isForeign (b : Builder) (token : Token) : Bool :=
  let tag := currentTag b
  match token with
  | .finish => false
  | _ =>
    if b.openElements.isEmpty || tag.space == .html then false
    else match token with
      | .char _ | .null =>
        !(tag.isMathText || tag.isSvgHolder || holdsMarkup b (current b))
      | .startTag t =>
        if tag.isMathText && t.name != "mglyph" && t.name != "malignmark" then false
        else if tag.isSvgHolder then false
        else if tag == ⟨.mathml, "annotation-xml"⟩ && t.name == "svg" then false
        else !holdsMarkup b (current b)
      | _ => true

/-- Inserts an element of a vocabulary; only there can a tag close itself. -/
def insertForeign (space : Space) (name : String) (tag : StartTag) : Build Unit := do
  let attributes := foreignAttributes space tag
  let _ ← if tag.selfClosing then insertClosed ⟨space, name⟩ attributes
    else insertOpen ⟨space, name⟩ attributes

def foreignStart (tag : StartTag) : Build Next := do
  let space := (currentTag (← get)).space
  let name := if space == .svg then respell svgElementNames tag.name else tag.name
  insertForeign space name tag
  return .done

/-- A start tag that ends foreign content: it is read where the document goes on. -/
def breakOut : Build Next := do
  pop
  popTo fun t => t.space == .html || t.isMathText || t.isSvgHolder
  return .again

def foreignTag (tag : StartTag) : Build Next :=
  if breakoutNames.contains tag.name then breakOut
  else if tag.name = "font" ∧
      tag.attributes.any (fun a => ["color", "face", "size"].contains a.1) then breakOut
  else foreignStart tag

/-- How the end tag of foreign content goes on: it closes an element, it is read by the rules of
the document, or nothing happens. -/
inductive ForeignEnd
  | close (inside : List Nat)
  | document
  | nothing

def foreignEnd (b : Builder) (name : String) : Bool → List Nat → ForeignEnd
  | _, [] => .nothing
  | _, [_] => .nothing
  | first, n :: rest =>
    let tag := tagOf b n
    if !first && tag.space == .html then .document
    else if lowerAscii tag.name = name then .close rest
    else foreignEnd b name false rest

end EmailTemplate.Html.Build
