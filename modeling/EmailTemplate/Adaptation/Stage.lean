import EmailTemplate.Adaptation.Anchor
import EmailTemplate.Adaptation.Basic
import EmailTemplate.Contact
import EmailTemplate.Landmark.Block
import EmailTemplate.Landmark.Preheader
import EmailTemplate.Landmark.Title
import EmailTemplate.Template.Section

/-! The stages in which a message becomes a template. Each looks at the document as the one before
left it, and records a placeholder when it has put one in. -/

namespace EmailTemplate

open Html Template

/-- Puts an opener right before an element and a closer right after it. -/
def Html.Forest.wrap (f : Forest) (i : Nat) (name : String) : Forest :=
  let opener := Forest.text (String.ofList (sectionOpener name.toList)) .nil
  let closer := Forest.text (String.ofList (sectionCloser name.toList)) .nil
  (f.insertBefore i opener).insertAfter i closer

namespace Adaptation

/-- A hidden line to stand at the start of a body that has no preheader. -/
def hiddenLine : Element where
  tag := ⟨.html, "div"⟩
  attributes := [⟨.plain, "style", "".intercalate
    ["display:none;font-size:1px;line-height:1px;max-height:0px;max-width:0px;opacity:0;",
      "overflow:hidden;color:transparent;mso-hide:all;"]⟩]
  children := .text (nameToken "preheader") .nil

def addHiddenLine (a : Adaptation) (body : Visit) : Adaptation :=
  { a with
    document := a.document.prepend body.index (hiddenLine.followedBy .nil)
    supportsPreheader := true }.record
    ⟨"preheader", .text, "body > div:first-child", some "div"⟩

def runPreheader (fallback : Bool) (a : Adaptation) : Adaptation :=
  match Landmark.preheader? a.document with
  | some v => { a.putToken "preheader" v with supportsPreheader := true }
  | none => if fallback then a.document.body?.elim a a.addHiddenLine else a

def runTitle (a : Adaptation) : Adaptation :=
  match Landmark.title? a.document with
  | some v => { a.putToken "title" v with hasTitle := true }
  | none => a

def addCta (a : Adaptation) (c : Cta) : Adaptation :=
  let a := { a with document := a.document.replaceCta c, ctas := a.ctas ++ [c] }
  (a.record ⟨c.textPlaceholder, .text, "a", some "a"⟩).record
    ⟨c.urlPlaceholder, .url, "a", some "a"⟩

def runCtas (strategy : CtaStrategy) (a : Adaptation) : Adaptation :=
  (strategy.select (Landmark.ctas a.document)).foldl addCta a

def addBlock (a : Adaptation) (b : Landmark.Block) : Adaptation :=
  let a := { a with
    document := a.document.wrap b.visit.index b.name
    blocks := a.blocks ++ [b.name] }
  a.record ⟨b.name, .block, b.pattern.selector b.name, some b.visit.element.label⟩

/-- Names that are no block names are passed over. -/
def runBlocks (names : List String) (a : Adaptation) : Adaptation :=
  (Landmark.blocks a.document (names.filter isBlockName)).foldl addBlock a

/-- How often a text stands below an element. -/
def occurrences (a : Adaptation) (index : Nat) (found : List Char) : Nat :=
  (a.document.visits[index]?).elim 0 fun v => v.element.children.countLiteral found

/-- Puts the token of a contact for every occurrence of a text below an element. -/
def replaceContact (index : Nat) (name : String) (a : Adaptation) (found : List Char) :
    Adaptation :=
  if a.occurrences index found = 0 then a
  else
    let document := a.document.updateAt index fun e =>
      { e with children := e.children.replaceLiteral found (token name.toList) }
    { a with document := document }.record ⟨name, .text, "body", none⟩

/-- Replaces the first text of a kind of contact in some markup, wherever it stands. -/
def replaceFound (index : Nat) (markup : List Char) (a : Adaptation) (contact : Contact) :
    Adaptation :=
  (contact.pattern.find? markup).elim a (a.replaceContact index contact.placeholder)

/-- Every kind of contact is sought in the body as it is at the start. -/
def runBrand (a : Adaptation) : Adaptation :=
  match a.document.body? with
  | none => a
  | some body => Contact.all.foldl (replaceFound body.index body.element.innerHtml.toList) a

def runComments (preserve : Bool) (a : Adaptation) : Adaptation :=
  if preserve then a else { a with document := a.document.stripComments }

end Adaptation

inductive Stage
  | preheader
  | title
  | ctas
  | blocks
  | brand
  | comments
  deriving DecidableEq, Repr

namespace Stage

/-- In the order in which a message passes through them. -/
def all : List Stage := [preheader, title, ctas, blocks, brand, comments]

def run (o : AdaptOptions) : Stage → Adaptation → Adaptation
  | preheader => Adaptation.runPreheader o.preheaderFallback
  | title => Adaptation.runTitle
  | ctas => Adaptation.runCtas o.ctaStrategy
  | blocks => Adaptation.runBlocks o.detectBlocks
  | brand => Adaptation.runBrand
  | comments => Adaptation.runComments o.preserveComments

end Stage

end EmailTemplate
