import EmailTemplate.Html.InlineStyle
import EmailTemplate.Manifest.Basic
import EmailTemplate.Settings.Options

/-! Calls to action: links that look like buttons. Links with equal text and address count once. -/

namespace EmailTemplate

namespace Html

open Text

/-- The trimmed text and the address of a link that may be a call to action: it leads somewhere
else than into the page or to a mail address, and has from 1 to 100 characters of text. -/
def Element.linkParts? (e : Element) : Option (String × String) := do
  let href ← e.attribute? "href"
  let text := e.trimmedText
  if href.isEmpty || begins ['#'] href.toList || begins "mailto:".toList href.toList then none
  else if text.isEmpty || decide (100 < text.length) then none
  else some (String.ofList text, href)

end Html

namespace Landmark

open Html Text

def buttonWords : List String := ["btn", "button", "cta", "action"]

/-- Whether a class has one of the button words, in any letter case. -/
def isButtonClass (s : String) : Bool :=
  let s := s.toList.map asciiLower
  buttonWords.any fun w => occurs w.toList s

def isButtonStyle (s : InlineStyle) : Bool :=
  occurs "background".toList s.text || occurs "border-radius".toList s.text

/-- How far above a link its button-like table cell may be. -/
def cellDepth : Nat := 3

def isButtonCell (e : Element) : Bool :=
  (e.isTag "td" || e.isTag "th") && isButtonStyle e.inlineStyle

/-- Whether a link looks like a button, by its style, class or role or by the cell around it. -/
def isButton (v : Visit) : Bool :=
  isButtonStyle v.element.inlineStyle || occurs "padding".toList v.element.inlineStyle.text ||
    (v.element.attribute? "class").any isButtonClass ||
    v.element.attribute? "role" == some "button" ||
    (v.around.take cellDepth).any fun a => isButtonCell a.2

/-- A call to action before it is numbered. -/
structure Candidate where
  text : String
  href : String
  snapshot : String
  deriving DecidableEq, Repr

/-- A link whose text already has a token in it is left alone. -/
def candidate? (v : Visit) : Option Candidate := do
  let (text, href) ← if v.element.isTag "a" then v.element.linkParts? else none
  if occurs ['\x7b', '\x7b'] text.toList then none
  else if isButton v then some ⟨text, href, v.element.outerHtml⟩
  else none

/-- Keeps the first of those with the same key. -/
def firstBy {α β : Type} [DecidableEq β] (key : α → β) : List α → List α
  | [] => []
  | a :: rest => a :: (firstBy key rest).filter fun b => key b ≠ key a

def numbered (index : Nat) (c : Candidate) : Cta :=
  let stem := "cta_" ++ toString (index + 1)
  ⟨c.snapshot, stem ++ "_text", stem ++ "_url", c.text, c.href⟩

/-- The calls to action in document order, numbered from one. -/
def ctas (doc : Forest) : List Cta :=
  (firstBy (fun c => (c.text, c.href)) (doc.visits.filterMap candidate?)).mapIdx numbered

end Landmark

def Cta.atPosition (c : Cta) (position : String) : Cta :=
  { c with
    textPlaceholder := "cta_" ++ position ++ "_text"
    urlPlaceholder := "cta_" ++ position ++ "_url" }

/-- The calls to action that a strategy keeps. Of fewer than two there is no top and bottom. -/
def CtaStrategy.select : CtaStrategy → List Cta → List Cta
  | all, ctas => ctas
  | auto, ctas => ctas.take 3
  | topBottom, first :: second :: rest =>
    [first.atPosition "top", ((second :: rest).getLast (by simp)).atPosition "bottom"]
  | topBottom, ctas => ctas

end EmailTemplate
