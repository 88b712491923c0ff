import EmailTemplate.Html.Edit
import EmailTemplate.Manifest.Basic
import EmailTemplate.Template.Token

/-! A message on its way to becoming a template: the document as it stands, and what has been
recorded about it. -/

namespace EmailTemplate

open Html

structure Adaptation where
  source : String
  document : Forest
  placeholders : List Placeholder
  supportsPreheader : Bool
  hasTitle : Bool
  ctas : List Cta
  blocks : List String
  deriving DecidableEq, Repr

def Html.Element.label (e : Element) : String := Text.lowerAscii e.tag.name

namespace Adaptation

def start (html : String) : Adaptation := ⟨html, parse html, [], false, false, [], []⟩

/-- Records a placeholder unless its name is recorded already. -/
def record (a : Adaptation) (p : Placeholder) : Adaptation :=
  if a.placeholders.any (·.name == p.name) then a
  else { a with placeholders := a.placeholders ++ [p] }

/-- Puts the token of a name in place of the content of an element, and records it. -/
def putToken (a : Adaptation) (name : String) (v : Visit) : Adaptation :=
  let label := v.element.label
  { a with document := a.document.setText v.index (Template.nameToken name) }.record
    ⟨name, .text, label, some label⟩

end Adaptation

end EmailTemplate
