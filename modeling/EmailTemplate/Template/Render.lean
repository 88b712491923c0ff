import EmailTemplate.PlainText.Derive
import EmailTemplate.Template.Loop
import EmailTemplate.Template.Values

/-! Rendering a template with data. -/

namespace EmailTemplate.Template

/-- A rendered message: its markup and the plain text derived from it. -/
structure Rendered where
  html : String
  text : String
  deriving DecidableEq, Repr

/-- Sections first, then loops, whose bodies hold tokens of their own, then values, and last
whatever token is left goes. -/
def renderHtml (template : List Char) (data : Json.Value) : List Char :=
  strip (substitute (flatten data) (expandLoops (resolveBlocks template data) data))

def render (template : String) (data : Json.Value) : Rendered :=
  let html := renderHtml template.toList data
  ⟨String.ofList html, String.ofList (PlainText.ofMarkup html)⟩

end EmailTemplate.Template
