import EmailTemplate.Html.InlineStyle

/-! The preheader: the hidden line near the top of a body that a mail program shows beside the
subject. -/

namespace EmailTemplate.Landmark

open Html

/-- How many elements at the start of a body may be the preheader. -/
def preheaderWindow : Nat := 5

def isPreheader (e : Element) : Bool :=
  let length := e.trimmedText.length
  decide (10 < length) && decide (length ≤ 200) && e.isHidden

def preheader? (doc : Forest) : Option Visit := do
  let body ← doc.body?
  (body.children.take preheaderWindow).find? fun v => isPreheader v.element

end EmailTemplate.Landmark
