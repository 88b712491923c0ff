import EmailTemplate.Landmark.Cta
import EmailTemplate.Template.Token

/-! Putting the tokens of a call to action in place of its links. -/

namespace EmailTemplate

open Html Template

/-- Whether an element is a link with the text and the address of a call to action. -/
def Cta.claims (c : Cta) (e : Element) : Bool :=
  e.isTag "a" && e.attribute? "href" == some c.href && e.trimmedText == c.text.toList

/-- Gives every link of a call to action its tokens as text and address. A link inside such a link
goes with the text. -/
def Html.Forest.replaceCta (c : Cta) : Forest → Forest
  | .nil => .nil
  | .text s rest => .text s (rest.replaceCta c)
  | .comment s rest => .comment s (rest.replaceCta c)
  | .doctype name rest => .doctype name (rest.replaceCta c)
  | .element tag attributes children rest =>
    if c.claims ⟨tag, attributes, children⟩ then
      .element tag (setAttribute "href" (nameToken c.urlPlaceholder) attributes)
        (.text (nameToken c.textPlaceholder) .nil) (rest.replaceCta c)
    else .element tag attributes (children.replaceCta c) (rest.replaceCta c)

end EmailTemplate
