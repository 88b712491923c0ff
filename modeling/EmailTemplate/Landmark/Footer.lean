import EmailTemplate.Html.InlineStyle

/-! Whether a message has a footer. -/

namespace EmailTemplate.Landmark

open Html Text

def footerKeywords : List String :=
  ["unsubscribe", "manage preferences", "privacy policy", "all rights reserved", "отписаться",
    "отписка", "управление подпиской", "политика конфиденциальности", "все права защищены"]

/-- How many of the keywords the text of an element has. -/
def footerHits (e : Element) : Nat :=
  let text := lower e.textContent.toList
  footerKeywords.countP fun k => occurs k.toList text

/-- An element marked as a footer. -/
def isMarkedFooter (e : Element) : Bool :=
  e.isTag "footer" || e.attribute? "role" == some "contentinfo" ||
    (e.isTag "table" && e.classContains "footer") || (e.isTag "div" && e.classContains "footer")

def isFooterLength (n : Nat) : Bool := decide (50 ≤ n) && decide (n ≤ 500)

/-- A marked element needs one keyword; any other a moderate length and two. -/
def hasFooter (doc : Forest) : Bool :=
  let elements := doc.elements
  elements.any (fun e => isMarkedFooter e && decide (0 < footerHits e)) ||
    elements.any fun e => isFooterLength e.trimmedText.length && decide (2 ≤ footerHits e)

end EmailTemplate.Landmark
