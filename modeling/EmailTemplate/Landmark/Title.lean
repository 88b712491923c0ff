import EmailTemplate.Html.InlineStyle

/-! The title of a message. -/

namespace EmailTemplate.Landmark

open Html

def isHeading (e : Element) : Bool := e.isTag "h1" || e.isTag "h2"

/-- What may be the title, in order of preference: a first-level heading, an element classed as a
title, a heading in a table cell, a heading in a division. -/
def titleCandidates : List (Visit → Bool) :=
  [fun v => v.element.isTag "h1",
    fun v => ["title", "heading", "headline"].any v.element.classContains,
    fun v => isHeading v.element && v.isInside fun a => a.isTag "td" || a.isTag "th",
    fun v => isHeading v.element && v.isInside (·.isTag "div")]

/-- The first element with text of the first kind that has one. -/
def title? (doc : Forest) : Option Visit :=
  let visits := doc.visits
  titleCandidates.findSome? fun candidate =>
    visits.find? fun v => candidate v && !v.element.trimmedText.isEmpty

end EmailTemplate.Landmark
