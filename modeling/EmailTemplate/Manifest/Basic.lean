/-! What is known about a template: its placeholders, the calls to action it came with, and the
report of a check. -/

namespace EmailTemplate

inductive PlaceholderKind
  | text
  | url
  | image
  | block
  | loop
  deriving DecidableEq, Repr

/-- A named place in a template, with how its element was found and the element's tag. -/
structure Placeholder where
  name : String
  kind : PlaceholderKind
  selectorHint : String
  element : Option String
  deriving DecidableEq, Repr

/-- A link that asks the reader to act, with the names that take the place of its text and its
address. -/
structure Cta where
  htmlSnapshot : String
  textPlaceholder : String
  urlPlaceholder : String
  text : String
  href : String
  deriving DecidableEq, Repr

structure TemplateMeta where
  suggestedSubjects : List String
  supportsPreheader : Bool
  detectedCtas : List Cta
  detectedFooter : Bool
  hasBlocks : List String
  deriving DecidableEq, Repr

/-- A finished message turned into a template. -/
structure AdaptedTemplate where
  source : String
  html : String
  placeholders : List Placeholder
  details : TemplateMeta
  deriving DecidableEq, Repr

def AdaptedTemplate.placeholder? (t : AdaptedTemplate) (name : String) : Option Placeholder :=
  t.placeholders.find? (·.name == name)

structure ValidationReport where
  valid : Bool
  errors : List String
  warnings : List String
  placeholders : List String
  missingRequired : List String
  deriving DecidableEq, Repr

end EmailTemplate
