import EmailTemplate.Manifest.Basic
import EmailTemplate.Template.Values

/-! Checking a template for the placeholders that a message to send should have. -/

namespace EmailTemplate.Template

/-- The distinct names of the placeholders in their order. -/
def extract (template : String) : List String :=
  (placeholderNames template.toList).map String.ofList

def recommended : List String := ["title", "preheader"]

def missingMessage (name : String) : String := "Missing recommended placeholder: " ++ name

def noCtaMessage : String := "No CTA placeholders found"

/-- What is missing gives a warning, and no template is refused. -/
def validate (template : String) : ValidationReport :=
  let names := extract template
  let missing := recommended.filter fun name => !names.contains name
  let hasCta := names.any fun name => Text.occurs ['c', 't', 'a'] name.toList
  { valid := true
    errors := []
    warnings := missing.map missingMessage ++ (if hasCta then [] else [noCtaMessage])
    placeholders := names
    missingRequired := missing }

end EmailTemplate.Template
