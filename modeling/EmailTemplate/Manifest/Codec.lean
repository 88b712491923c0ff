import EmailTemplate.Json.Decode
import EmailTemplate.Manifest.Basic

/-! The JSON form of templates and reports. Members that are not known are passed over. -/

namespace EmailTemplate

open Json

namespace PlaceholderKind

def name : PlaceholderKind → String
  | text => "text"
  | url => "url"
  | image => "image"
  | block => "block"
  | loop => "loop"

def named? (s : String) : Option PlaceholderKind :=
  [text, url, image, block, loop].find? (·.name == s)

end PlaceholderKind

/-! ### Placeholders -/

namespace Placeholder

def encode (p : Placeholder) : Value :=
  .object ([("name", .string p.name), ("type", .string p.kind.name),
    ("selectorHint", .string p.selectorHint)] ++
    (p.element.toList.map fun tag => ("element", Value.string tag)))

structure Draft where
  name : Option String
  kind : Option PlaceholderKind
  selectorHint : Option String
  element : Option (Option String)

def Draft.setName (p : Draft) (d : Json.Draft) : Decoded Draft := do
  return { p with name := ← once p.name d.toString? }

def Draft.setKind (origin : Origin) (p : Draft) (d : Json.Draft) : Decoded Draft := do
  return { p with kind := ← once p.kind (d.toName? origin PlaceholderKind.named?) }

def Draft.setSelectorHint (p : Draft) (d : Json.Draft) : Decoded Draft := do
  return { p with selectorHint := ← once p.selectorHint d.toString? }

def Draft.setElement (p : Draft) (d : Json.Draft) : Decoded Draft := do
  return { p with element := ← once p.element (d.toOption? Json.Draft.toString?) }

def Draft.finish (p : Draft) : Decoded Placeholder := do
  return ⟨← required p.name, ← required p.kind, ← required p.selectorHint, p.element.join⟩

def record (origin : Origin) : Record Draft Placeholder where
  start := ⟨none, none, none, none⟩
  member p key d :=
    if key = "name" then p.setName d
    else if key = "type" then p.setKind origin d
    else if key = "selectorHint" then p.setSelectorHint d
    else if key = "element" then p.setElement d
    else do
      d.skip
      return p
  places := [Draft.setName, Draft.setKind origin, Draft.setSelectorHint, Draft.setElement]
  finish := Draft.finish
  finishArray p _ := p.finish

def decode (origin : Origin) : Json.Draft → Decoded Placeholder := (record origin).decode origin

end Placeholder

/-! ### Calls to action -/

namespace Cta

def encode (c : Cta) : Value :=
  .object [("htmlSnapshot", .string c.htmlSnapshot),
    ("textPlaceholderName", .string c.textPlaceholder),
    ("urlPlaceholderName", .string c.urlPlaceholder), ("originalText", .string c.text),
    ("originalHref", .string c.href)]

structure Draft where
  htmlSnapshot : Option String
  textPlaceholder : Option String
  urlPlaceholder : Option String
  text : Option String
  href : Option String

def Draft.setHtmlSnapshot (c : Draft) (d : Json.Draft) : Decoded Draft := do
  return { c with htmlSnapshot := ← once c.htmlSnapshot d.toString? }

def Draft.setTextPlaceholder (c : Draft) (d : Json.Draft) : Decoded Draft := do
  return { c with textPlaceholder := ← once c.textPlaceholder d.toString? }

def Draft.setUrlPlaceholder (c : Draft) (d : Json.Draft) : Decoded Draft := do
  return { c with urlPlaceholder := ← once c.urlPlaceholder d.toString? }

def Draft.setText (c : Draft) (d : Json.Draft) : Decoded Draft := do
  return { c with text := ← once c.text d.toString? }

def Draft.setHref (c : Draft) (d : Json.Draft) : Decoded Draft := do
  return { c with href := ← once c.href d.toString? }

def Draft.finish (c : Draft) : Decoded Cta := do
  return ⟨← required c.htmlSnapshot, ← required c.textPlaceholder, ← required c.urlPlaceholder,
    ← required c.text, ← required c.href⟩

def record : Record Draft Cta where
  start := ⟨none, none, none, none, none⟩
  member c key d :=
    if key = "htmlSnapshot" then c.setHtmlSnapshot d
    else if key = "textPlaceholderName" then c.setTextPlaceholder d
    else if key = "urlPlaceholderName" then c.setUrlPlaceholder d
    else if key = "originalText" then c.setText d
    else if key = "originalHref" then c.setHref d
    else do
      d.skip
      return c
  places := [Draft.setHtmlSnapshot, Draft.setTextPlaceholder, Draft.setUrlPlaceholder,
    Draft.setText, Draft.setHref]
  finish := Draft.finish
  finishArray c _ := c.finish

def decode (origin : Origin) : Json.Draft → Decoded Cta := record.decode origin

end Cta

/-! ### Details -/

namespace TemplateMeta

def encode (m : TemplateMeta) : Value :=
  .object [("suggestedSubjects", Value.strings m.suggestedSubjects),
    ("supportsPreheader", .bool m.supportsPreheader),
    ("detectedCtas", .array (m.detectedCtas.map Cta.encode)),
    ("detectedFooter", .bool m.detectedFooter), ("hasBlocks", Value.strings m.hasBlocks)]

structure Draft where
  suggestedSubjects : Option (List String)
  supportsPreheader : Option Bool
  detectedCtas : Option (List Cta)
  detectedFooter : Option Bool
  hasBlocks : Option (List String)

def Draft.setSuggestedSubjects (m : Draft) (d : Json.Draft) : Decoded Draft := do
  return { m with suggestedSubjects := ← once m.suggestedSubjects (d.toList? Json.Draft.toString?) }

def Draft.setSupportsPreheader (m : Draft) (d : Json.Draft) : Decoded Draft := do
  return { m with supportsPreheader := ← once m.supportsPreheader d.toBool? }

def Draft.setDetectedCtas (origin : Origin) (m : Draft) (d : Json.Draft) : Decoded Draft := do
  return { m with detectedCtas := ← once m.detectedCtas (d.toList? (Cta.decode origin)) }

def Draft.setDetectedFooter (m : Draft) (d : Json.Draft) : Decoded Draft := do
  return { m with detectedFooter := ← once m.detectedFooter d.toBool? }

def Draft.setHasBlocks (m : Draft) (d : Json.Draft) : Decoded Draft := do
  return { m with hasBlocks := ← once m.hasBlocks (d.toList? Json.Draft.toString?) }

def Draft.finish (m : Draft) : Decoded TemplateMeta := do
  return ⟨← required m.suggestedSubjects, ← required m.supportsPreheader,
    ← required m.detectedCtas, ← required m.detectedFooter, ← required m.hasBlocks⟩

def record (origin : Origin) : Record Draft TemplateMeta where
  start := ⟨none, none, none, none, none⟩
  member m key d :=
    if key = "suggestedSubjects" then m.setSuggestedSubjects d
    else if key = "supportsPreheader" then m.setSupportsPreheader d
    else if key = "detectedCtas" then m.setDetectedCtas origin d
    else if key = "detectedFooter" then m.setDetectedFooter d
    else if key = "hasBlocks" then m.setHasBlocks d
    else do
      d.skip
      return m
  places := [Draft.setSuggestedSubjects, Draft.setSupportsPreheader,
    Draft.setDetectedCtas origin, Draft.setDetectedFooter, Draft.setHasBlocks]
  finish := Draft.finish
  finishArray m _ := m.finish

def decode (origin : Origin) : Json.Draft → Decoded TemplateMeta := (record origin).decode origin

end TemplateMeta

/-! ### Templates -/

namespace AdaptedTemplate

def encode (t : AdaptedTemplate) : Value :=
  .object [("originalHtml", .string t.source), ("html", .string t.html),
    ("placeholders", .array (t.placeholders.map Placeholder.encode)), ("meta", t.details.encode)]

structure Draft where
  source : Option String
  html : Option String
  placeholders : Option (List Placeholder)
  details : Option TemplateMeta

def Draft.setSource (t : Draft) (d : Json.Draft) : Decoded Draft := do
  return { t with source := ← once t.source d.toString? }

def Draft.setHtml (t : Draft) (d : Json.Draft) : Decoded Draft := do
  return { t with html := ← once t.html d.toString? }

def Draft.setPlaceholders (origin : Origin) (t : Draft) (d : Json.Draft) : Decoded Draft := do
  return { t with placeholders := ← once t.placeholders (d.toList? (Placeholder.decode origin)) }

def Draft.setDetails (origin : Origin) (t : Draft) (d : Json.Draft) : Decoded Draft := do
  return { t with details := ← once t.details (TemplateMeta.decode origin d) }

def Draft.finish (t : Draft) : Decoded AdaptedTemplate := do
  return ⟨← required t.source, ← required t.html, ← required t.placeholders, ← required t.details⟩

def record (origin : Origin) : Record Draft AdaptedTemplate where
  start := ⟨none, none, none, none⟩
  member t key d :=
    if key = "originalHtml" then t.setSource d
    else if key = "html" then t.setHtml d
    else if key = "placeholders" then t.setPlaceholders origin d
    else if key = "meta" then t.setDetails origin d
    else do
      d.skip
      return t
  places := [Draft.setSource, Draft.setHtml, Draft.setPlaceholders origin, Draft.setDetails origin]
  finish := Draft.finish
  finishArray t _ := t.finish

def decode (origin : Origin) : Json.Draft → Decoded AdaptedTemplate :=
  (record origin).decode origin

end AdaptedTemplate

/-! ### Reports -/

namespace ValidationReport

/-- The names that are missing are written only if there are any. -/
def encode (r : ValidationReport) : Value :=
  .object ([("valid", .bool r.valid), ("errors", Value.strings r.errors),
    ("warnings", Value.strings r.warnings), ("placeholders", Value.strings r.placeholders)] ++
    (if r.missingRequired.isEmpty then [] else
      [("missingRequired", Value.strings r.missingRequired)]))

structure Draft where
  valid : Option Bool
  errors : Option (List String)
  warnings : Option (List String)
  placeholders : Option (List String)
  missingRequired : Option (List String)

def Draft.setValid (r : Draft) (d : Json.Draft) : Decoded Draft := do
  return { r with valid := ← once r.valid d.toBool? }

def Draft.setErrors (r : Draft) (d : Json.Draft) : Decoded Draft := do
  return { r with errors := ← once r.errors (d.toList? Json.Draft.toString?) }

def Draft.setWarnings (r : Draft) (d : Json.Draft) : Decoded Draft := do
  return { r with warnings := ← once r.warnings (d.toList? Json.Draft.toString?) }

def Draft.setPlaceholders (r : Draft) (d : Json.Draft) : Decoded Draft := do
  return { r with placeholders := ← once r.placeholders (d.toList? Json.Draft.toString?) }

def Draft.setMissingRequired (r : Draft) (d : Json.Draft) : Decoded Draft := do
  return { r with missingRequired := ← once r.missingRequired (d.toList? Json.Draft.toString?) }

def Draft.finish (r : Draft) : Decoded ValidationReport := do
  return ⟨← required r.valid, ← required r.errors, ← required r.warnings,
    ← required r.placeholders, r.missingRequired.getD []⟩

def record : Record Draft ValidationReport where
  start := ⟨none, none, none, none, none⟩
  member r key d :=
    if key = "valid" then r.setValid d
    else if key = "errors" then r.setErrors d
    else if key = "warnings" then r.setWarnings d
    else if key = "placeholders" then r.setPlaceholders d
    else if key = "missingRequired" then r.setMissingRequired d
    else do
      d.skip
      return r
  places := [Draft.setValid, Draft.setErrors, Draft.setWarnings, Draft.setPlaceholders,
    Draft.setMissingRequired]
  finish := Draft.finish
  finishArray r _ := r.finish

def decode (origin : Origin) : Json.Draft → Decoded ValidationReport := record.decode origin

end ValidationReport

end EmailTemplate
