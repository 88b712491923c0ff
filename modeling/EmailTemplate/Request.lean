import EmailTemplate.Adaptation.Run
import EmailTemplate.Settings.Config
import EmailTemplate.Template.Check
import EmailTemplate.Template.Render

/-! Requests to adapt a message and to render, list the placeholders of or check a template, as they
arrive from outside, and what is refused before any work is done. -/

namespace EmailTemplate

open Json

/-- A required field is absent or empty, an input is over the limit, or options are no options. -/
inductive RequestError
  | missingField (name : String)
  | inputTooLarge (size limit : Nat)
  | invalidOptions (fault : SettingsFault)
  deriving DecidableEq, Repr

def RequestError.message : RequestError → String
  | missingField name => "missing required field: " ++ name
  | inputTooLarge size limit =>
    "input too large: " ++ toString size ++ " bytes (limit " ++ toString limit ++ ")"
  | invalidOptions fault => "invalid options: " ++ fault.display

def checkSize (size : Nat) (limits : Limits) : Except RequestError Unit :=
  if limits.maxInputBytes < size then .error (.inputTooLarge size limits.maxInputBytes) else .ok ()

def require (name : String) (field : Option String) (limits : Limits) :
    Except RequestError String := do
  let text := field.getD ""
  if text.isEmpty then throw (.missingField name)
  checkSize text.utf8ByteSize limits
  return text

structure AdaptRequest where
  html : Option String
  options : Option AdaptOptions

structure RenderRequest where
  template : Option String
  data : Value

structure TemplateRequest where
  template : Option String

namespace AdaptRequest

structure Draft where
  html : Option (Option String)
  options : Option (Option AdaptOptions)

def Draft.setHtml (r : Draft) (d : Json.Draft) : Decoded Draft := do
  return { r with html := ← once r.html (d.toOption? Json.Draft.toString?) }

def Draft.setOptions (origin : Origin) (r : Draft) (d : Json.Draft) : Decoded Draft := do
  return { r with options := ← once r.options (d.toOption? (AdaptOptions.decode origin)) }

def Draft.finish (r : Draft) : AdaptRequest := ⟨r.html.join, r.options.join⟩

/-- As an array a request must have both fields, be they null. -/
def record (origin : Origin) : Record Draft AdaptRequest where
  start := ⟨none, none⟩
  member r key d :=
    if key = "html" then r.setHtml d
    else if key = "options" then r.setOptions origin d
    else do
      d.skip
      return r
  places := [Draft.setHtml, Draft.setOptions origin]
  finish r := .ok r.finish
  finishArray r filled := if filled < 2 then .error .content else .ok r.finish

def decode (origin : Origin) : Json.Draft → Decoded AdaptRequest := (record origin).decode origin

def run (r : AdaptRequest) (limits : Limits) : Except RequestError AdaptedTemplate := do
  let html ← require "html" r.html limits
  let options := r.options.getD .standard
  if let some fault := options.fault? then throw (.invalidOptions fault)
  return adapt options html

end AdaptRequest

namespace RenderRequest

structure Draft where
  template : Option (Option String)
  data : Option Value

def Draft.setTemplate (r : Draft) (d : Json.Draft) : Decoded Draft := do
  return { r with template := ← once r.template (d.toOption? Json.Draft.toString?) }

def Draft.setData (r : Draft) (d : Json.Draft) : Decoded Draft := do
  return { r with data := ← once r.data (d.toValue? 1) }

/-- Without data an empty object stands in. -/
def Draft.finish (r : Draft) : RenderRequest := ⟨r.template.join, r.data.getD (.object [])⟩

/-- As an array a request must have its template, be it null. -/
def record : Record Draft RenderRequest where
  start := ⟨none, none⟩
  member r key d :=
    if key = "template" then r.setTemplate d
    else if key = "data" then r.setData d
    else do
      d.skip
      return r
  places := [Draft.setTemplate, Draft.setData]
  finish r := .ok r.finish
  finishArray r filled := if filled < 1 then .error .content else .ok r.finish

def decode (origin : Origin) : Json.Draft → Decoded RenderRequest := record.decode origin

def run (r : RenderRequest) (limits : Limits) : Except RequestError Template.Rendered := do
  let template ← require "template" r.template limits
  return Template.render template r.data

end RenderRequest

namespace TemplateRequest

abbrev Draft := Option (Option String)

def Draft.setTemplate (r : Draft) (d : Json.Draft) : Decoded Draft :=
  once r (d.toOption? Json.Draft.toString?)

def record : Record Draft TemplateRequest where
  start := none
  member r key d :=
    if key = "template" then Draft.setTemplate r d
    else do
      d.skip
      return r
  places := [Draft.setTemplate]
  finish r := .ok ⟨r.join⟩
  finishArray r filled := if filled < 1 then .error .content else .ok ⟨r.join⟩

def decode (origin : Origin) : Json.Draft → Decoded TemplateRequest := record.decode origin

def extract (r : TemplateRequest) (limits : Limits) : Except RequestError (List String) := do
  return Template.extract (← require "template" r.template limits)

def validate (r : TemplateRequest) (limits : Limits) : Except RequestError ValidationReport := do
  return Template.validate (← require "template" r.template limits)

end TemplateRequest

end EmailTemplate
