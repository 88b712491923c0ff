import EmailTemplate.Command.Invocation
import EmailTemplate.Files.Path
import EmailTemplate.Files.Store
import EmailTemplate.Manifest.Codec
import EmailTemplate.Request
import EmailTemplate.Settings.Layers
import EmailTemplate.Settings.Sample
import EmailTemplate.Summary

/-! Running a command on a file system. -/

namespace EmailTemplate.Command

open Files

inductive Failure
  | settings (e : SettingsError)
  | request (e : RequestError)
  | file (f : Fault)
  | data
  | batch (failed : Nat)
  deriving DecidableEq, Repr

/-! ### Reporting a failure -/

/-- A record with named fields as a report shows it. -/
def showFields (name : String) (fields : List (String × String)) : String :=
  name ++ " \x7b " ++ ", ".intercalate (fields.map fun (field, value) => field ++ ": " ++ value) ++
    " \x7d"

def showCase (name content : String) : String := name ++ "(" ++ content ++ ")"

def reportFault (f : Fault) : String :=
  match f.system? with
  | some (number, kind, wording) =>
    showFields "Os" [("code", toString number), ("kind", kind), ("message", Text.quoted wording)]
  | none => showFields "Error" [("kind", "InvalidData"), ("message", Text.quoted f.wording)]

def reportSettings : SettingsError → String
  | .unreadable fault => showCase "Io" (reportFault fault)
  | .malformed => showCase "Toml" (Text.quoted "malformed settings")
  | .invalid fault => showCase "Validation" (Text.quoted fault.message)

def reportRequest : RequestError → String
  | .missingField name => showCase "MissingField" (Text.quoted name)
  | .inputTooLarge size limit =>
    showFields "InputTooLarge" [("size", toString size), ("limit", toString limit)]
  | .invalidOptions fault => showCase "InvalidOptions" (Text.quoted fault.display)

def Failure.report : Failure → String
  | settings e => reportSettings e
  | request e => reportRequest e
  | file f => reportFault f
  | data => showCase "Error" (Text.quoted "malformed data")
  | batch failed => Text.quoted (toString failed ++ " file(s) failed to adapt")

def Failure.message : Failure → String
  | request e => e.message
  | file f => f.message
  | e => e.report

/-! ### Steps -/

/-- What a command shows: text as its result, lines on the side, and the failure that it ends
with. -/
structure Shown where
  output : String
  notes : List String
  failure : Option Failure

variable {m : Type → Type} [Monad m] [Store m]

abbrev Step (m : Type → Type) := ExceptT Failure m

def readBytes (path : String) : Step m ByteArray :=
  ExceptT.mk do return (← Store.read path).mapError .file

def textOf (bytes : ByteArray) : Except Failure String :=
  match String.fromUTF8? bytes with
  | some text => .ok text
  | none => .error (.file .notText)

def readText (path : String) : Step m String := do
  let bytes ← readBytes path
  ExceptT.mk (pure (textOf bytes))

def writeText (path text : String) : Step m Unit :=
  ExceptT.mk do return (← Store.write path text).mapError .file

def makeDirectories (path : String) : Step m Unit :=
  ExceptT.mk do return (← Store.makeDirectories path).mapError .file

def check {α : Type} (result : Except RequestError α) : Step m α :=
  ExceptT.mk (pure (result.mapError .request))

/-- The settings in a directory. A file that is not there is as good as an empty one. -/
def loadSettings (directory : String) : Step m Config := ExceptT.mk do
  let loaded := match ← Store.read (join directory [settingsFile]) with
    | .ok bytes => Config.load (some bytes)
    | .error .missing | .error .notDirectory => Config.load none
    | .error fault => .error (.unreadable fault)
  return loaded.mapError .settings

def chosenOptions (config : Config) (overrides : Overrides) : Except Failure AdaptOptions :=
  let options := overrides.apply config.adapt
  match options.fault? with
  | some fault => .error (.settings (.invalid fault))
  | none => .ok options

/-- The text of a message that is not over the limit. -/
def readMessage (limits : Limits) (path : String) : Step m String := do
  let bytes ← readBytes path
  check (checkSize bytes.size limits)
  ExceptT.mk (pure (textOf bytes))

/-- A template: the one in a template file, or else the content of the file. -/
def templateOf (content : String) : String :=
  match Json.decodeText (AdaptedTemplate.decode .text) content with
  | .ok t => t.html
  | .error _ => content

def readTemplate (path : String) : Step m String := templateOf <$> readText path

/-! ### Commands -/

def runAdapt (config : Config) (options : AdaptOptions) (file : String) (out : Option String) :
    Step m Shown := do
  let template := adapt options (← readMessage config.limits file)
  let text := template.encode.pretty
  match out with
  | none => return ⟨text ++ "\n", [], none⟩
  | some path =>
    writeText path text
    return ⟨"", Summary.ofTemplate template, none⟩

/-- The names of the template file for a message below a directory, if the message has a name. -/
def targetNames? (names : List String) : Option (List String) :=
  names.getLast?.map fun name => names.dropLast ++ [stem name ++ ".template.json"]

/-- Turns one of many messages into a template file in the same place of another directory. -/
def adaptOne (config : Config) (options : AdaptOptions) (directory out : String)
    (names : List String) : Step m (List String × AdaptedTemplate) := do
  let template := adapt options (← readMessage config.limits (join directory names))
  match targetNames? names with
  | none => throw (.file (.other ("unusable file name: " ++ join directory names)))
  | some target =>
    makeDirectories (join out target.dropLast)
    writeText (join out target) template.encode.pretty
    return (target, template)

def batchLine (names : List String) :
    Except Failure (List String × AdaptedTemplate) → String
  | .ok (target, t) => Summary.batchLine (ofParts names) (ofParts target) t
  | .error e => Summary.batchFailure (ofParts names) e.message

/-- The messages below a directory in order of their names. -/
def messagesBelow (directory : String) : m (List (List String)) := do
  let found ← Store.filesBelow directory
  let isMessage (names : List String) : Bool :=
    ((parts directory ++ names).getLast?).any isMessageName
  return (found.filter isMessage).mergeSort pathLe

def runAdaptAll (config : Config) (options : AdaptOptions) (directory out : String) :
    m Shown := do
  let sources ← messagesBelow directory
  let results ← sources.mapM fun names => do
    return (names, ← (adaptOne config options directory out names).run)
  let failed := results.countP fun r => r.2 matches .error _
  let notes := results.map (fun r => batchLine r.1 r.2) ++
    [Summary.batchTotal (results.length - failed) failed]
  return ⟨"", notes, if failed = 0 then none else some (.batch failed)⟩

def parseData (text : String) : Except Failure Json.Value :=
  (Json.parse? text).mapError fun _ => .data

def readData : Option String → Step m Json.Value
  | none => return .object []
  | some path => do
    let text ← readText path
    ExceptT.mk (pure (parseData text))

def runRender (config : Config) (template : String) (data textOut out : Option String) :
    Step m Shown := do
  let data ← readData data
  let request : RenderRequest := ⟨some (← readTemplate template), data⟩
  let rendered ← check (request.run config.limits)
  if let some path := textOut then writeText path rendered.text
  match out with
  | none => return ⟨rendered.html ++ "\n", [], none⟩
  | some path =>
    writeText path rendered.html
    return ⟨"", [], none⟩

def runExtract (config : Config) (template : String) : Step m Shown := do
  let request : TemplateRequest := ⟨some (← readTemplate template)⟩
  let names ← check (request.extract config.limits)
  let listing := Json.Value.object [("placeholders", Json.Value.strings names)]
  return ⟨listing.pretty ++ "\n", [], none⟩

def runValidate (config : Config) (template : String) : Step m Shown := do
  let request : TemplateRequest := ⟨some (← readTemplate template)⟩
  let report ← check (request.validate config.limits)
  return ⟨String.join ((Summary.ofReport report).map (· ++ "\n")), [], none⟩

/-- Runs a command with the settings in a directory. The sample needs no settings. -/
def run (directory : String) : Invocation → Step m Shown
  | .sample => return ⟨sampleSettings, [], none⟩
  | .adapt file out overrides => do
    let config ← loadSettings directory
    let options ← ExceptT.mk (pure (chosenOptions config overrides))
    runAdapt config options file out
  | .adaptAll source out overrides => do
    let config ← loadSettings directory
    let options ← ExceptT.mk (pure (chosenOptions config overrides))
    ExceptT.lift (runAdaptAll config options source out)
  | .render template data textOut out => do
    runRender (← loadSettings directory) template data textOut out
  | .extract template => do runExtract (← loadSettings directory) template
  | .validate template => do runValidate (← loadSettings directory) template

/-! ### The whole program -/

/-- How a run ends: its exit code, and what it writes to its two streams. -/
structure Outcome where
  code : Nat
  output : String
  errors : String
  deriving DecidableEq, Repr

def Outcome.ofUsage : Usage → Outcome
  | .wrong => ⟨2, "", "error: invalid arguments\n"⟩
  | .help => ⟨0, "Usage: mailmold [OPTIONS] <COMMAND>\n", ""⟩
  | .version => ⟨0, "mailmold 0.1.0\n", ""⟩

/-- Lines on the side go first, then the failure. -/
def Outcome.ofShown (s : Shown) : Outcome :=
  let notes := String.join (s.notes.map (· ++ "\n"))
  match s.failure with
  | none => ⟨0, s.output, notes⟩
  | some e => ⟨1, s.output, notes ++ "Error: " ++ e.report ++ "\n"⟩

def Outcome.ofResult : Except Failure Shown → Outcome
  | .ok s => .ofShown s
  | .error e => .ofShown ⟨"", [], some e⟩

def runArguments (args : List String) : m Outcome :=
  match read args with
  | .error usage => pure (.ofUsage usage)
  | .ok (directory, invocation) => do return .ofResult (← (run directory invocation).run)

end EmailTemplate.Command
