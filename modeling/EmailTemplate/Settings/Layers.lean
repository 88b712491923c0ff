import EmailTemplate.Files.Store
import EmailTemplate.Settings.Config
import EmailTemplate.Toml.Document

/-! Settings in layers: a file lies over the standard settings and changes what it names. -/

namespace EmailTemplate

def settingsFile : String := "mailmold.toml"

/-- Why settings could not be had: the file cannot be read, it is malformed, or a value in it is
out of its range. -/
inductive SettingsError
  | unreadable (fault : Files.Fault)
  | malformed
  | invalid (fault : SettingsFault)
  deriving DecidableEq, Repr

namespace Config

/-- The standard settings as a table; how many workers there are is left open. -/
def standardTable : Toml.Value :=
  .table [("adapt", .table
      [("cta_strategy", .string AdaptOptions.standard.ctaStrategy.name),
        ("detect_blocks", .array (AdaptOptions.standard.detectBlocks.map .string)),
        ("preheader_fallback", .boolean AdaptOptions.standard.preheaderFallback),
        ("preserve_comments", .boolean AdaptOptions.standard.preserveComments)]),
    ("limits", .table [("max_input_bytes", .integer Limits.standard.maxInputBytes)]),
    ("processing", .table [])]

/-- The settings in a table, if they are settings and within their range. -/
def ofTable (v : Toml.Value) : Except SettingsError Config := do
  let config ← (decode .settings v.draft).mapError fun _ => .malformed
  match config.fault? with
  | some fault => throw (.invalid fault)
  | none => return config

def resolve (base : Toml.Value) (layer : Option Toml.Value) : Except SettingsError Config :=
  ofTable (layer.elim base base.overlay)

def readTable (text : String) : Except SettingsError Toml.Value :=
  (Toml.parse? text).elim (.error .malformed) .ok

/-- The settings of a file with the given bytes, or without a file. -/
def load (file : Option ByteArray) : Except SettingsError Config := do
  match file with
  | none => resolve standardTable none
  | some bytes =>
    match String.fromUTF8? bytes with
    | none => throw (.unreadable .notText)
    | some text => resolve standardTable (some (← readTable text))

end Config

end EmailTemplate
