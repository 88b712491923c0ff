import EmailTemplate.Json.Decode
import EmailTemplate.Text.Quoted

/-! What a caller may choose about turning a message into a template. -/

namespace EmailTemplate

open Json

/-- Which calls to action become placeholders: the first and the last, all, or the first three. -/
inductive CtaStrategy
  | topBottom
  | all
  | auto
  deriving DecidableEq, Repr

namespace CtaStrategy

def name : CtaStrategy → String
  | topBottom => "top_bottom"
  | all => "all"
  | auto => "auto"

def named? (s : String) : Option CtaStrategy := [topBottom, all, auto].find? (·.name == s)

end CtaStrategy

structure AdaptOptions where
  detectBlocks : List String
  ctaStrategy : CtaStrategy
  preheaderFallback : Bool
  preserveComments : Bool
  deriving DecidableEq, Repr

/-- Why settings were refused, beyond their form: a block name that is none, or a limit that admits
nothing. -/
inductive SettingsFault
  | blockName (name : String)
  | noInput
  deriving DecidableEq, Repr

def SettingsFault.message : SettingsFault → String
  | blockName name => "adapt.detect_blocks: invalid block name " ++ Text.quoted name ++
      " (use letters, digits, '_' or '-')"
  | noInput => "limits.max_input_bytes must be greater than 0"

/-- A fault as it is shown to a caller. -/
def SettingsFault.display (f : SettingsFault) : String := "Config validation error: " ++ f.message

/-- Block names become part of a token: letters, digits, underscores and dashes. -/
def isBlockName (name : String) : Bool :=
  !name.isEmpty && name.toList.all fun c => Text.isAsciiAlphanumeric c || c == '_' || c == '-'

namespace AdaptOptions

def standard : AdaptOptions := ⟨["speakers", "agenda", "hero", "footer"], .auto, true, false⟩

/-- The first block name that is none. -/
def fault? (o : AdaptOptions) : Option SettingsFault :=
  (o.detectBlocks.find? fun name => !isBlockName name).map .blockName

def encode (o : AdaptOptions) : Value :=
  .object [("detect_blocks", Value.strings o.detectBlocks),
    ("cta_strategy", .string o.ctaStrategy.name),
    ("preheader_fallback", .bool o.preheaderFallback),
    ("preserve_comments", .bool o.preserveComments)]

structure Draft where
  detectBlocks : Option (List String)
  ctaStrategy : Option CtaStrategy
  preheaderFallback : Option Bool
  preserveComments : Option Bool

def Draft.setDetectBlocks (o : Draft) (d : Json.Draft) : Decoded Draft := do
  return { o with detectBlocks := ← once o.detectBlocks (d.toList? Json.Draft.toString?) }

def Draft.setCtaStrategy (origin : Origin) (o : Draft) (d : Json.Draft) : Decoded Draft := do
  return { o with ctaStrategy := ← once o.ctaStrategy (d.toName? origin CtaStrategy.named?) }

def Draft.setPreheaderFallback (o : Draft) (d : Json.Draft) : Decoded Draft := do
  return { o with preheaderFallback := ← once o.preheaderFallback d.toBool? }

def Draft.setPreserveComments (o : Draft) (d : Json.Draft) : Decoded Draft := do
  return { o with preserveComments := ← once o.preserveComments d.toBool? }

/-- What is not given is standard. -/
def Draft.finish (o : Draft) : AdaptOptions :=
  ⟨o.detectBlocks.getD standard.detectBlocks, o.ctaStrategy.getD standard.ctaStrategy,
    o.preheaderFallback.getD standard.preheaderFallback,
    o.preserveComments.getD standard.preserveComments⟩

/-- Every option has a second spelling; a member that is no option is refused. -/
def record (origin : Origin) : Record Draft AdaptOptions where
  start := ⟨none, none, none, none⟩
  member o key d :=
    if key = "detect_blocks" ∨ key = "detectBlocks" then o.setDetectBlocks d
    else if key = "cta_strategy" ∨ key = "ctaStrategy" then o.setCtaStrategy origin d
    else if key = "preheader_fallback" ∨ key = "preheaderFallback" then o.setPreheaderFallback d
    else if key = "preserve_comments" ∨ key = "preserveComments" then o.setPreserveComments d
    else throw .content
  places := [Draft.setDetectBlocks, Draft.setCtaStrategy origin, Draft.setPreheaderFallback,
    Draft.setPreserveComments]
  finish o := .ok o.finish
  finishArray o _ := .ok o.finish

def decode (origin : Origin) : Json.Draft → Decoded AdaptOptions := (record origin).decode origin

end AdaptOptions

end EmailTemplate
