import EmailTemplate.Settings.Options

/-! The settings of a whole run: options, limits, and how much is done at once. -/

namespace EmailTemplate

open Json

/-- The largest input accepted, in bytes. -/
structure Limits where
  maxInputBytes : Nat
  deriving DecidableEq, Repr

/-- The number of workers, none for as many as the machine has. -/
structure Processing where
  maxProcesses : Option Nat
  deriving DecidableEq, Repr

structure Config where
  adapt : AdaptOptions
  limits : Limits
  processing : Processing
  deriving DecidableEq, Repr

namespace Limits

def standard : Limits := ⟨2097152⟩

def encode (l : Limits) : Value := .object [("max_input_bytes", .natural l.maxInputBytes)]

abbrev Draft := Option Nat

def Draft.setMaxInputBytes (l : Draft) (d : Json.Draft) : Decoded Draft := once l d.toNat?

def record : Record Draft Limits where
  start := none
  member l key d := if key = "max_input_bytes" then Draft.setMaxInputBytes l d else throw .content
  places := [Draft.setMaxInputBytes]
  finish l := .ok ⟨l.getD standard.maxInputBytes⟩
  finishArray l _ := .ok ⟨l.getD standard.maxInputBytes⟩

def decode (origin : Origin) : Json.Draft → Decoded Limits := record.decode origin

end Limits

namespace Processing

def standard : Processing := ⟨none⟩

def encode (p : Processing) : Value :=
  .object [("max_processes", p.maxProcesses.elim .null .natural)]

abbrev Draft := Option (Option Nat)

def Draft.setMaxProcesses (p : Draft) (d : Json.Draft) : Decoded Draft :=
  once p (d.toOption? Json.Draft.toNat?)

def record : Record Draft Processing where
  start := none
  member p key d := if key = "max_processes" then Draft.setMaxProcesses p d else throw .content
  places := [Draft.setMaxProcesses]
  finish p := .ok ⟨p.join⟩
  finishArray p _ := .ok ⟨p.join⟩

def decode (origin : Origin) : Json.Draft → Decoded Processing := record.decode origin

/-- The workers used on a machine of so many cores: no more than those, and one at least. -/
def effectiveThreads (p : Processing) (cores : Nat) : Nat :=
  p.maxProcesses.elim cores fun n => max 1 (min n cores)

end Processing

namespace Config

def standard : Config := ⟨.standard, .standard, .standard⟩

def fault? (c : Config) : Option SettingsFault :=
  c.adapt.fault?.or (if c.limits.maxInputBytes = 0 then some .noInput else none)

def encode (c : Config) : Value :=
  .object [("adapt", c.adapt.encode), ("limits", c.limits.encode),
    ("processing", c.processing.encode)]

structure Draft where
  adapt : Option AdaptOptions
  limits : Option Limits
  processing : Option Processing

def Draft.setAdapt (origin : Origin) (c : Draft) (d : Json.Draft) : Decoded Draft := do
  return { c with adapt := ← once c.adapt (AdaptOptions.decode origin d) }

def Draft.setLimits (origin : Origin) (c : Draft) (d : Json.Draft) : Decoded Draft := do
  return { c with limits := ← once c.limits (Limits.decode origin d) }

def Draft.setProcessing (origin : Origin) (c : Draft) (d : Json.Draft) : Decoded Draft := do
  return { c with processing := ← once c.processing (Processing.decode origin d) }

def Draft.finish (c : Draft) : Config :=
  ⟨c.adapt.getD .standard, c.limits.getD .standard, c.processing.getD .standard⟩

def record (origin : Origin) : Record Draft Config where
  start := ⟨none, none, none⟩
  member c key d :=
    if key = "adapt" then c.setAdapt origin d
    else if key = "limits" then c.setLimits origin d
    else if key = "processing" then c.setProcessing origin d
    else throw .content
  places := [Draft.setAdapt origin, Draft.setLimits origin, Draft.setProcessing origin]
  finish c := .ok c.finish
  finishArray c _ := .ok c.finish

def decode (origin : Origin) : Json.Draft → Decoded Config := (record origin).decode origin

end Config

end EmailTemplate
