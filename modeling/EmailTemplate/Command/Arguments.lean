import EmailTemplate.Text.Find

/-! Arguments of a program: switches, options with a value, and operands, as a signature tells them
apart. -/

namespace EmailTemplate.Command

open Text

/-- What an option takes: nothing, a path, the name of a strategy, or names between commas. -/
inductive OptionKind
  | switch
  | path
  | strategy
  | names
  deriving DecidableEq, Repr

/-- The options that are known, and how many operands there may be. -/
structure Signature where
  options : List (String × OptionKind)
  operands : Nat

/-- Why there is nothing to run: the arguments are wrong, or they ask for a text. -/
inductive Usage
  | wrong
  | help
  | version
  deriving DecidableEq, Repr

/-- What was given, in order; a switch has an empty value. -/
structure Given where
  options : List (String × String)
  operands : List String

def strategySpellings : List String := ["auto", "all", "top_bottom", "top-bottom"]

def OptionKind.accepts : OptionKind → String → Bool
  | switch, value => value.isEmpty
  | path, value => !value.isEmpty
  | strategy, value => strategySpellings.contains value
  | names, _ => true

/-- An option that is given again must be a list of names. -/
def Given.add (g : Given) (name : String) (kind : OptionKind) (value : String) :
    Except Usage Given :=
  if !kind.accepts value then .error .wrong
  else if kind ≠ .names ∧ g.options.any (·.1 == name) then .error .wrong
  else .ok { g with options := g.options ++ [(name, value)] }

/-- No operand is empty, as all of them are paths. -/
def Given.addOperand (g : Given) (signature : Signature) (value : String) : Except Usage Given :=
  if value.isEmpty ∨ signature.operands ≤ g.operands.length then .error .wrong
  else .ok { g with operands := g.operands ++ [value] }

/-- A long option without its dashes: its name, and the value after an equals sign. -/
def splitOption (text : List Char) : String × Option String :=
  match splitFirst? ['='] text with
  | some (name, value) => (String.ofList name, some (String.ofList value))
  | none => (String.ofList text, none)

/-- Letters after a single dash. They change how much is said on the way, which is not modelled,
or ask for a text. -/
def shortOptions (versioned : Bool) : List Char → Except Usage Unit
  | [] => .ok ()
  | c :: rest =>
    if c = 'v' then shortOptions versioned rest
    else if c = 'h' then .error .help
    else if c = 'V' ∧ versioned then .error .version
    else .error .wrong

/-- Whether an argument is not an option but a value. -/
def isPlain (arg : String) : Bool :=
  match arg.toList with
  | '-' :: _ :: _ => false
  | _ => true

def takeOperands (signature : Signature) (g : Given) : List String → Except Usage Given
  | [] => .ok g
  | arg :: rest => do takeOperands signature (← g.addOperand signature arg) rest

/-- An option by its long name. If its value is still to come, the outcome is what it takes. -/
def takeLong (signature : Signature) (versioned : Bool) (g : Given) (text : List Char) :
    Except Usage (Given ⊕ (String × OptionKind)) :=
  let (name, value) := splitOption text
  if name = "help" ∧ value = none then .error .help
  else if name = "version" ∧ versioned ∧ value = none then .error .version
  else if name = "verbose" ∧ value = none then .ok (.inl g)
  else
    match signature.options.lookup name, value with
    | none, _ => .error .wrong
    | some .switch, none => (g.add name .switch "").map .inl
    | some .switch, some _ => .error .wrong
    | some kind, some value => (g.add name kind value).map .inl
    | some kind, none => .ok (.inr (name, kind))

/-- Reads arguments; `stops` leaves the first operand and what follows it. -/
def take (signature : Signature) (stops : Bool) (g : Given) :
    List String → Except Usage (Given × List String)
  | [] => .ok (g, [])
  | arg :: rest =>
    match arg.toList with
    | ['-', '-'] =>
      if stops then .error .wrong else (takeOperands signature g rest).map (·, [])
    | '-' :: '-' :: text =>
      match takeLong signature stops g text with
      | .error usage => .error usage
      | .ok (.inl g) => take signature stops g rest
      | .ok (.inr (name, kind)) =>
        match rest with
        | [] => .error .wrong
        | value :: rest =>
          if isPlain value then
            match g.add name kind value with
            | .error usage => .error usage
            | .ok g => take signature stops g rest
          else .error .wrong
    | '-' :: c :: letters =>
      match shortOptions stops (c :: letters) with
      | .error usage => .error usage
      | .ok () => take signature stops g rest
    | _ =>
      if stops then .ok (g, arg :: rest)
      else
        match g.addOperand signature arg with
        | .error usage => .error usage
        | .ok g => take signature stops g rest

end EmailTemplate.Command
