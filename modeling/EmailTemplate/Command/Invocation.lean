import EmailTemplate.Command.Arguments
import EmailTemplate.Settings.Config
import EmailTemplate.Text.Blank

/-! The commands of the program, and how arguments spell them. -/

namespace EmailTemplate.Command

/-- What the arguments of a command change about the options in the settings. -/
structure Overrides where
  ctaStrategy : Option CtaStrategy
  noPreheaderFallback : Bool
  preserveComments : Bool
  blocks : Option (List String)

inductive Invocation
  | adapt (file : String) (out : Option String) (overrides : Overrides)
  | adaptAll (directory out : String) (overrides : Overrides)
  | render (template : String) (data textOut out : Option String)
  | extract (template : String)
  | validate (template : String)
  | sample

def Overrides.apply (v : Overrides) (o : AdaptOptions) : AdaptOptions where
  ctaStrategy := v.ctaStrategy.getD o.ctaStrategy
  preheaderFallback := !v.noPreheaderFallback && o.preheaderFallback
  preserveComments := v.preserveComments || o.preserveComments
  detectBlocks := v.blocks.getD o.detectBlocks

/-! ### Signatures -/

/-- Options that stand before or after the name of a command. -/
def everywhere : List (String × OptionKind) := [("log-json", .switch), ("config-dir", .path)]

def adaptOptions : List (String × OptionKind) :=
  [("cta-strategy", .strategy), ("no-preheader-fallback", .switch), ("preserve-comments", .switch),
    ("blocks", .names), ("out", .path)]

def renderOptions : List (String × OptionKind) :=
  [("data", .path), ("text-out", .path), ("out", .path)]

/-- The signature of a command; it may need all of its operands, and does. -/
def signature? (name : String) : Option Signature :=
  if name = "adapt" ∨ name = "adapt-dir" then some ⟨everywhere ++ adaptOptions, 1⟩
  else if name = "render" then some ⟨everywhere ++ renderOptions, 1⟩
  else if name = "extract" ∨ name = "validate" then some ⟨everywhere, 1⟩
  else if name = "gen-config" then some ⟨everywhere, 0⟩
  else none

/-! ### Reading a command -/

def Given.value? (g : Given) (name : String) : Option String := g.options.lookup name

def Given.has (g : Given) (name : String) : Bool := (g.value? name).isSome

def strategyNamed? (spelling : String) : Option CtaStrategy :=
  if spelling = "top-bottom" then some .topBottom else CtaStrategy.named? spelling

/-- The names in a list between commas, without blanks around them. -/
def splitNames (value : String) : List String :=
  (Text.splitBy (· == ',') value.toList).map fun name => String.ofList (Text.trim name)

/-- Lists of names that are given one after the other make one list. -/
def Given.names? (g : Given) (name : String) : Option (List String) :=
  let values := (g.options.filter (·.1 == name)).map (·.2)
  if values.isEmpty then none else some (values.flatMap splitNames)

def Given.overrides (g : Given) : Overrides where
  ctaStrategy := (g.value? "cta-strategy").bind strategyNamed?
  noPreheaderFallback := g.has "no-preheader-fallback"
  preserveComments := g.has "preserve-comments"
  blocks := g.names? "blocks"

def Given.invocation? (g : Given) (name : String) : Option Invocation :=
  match name, g.operands with
  | "adapt", [file] => some (.adapt file (g.value? "out") g.overrides)
  | "adapt-dir", [directory] =>
    (g.value? "out").map fun out => .adaptAll directory out g.overrides
  | "render", [template] =>
    some (.render template (g.value? "data") (g.value? "text-out") (g.value? "out"))
  | "extract", [template] => some (.extract template)
  | "validate", [template] => some (.validate template)
  | "gen-config", [] => some .sample
  | _, _ => none

/-- A command with the directory of its settings file. What is given after the name of the command
goes before what is given ahead of it. -/
def read (args : List String) : Except Usage (String × Invocation) := do
  let (before, rest) ← take ⟨everywhere, 0⟩ true ⟨[], []⟩ args
  match rest with
  | [] => throw .wrong
  | name :: rest =>
    if name = "help" then throw .help
    match signature? name with
    | none => throw .wrong
    | some signature =>
      let (given, _) ← take signature false ⟨[], []⟩ rest
      match given.invocation? name with
      | none => throw .wrong
      | some invocation =>
        let directory := (given.value? "config-dir").or (before.value? "config-dir")
        return (directory.getD ".", invocation)

end EmailTemplate.Command
