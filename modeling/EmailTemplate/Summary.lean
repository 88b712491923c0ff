import EmailTemplate.Manifest.Basic

/-! The lines that tell a person what was found: a numbered line for each thing, with where it came
from. -/

namespace EmailTemplate.Summary

/-- A position counted from one, in three digits at least. -/
def index (n : Nat) : String :=
  let digits := Nat.toDigits 10 n
  String.ofList (List.replicate (3 - digits.length) '0' ++ digits)

def indent : String := "    "

def plural (n : Nat) (noun : String) : String :=
  toString n ++ " " ++ noun ++ (if n = 1 then "" else "s")

/-- The longest label that is shown whole. -/
def labelLength : Nat := 40

def label (text : String) : String :=
  let chars := text.toList
  if chars.length ≤ labelLength then text else String.ofList (chars.take labelLength) ++ "..."

/-- Lines for a list of things, each with its position. -/
def numbered {α : Type} (lines : Nat → α → List String) (items : List α) : List String :=
  items.zipIdx.flatMap fun (item, i) => lines (i + 1) item

def kindLabel : PlaceholderKind → String
  | .text => "text"
  | .url => "url"
  | .image => "image"
  | .block => "block"
  | .loop => "loop"

def valueLine (n : Nat) (p : Placeholder) : List String :=
  [index n ++ " " ++ p.name ++ " (" ++ kindLabel p.kind ++ ") <- " ++ p.selectorHint]

def blockLine (n : Nat) (p : Placeholder) : List String :=
  [index n ++ " " ++ p.name ++ " <- " ++ p.selectorHint]

def ctaLines (n : Nat) (c : Cta) : List String :=
  [index n ++ " " ++ label c.text, indent ++ "Link: " ++ c.href]

/-- A section with a heading, apart from what is before it; nothing if it is empty. -/
def headed (heading : String) (lines : List String) : List String :=
  if lines.isEmpty then [] else "" :: heading :: lines

def ofTemplate (t : AdaptedTemplate) : List String :=
  let blocks := t.placeholders.filter (·.kind == .block)
  let values := t.placeholders.filter (·.kind != .block)
  "Placeholders" ::
    (if values.isEmpty then [indent ++ "(none)"] else numbered valueLine values) ++
    headed "Blocks" (numbered blockLine blocks) ++
    headed "CTAs" (numbered ctaLines t.details.detectedCtas) ++
    ["", "Meta",
      indent ++ "Preheader: " ++ (if t.details.supportsPreheader then "yes" else "no"),
      indent ++ "Footer: " ++ (if t.details.detectedFooter then "detected" else "not found")]

def ofReport (r : ValidationReport) : List String :=
  ((if r.valid then "Valid" else "Invalid") ++ " (" ++
      plural r.placeholders.length "placeholder" ++ ")") ::
    numbered (fun n name => [index n ++ " " ++ name]) r.placeholders ++
    headed "Errors" (r.errors.map (indent ++ ·)) ++
    headed "Warnings" (r.warnings.map (indent ++ ·))

/-- One file of many, adapted. -/
def batchLine (source target : String) (t : AdaptedTemplate) : String :=
  let blocks := t.details.hasBlocks.length
  source ++ " -> " ++ target ++ " (" ++
    plural (t.placeholders.length - min blocks t.placeholders.length) "placeholder" ++ ", " ++
    plural blocks "block" ++ ")"

def batchFailure (source reason : String) : String := source ++ " -> FAILED: " ++ reason

def batchTotal (adapted failed : Nat) : String :=
  "Adapted " ++ plural adapted "file" ++ ", " ++ toString failed ++ " failed"

end EmailTemplate.Summary
