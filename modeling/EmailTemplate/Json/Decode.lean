import EmailTemplate.Json.Draft

/-! From trees to typed values. A decoder meets the parts of a tree in the order of the text, so
the first fault decides. -/

namespace EmailTemplate.Json

/-- Where a tree comes from, which decides how some misfits count. -/
inductive Origin
  | text
  | tree
  | settings
  deriving DecidableEq, Repr

/-- A misfit at a place where text can only be told to go on otherwise. -/
def Origin.misfit : Origin → Fault
  | .text => .grammar
  | _ => .content

/-- Containers may stand this deep in one another. -/
def maxDepth : Nat := 127

abbrev Decoded := Except Fault

namespace Draft

def wrongKind : Draft → Fault
  | .flawed _ => .grammar
  | .broken fault => fault
  | _ => .content

def toString? : Draft → Decoded String
  | .string s => .ok s
  | d => .error d.wrongKind

def toBool? : Draft → Decoded Bool
  | .bool b => .ok b
  | d => .error d.wrongKind

def toNat? : Draft → Decoded Nat
  | .number (.integer n) => if 0 ≤ n then .ok n.toNat else .error .content
  | d => .error d.wrongKind

def toOption? {α : Type} (decode : Draft → Decoded α) : Draft → Decoded (Option α)
  | .null => .ok none
  | d => some <$> decode d

/-- What stands after the last part of a container. -/
def close : Option Fault → Decoded Unit
  | none => .ok ()
  | some fault => .error fault

def toList? {α : Type} (decode : Draft → Decoded α) : Draft → Decoded (List α)
  | .array items ending => do
    let done ← items.mapM decode
    close ending
    return done
  | d => .error d.wrongKind

/-- One of a list of names, written as a string or as the only key of an object: that key holds
null in data, and an empty table in settings. -/
def toName? {α : Type} (origin : Origin) (named? : String → Option α) : Draft → Decoded α
  | .string s => (named? s).elim (.error .content) .ok
  | .object [] none => .error origin.misfit
  | .object [] (some fault) => .error fault
  | .object ((none, _) :: _) _ => .error .grammar
  | .object ((some key, payload) :: more) ending => do
    let named ← (named? key).elim (.error .content) Except.ok
    match origin, payload with
    | .settings, .object [] none => pure ()
    | .settings, .array [] none => pure ()
    | .settings, _ => throw .content
    | _, .null => pure ()
    | _, d => throw d.wrongKind
    if !more.isEmpty then throw origin.misfit
    close ending
    return named
  | .flawed _ => .error .grammar
  | .broken fault => .error fault
  | _ => .error origin.misfit

mutual

/-- Passes over a tree that nobody wants, flaws and all. -/
def skip : Draft → Decoded Unit
  | .array items ending => do
    skipItems items
    close ending
  | .object members ending => do
    skipMembers members
    close ending
  | .flawed ending => close ending
  | .broken fault => .error fault
  | _ => .ok ()

def skipItems : List Draft → Decoded Unit
  | [] => .ok ()
  | d :: rest => do
    skip d
    skipItems rest

def skipMembers : List (Option String × Draft) → Decoded Unit
  | [] => .ok ()
  | (_, d) :: rest => do
    skip d
    skipMembers rest

end

mutual

/-- Free-form data inside `depth` containers. -/
def toValue? (depth : Nat) : Draft → Decoded Value
  | .null => .ok .null
  | .bool b => .ok (.bool b)
  | .number n => .ok (.number n)
  | .string s => .ok (.string s)
  | .array items ending => do
    if maxDepth ≤ depth then throw .grammar
    let done ← itemValues (depth + 1) items
    close ending
    return .array done
  | .object members ending => do
    if maxDepth ≤ depth then throw .grammar
    let done ← memberValues (depth + 1) members
    close ending
    return .object (sortMembers done)
  | .flawed _ => .error .grammar
  | .broken fault => .error fault

def itemValues (depth : Nat) : List Draft → Decoded (List Value)
  | [] => .ok []
  | d :: rest => do
    let v ← toValue? depth d
    let values ← itemValues depth rest
    return v :: values

def memberValues (depth : Nat) : List (Option String × Draft) → Decoded (List (String × Value))
  | [] => .ok []
  | (none, _) :: _ => .error .grammar
  | (some key, d) :: rest => do
    let v ← toValue? depth d
    let members ← memberValues depth rest
    return (key, v) :: members

end

end Draft

/-! ### Records

A record is written as an object or as an array of its fields in order. Its decoder starts from an
empty draft of the record, `ρ`, and fills in one field after the other. -/

/-- How to read a record: what a member of an object does, what an item of an array does that
stands at a place, how many places there are, and how to finish an object or an array. -/
structure Record (ρ α : Type) where
  start : ρ
  member : ρ → String → Draft → Decoded ρ
  places : List (ρ → Draft → Decoded ρ)
  finish : ρ → Decoded α
  finishArray : ρ → Nat → Decoded α

/-- Fills a field that must not be filled twice. -/
def once {β : Type} (slot : Option β) (value : Decoded β) : Decoded (Option β) :=
  if slot.isSome then .error .content else some <$> value

def required {β : Type} (slot : Option β) : Decoded β := slot.elim (.error .content) .ok

namespace Record

variable {ρ α : Type}

def members (r : Record ρ α) : ρ → List (Option String × Draft) → Decoded ρ
  | part, [] => .ok part
  | _, (none, _) :: _ => .error .grammar
  | part, (some key, d) :: rest => do
    let next ← r.member part key d
    r.members next rest

/-- Fills places from items; what is left of the items may not be more than nothing. -/
def items (origin : Origin) : List (ρ → Draft → Decoded ρ) → ρ → List Draft → Option Fault → Nat →
    Decoded (ρ × Nat)
  | _, part, [], none, n => .ok (part, n)
  | _, _, [], some fault, _ => .error fault
  | [], _, _ :: _, _, _ => .error origin.misfit
  | place :: places, part, d :: rest, ending, n => do
    let next ← place part d
    items origin places next rest ending (n + 1)

def decode (r : Record ρ α) (origin : Origin) : Draft → Decoded α
  | .object members ending => do
    let part ← r.members r.start members
    Draft.close ending
    r.finish part
  | .array items ending => do
    let (part, filled) ← Record.items origin r.places r.start items ending 0
    r.finishArray part filled
  | d => .error d.wrongKind

end Record

/-- Decodes the whole of a text: after the value nothing may follow. -/
def decodeText {α : Type} (decode : Draft → Decoded α) (text : String) : Decoded α :=
  let (draft, trailing) := Draft.parse text
  do
    let value ← decode draft
    Draft.close trailing
    return value

def parse? (text : String) : Decoded Value := decodeText (Draft.toValue? 0) text

end EmailTemplate.Json
