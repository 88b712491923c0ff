import EmailTemplate.Toml.Value

/-! Building tables from the lines of a settings file. A table may be named by a header, be implied
by a longer header, or come from a dotted key, and each may be continued in its own way only. -/

namespace EmailTemplate.Toml

open Json (lookup? insertMember)

inductive Mark
  | header
  | implied
  | dotted
  deriving DecidableEq, Repr

/-- What stands under a key while a file is read: a finished value, a table that may grow, or the
tables of one repeated header, of which the last may grow. -/
inductive Node
  | value (v : Value)
  | table (mark : Mark) (members : List (String × Node))
  | tables (earlier : List (List (String × Node))) (last : List (String × Node))
  deriving Inhabited

abbrev Members := List (String × Node)

namespace Members

/-- Puts a value under a key that is not taken. -/
def put? (key : String) (v : Value) (m : Members) : Option Members :=
  if (lookup? key m).isSome then none else some (insertMember key (.value v) m)

/-- Puts a value under a dotted key. The tables on the way may not be named by a header, and the
last one must come from dotted keys itself. -/
def putAt? (key : String) (v : Value) : List String → Members → Option Members
  | [], m => m.put? key v
  | name :: path, m =>
    match lookup? name m with
    | none => (putAt? key v path []).map fun t => insertMember name (.table .dotted t) m
    | some (.value _) => none
    | some (.table mark t) =>
      if mark = .header ∨ path = [] ∧ mark ≠ .dotted then none
      else (putAt? key v path t).map fun t => insertMember name (.table mark t) m
    | some (.tables earlier last) =>
      if path = [] then none
      else (putAt? key v path last).map fun t => insertMember name (.tables earlier t) m

/-- Changes the table that a header's path leads to; what is not there is implied. -/
def within (change : Members → Option Members) : List String → Members → Option Members
  | [], m => change m
  | name :: path, m =>
    match lookup? name m with
    | none => (within change path []).map fun t => insertMember name (.table .implied t) m
    | some (.value _) => none
    | some (.table mark t) =>
      (within change path t).map fun t => insertMember name (.table mark t) m
    | some (.tables earlier last) =>
      (within change path last).map fun t => insertMember name (.tables earlier t) m

/-- Names a table. Only one that was implied so far may be there. -/
def open? (key : String) (m : Members) : Option Members :=
  match lookup? key m with
  | none => some (insertMember key (.table .header []) m)
  | some (.table .implied t) => some (insertMember key (.table .header t) m)
  | some _ => none

/-- Begins another table under a repeated header. -/
def openNext? (key : String) (m : Members) : Option Members :=
  match lookup? key m with
  | none => some (insertMember key (.tables [] []) m)
  | some (.tables earlier last) => some (insertMember key (.tables (earlier ++ [last]) []) m)
  | some _ => none

end Members

mutual

def Node.close : Node → Value
  | .value v => v
  | .table _ members => .table (closeMembers members)
  | .tables earlier last => .array (closeTables earlier ++ [.table (closeMembers last)])

def closeMembers : List (String × Node) → List (String × Value)
  | [] => []
  | (key, node) :: rest => (key, node.close) :: closeMembers rest

def closeTables : List (List (String × Node)) → List Value
  | [] => []
  | members :: rest => .table (closeMembers members) :: closeTables rest

end

/-- The table of key-value pairs that stand between braces. -/
def tableOfPairs? (pairs : List (List String × String × Value)) : Option Value :=
  (pairs.foldlM (fun m (path, key, v) => Members.putAt? key v path m) []).map fun m =>
    .table (closeMembers m)

inductive Line
  | pair (path : List String) (key : String) (v : Value)
  | header (path : List String) (key : String)
  | nextHeader (path : List String) (key : String)
  deriving Repr

/-- The members read so far, and the path of the table that pairs go into. -/
structure Building where
  members : Members
  here : List String

def Building.take? (b : Building) : Line → Option Building
  | .pair path key v =>
    (Members.within (Members.putAt? key v path) b.here b.members).map fun m => ⟨m, b.here⟩
  | .header path key =>
    (Members.within (Members.open? key) path b.members).map fun m => ⟨m, path ++ [key]⟩
  | .nextHeader path key =>
    (Members.within (Members.openNext? key) path b.members).map fun m => ⟨m, path ++ [key]⟩

def tableOfLines? (lines : List Line) : Option Value :=
  (lines.foldlM Building.take? ⟨[], []⟩).map fun b => .table (closeMembers b.members)

end EmailTemplate.Toml
