import EmailTemplate.Json.Decode
import EmailTemplate.Toml.Datetime

/-! The values that a settings file can hold. -/

namespace EmailTemplate.Toml

/-- A number in double precision, or what stands for one that is none. -/
inductive FloatValue
  | finite (d : Double)
  | infinite (negative : Bool)
  | undefined (negative : Bool)
  deriving DecidableEq, Repr

/-- The members of a table stand in rising order of their keys, none twice. -/
inductive Value
  | string (s : String)
  | integer (n : Int)
  | float (x : FloatValue)
  | boolean (b : Bool)
  | datetime (t : Datetime)
  | array (items : List Value)
  | table (members : List (String × Value))
  deriving Repr, Inhabited

namespace Value

mutual

/-- The value as a tree to decode. A date is a string there; a float fits no place. -/
def draft : Value → Json.Draft
  | string s => .string s
  | integer n => .number (.integer n)
  | float _ => .broken .content
  | boolean b => .bool b
  | datetime t => .string t.print
  | array items => .array (itemDrafts items) none
  | table members => .object (memberDrafts members) none

def itemDrafts : List Value → List Json.Draft
  | [] => []
  | v :: rest => draft v :: itemDrafts rest

def memberDrafts : List (String × Value) → List (Option String × Json.Draft)
  | [] => []
  | (key, v) :: rest => (some key, draft v) :: memberDrafts rest

end

mutual

/-- Lays a value over another. Tables are joined key by key; any other value takes the place of
what it is laid over. -/
def overlay (base : Value) : Value → Value
  | table layer =>
    match base with
    | table members => table (overlayMembers members layer)
    | _ => table layer
  | v => v

def overlayMembers (base : List (String × Value)) :
    List (String × Value) → List (String × Value)
  | [] => base
  | (key, v) :: rest =>
    let joined := match Json.lookup? key base with
      | some b => overlay b v
      | none => v
    overlayMembers (Json.insertMember key joined base) rest

end

end Value

end EmailTemplate.Toml
