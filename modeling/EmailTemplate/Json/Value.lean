import EmailTemplate.Decimal.Double

/-! Free-form data: the value tree of a JSON document. -/

namespace EmailTemplate.Json

/-- An integer is kept exactly; any other number is a double. -/
inductive Number
  | integer (n : Int)
  | double (d : Double)
  deriving DecidableEq, Repr

/-- The members of an object stand in the order in which they are visited. Data that was read has
its keys in rising order, none twice. -/
inductive Value
  | null
  | bool (b : Bool)
  | number (n : Number)
  | string (s : String)
  | array (items : List Value)
  | object (members : List (String × Value))
  deriving Repr, Inhabited

/-- Puts a member in its place among rising keys; an equal key gets the new value. -/
def insertMember {α : Type} (key : String) (value : α) : List (String × α) → List (String × α)
  | [] => [(key, value)]
  | (k, v) :: rest =>
    if key < k then (key, value) :: (k, v) :: rest
    else if key = k then (key, value) :: rest
    else (k, v) :: insertMember key value rest

/-- Members in rising order of their keys; of two members with one key the later one stays. -/
def sortMembers {α : Type} (members : List (String × α)) : List (String × α) :=
  members.foldl (fun done (k, v) => insertMember k v done) []

def lookup? {α : Type} (key : String) : List (String × α) → Option α
  | [] => none
  | (k, v) :: rest => if k = key then some v else lookup? key rest

namespace Value

/-- The member of an object; other values have none. -/
def get? (key : String) : Value → Option Value
  | object members => lookup? key members
  | _ => none

def asBool? : Value → Option Bool
  | bool b => some b
  | _ => none

def asArray? : Value → Option (List Value)
  | array items => some items
  | _ => none

def strings (names : List String) : Value := array (names.map string)

def natural (n : Nat) : Value := number (.integer n)

end Value

end EmailTemplate.Json
