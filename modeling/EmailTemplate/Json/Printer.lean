import EmailTemplate.Decimal.Shortest
import EmailTemplate.Json.Value

/-! Writing values as JSON text, on one line or indented. -/

namespace EmailTemplate.Json

/-- The text of a double is positional if its decimal point falls at most sixteen places after the
first digit and at most five before it; otherwise it has an exponent with a sign. A whole number
below that bound ends in `.0`. -/
def doubleText (d : Double) : String :=
  let sign := if d.negative then "-" else ""
  if d.rank = 0 then sign ++ "0.0"
  else
    let x := d.shortest
    let digits := Nat.toDigits 10 x.digits
    let point : Int := digits.length + x.exponent
    let zeros (n : Int) : List Char := List.replicate n.toNat '0'
    let body : List Char :=
      if 0 ≤ x.exponent ∧ point ≤ 16 then digits ++ zeros x.exponent ++ ['.', '0']
      else if 0 < point ∧ point ≤ 16 then
        digits.take point.toNat ++ '.' :: digits.drop point.toNat
      else if -5 < point ∧ point ≤ 0 then '0' :: '.' :: zeros (-point) ++ digits
      else
        let power := point - 1
        let mark := if power < 0 then '-' else '+'
        let fraction := if digits.length ≤ 1 then [] else '.' :: digits.drop 1
        digits.take 1 ++ fraction ++ 'e' :: mark :: Nat.toDigits 10 power.natAbs
    sign ++ String.ofList body

def integerText (n : Int) : String :=
  if n < 0 then "-" ++ toString n.natAbs else toString n.natAbs

def Number.text : Number → String
  | .integer n => integerText n
  | .double d => doubleText d

def hexDigit (n : Nat) : Char := if n < 10 then Char.ofNat (48 + n) else Char.ofNat (87 + n)

/-- A quote, a backslash and the controls are escaped, all else stands for itself. -/
def escapeChar (c : Char) : List Char :=
  if c = '"' then ['\\', '"']
  else if c = '\\' then ['\\', '\\']
  else if c = '\n' then ['\\', 'n']
  else if c = '\r' then ['\\', 'r']
  else if c = '\t' then ['\\', 't']
  else if c.toNat = 8 then ['\\', 'b']
  else if c.toNat = 12 then ['\\', 'f']
  else if c.toNat < 32 then ['\\', 'u', '0', '0', hexDigit (c.toNat / 16), hexDigit (c.toNat % 16)]
  else [c]

def quote (s : String) : List Char := '"' :: s.toList.flatMap escapeChar ++ ['"']

mutual

/-- The text on one line, without blanks. -/
def Value.compact : Value → List Char
  | .null => ['n', 'u', 'l', 'l']
  | .bool true => ['t', 'r', 'u', 'e']
  | .bool false => ['f', 'a', 'l', 's', 'e']
  | .number n => n.text.toList
  | .string s => quote s
  | .array items => '[' :: compactItems items ++ [']']
  | .object members => '{' :: compactMembers members ++ ['}']

def compactItems : List Value → List Char
  | [] => []
  | [v] => v.compact
  | v :: rest => v.compact ++ ',' :: compactItems rest

def compactMembers : List (String × Value) → List Char
  | [] => []
  | [(k, v)] => quote k ++ ':' :: v.compact
  | (k, v) :: rest => quote k ++ ':' :: v.compact ++ ',' :: compactMembers rest

end

/-- A new line of the given depth, two blanks for each level. -/
def newLine (depth : Nat) : List Char := '\n' :: List.replicate (2 * depth) ' '

mutual

/-- The indented text of a value that stands at a depth; empty containers stay on their line. -/
def Value.indented (depth : Nat) : Value → List Char
  | .null => ['n', 'u', 'l', 'l']
  | .bool true => ['t', 'r', 'u', 'e']
  | .bool false => ['f', 'a', 'l', 's', 'e']
  | .number n => n.text.toList
  | .string s => quote s
  | .array [] => ['[', ']']
  | .array (v :: items) => '[' :: indentedItems (depth + 1) (v :: items) ++ newLine depth ++ [']']
  | .object [] => ['{', '}']
  | .object (m :: members) =>
    '{' :: indentedMembers (depth + 1) (m :: members) ++ newLine depth ++ ['}']

def indentedItems (depth : Nat) : List Value → List Char
  | [] => []
  | [v] => newLine depth ++ v.indented depth
  | v :: rest => newLine depth ++ v.indented depth ++ ',' :: indentedItems depth rest

def indentedMembers (depth : Nat) : List (String × Value) → List Char
  | [] => []
  | [(k, v)] => newLine depth ++ quote k ++ ':' :: ' ' :: v.indented depth
  | (k, v) :: rest =>
    newLine depth ++ quote k ++ ':' :: ' ' :: v.indented depth ++ ',' :: indentedMembers depth rest

end

def Value.toLine (v : Value) : String := String.ofList v.compact

def Value.pretty (v : Value) : String := String.ofList (v.indented 0)

end EmailTemplate.Json
