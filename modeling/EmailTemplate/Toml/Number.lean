import EmailTemplate.Decimal.Word
import EmailTemplate.Text.Find
import EmailTemplate.Toml.Value

/-! Numbers of settings files. -/

namespace EmailTemplate.Toml

open Text

/-- More digits, each one right after a digit or after a single underscore. -/
def moreDigits? (fits : Char → Bool) : List Char → Option (List Char × List Char)
  | [] => some ([], [])
  | ['_'] => none
  | '_' :: c :: s =>
    if fits c then (moreDigits? fits s).map fun (digits, rest) => (c :: digits, rest) else none
  | c :: s =>
    if fits c then (moreDigits? fits s).map fun (digits, rest) => (c :: digits, rest)
    else some ([], c :: s)

def digitRun? (fits : Char → Bool) : List Char → Option (List Char × List Char)
  | [] => none
  | c :: s =>
    if fits c then (moreDigits? fits s).map fun (digits, rest) => (c :: digits, rest) else none

/-- A run of decimal digits that starts with zero only if it is zero alone. -/
def wholeDigits? : List Char → Option (List Char × List Char)
  | '0' :: s => some (['0'], s)
  | s => digitRun? isAsciiDigit s

def digitsValue (base : Nat) (digits : List Char) : Nat :=
  digits.foldl (fun n c => base * n + (hexDigit? c).getD 0) 0

def signOf : List Char → Bool × List Char
  | '-' :: s => (true, s)
  | '+' :: s => (false, s)
  | s => (false, s)

/-- Integers have 64 bits, one of them for the sign. -/
def integerOf? (negative : Bool) (n : Nat) : Option Value :=
  if negative then if n ≤ signedBound then some (.integer (-n)) else none
  else if n < signedBound then some (.integer n) else none

/-- An integer of another base, read after its mark. -/
def based? (base : Nat) (s : List Char) : Option (Value × List Char) := do
  let fits c := (hexDigit? c).any (· < base)
  let (digits, rest) ← digitRun? fits s
  return (← integerOf? false (digitsValue base digits), rest)

def exponent? (s : List Char) : Option (Int × List Char) := do
  let (negative, s) := signOf s
  let (digits, rest) ← digitRun? isAsciiDigit s
  let n := digitsValue 10 digits
  return (if negative then -n else n, rest)

def exponentMark : List Char → Option (List Char)
  | 'e' :: s | 'E' :: s => some s
  | _ => none

/-- The double nearest to `digits * 10 ^ exponent`. Beyond the finite doubles only a negative
number is let through. Numbers of great exponent are decided without powers of ten. -/
def floatOf? (negative : Bool) (digits : List Char) (exponent : Int) : Option Value :=
  let n := digitsValue 10 digits
  let high := exponent + digits.length
  let overflow : Option Value := if negative then some (.float (.infinite true)) else none
  if n = 0 ∨ high < -400 then some (.float (.finite ⟨negative, 0⟩))
  else if 400 < exponent then overflow
  else match Double.nearest? negative (n * Nat.pow 10 exponent.toNat)
      (Nat.pow 10 (-exponent).toNat) with
    | some d => some (.float (.finite d))
    | none => overflow

/-- A decimal number; a fraction or an exponent makes it a float. -/
def decimal? (negative : Bool) (s : List Char) : Option (Value × List Char) := do
  let (whole, s) ← wholeDigits? s
  match s with
  | '.' :: s =>
    let (places, s) ← digitRun? isAsciiDigit s
    match exponentMark s with
    | some s =>
      let (e, rest) ← exponent? s
      return (← floatOf? negative (whole ++ places) (e - places.length), rest)
    | none => return (← floatOf? negative (whole ++ places) (-places.length), s)
  | _ =>
    match exponentMark s with
    | some s =>
      let (e, rest) ← exponent? s
      return (← floatOf? negative whole e, rest)
    | none => return (← integerOf? negative (digitsValue 10 whole), s)

def number? (s : List Char) : Option (Value × List Char) :=
  match s with
  | '0' :: 'x' :: rest => based? 16 rest
  | '0' :: 'o' :: rest => based? 8 rest
  | '0' :: 'b' :: rest => based? 2 rest
  | _ =>
    let (negative, s) := signOf s
    match after? ['i', 'n', 'f'] s, after? ['n', 'a', 'n'] s with
    | some rest, _ => some (.float (.infinite negative), rest)
    | _, some rest => some (.float (.undefined negative), rest)
    | _, _ => decimal? negative s

end EmailTemplate.Toml
