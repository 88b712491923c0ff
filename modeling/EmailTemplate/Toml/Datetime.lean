import EmailTemplate.Text.Ascii

/-! Dates and times as settings write them. -/

namespace EmailTemplate.Toml

open Text

structure Date where
  year : Nat
  month : Nat
  day : Nat
  deriving DecidableEq, Repr

/-- A time of day; a second may be a leap second. -/
structure Time where
  hour : Nat
  minute : Nat
  second : Nat
  nanosecond : Nat
  deriving DecidableEq, Repr

/-- The distance from universal time in minutes. -/
inductive Offset
  | utc
  | minutes (n : Int)
  deriving DecidableEq, Repr

inductive Datetime
  | date (d : Date)
  | time (t : Time)
  | both (d : Date) (t : Time) (offset : Option Offset)
  deriving DecidableEq, Repr

/-! ### Writing -/

def padded (width n : Nat) : String :=
  let digits := Nat.toDigits 10 n
  String.ofList (List.replicate (width - digits.length) '0' ++ digits)

def Date.print (d : Date) : String :=
  padded 4 d.year ++ "-" ++ padded 2 d.month ++ "-" ++ padded 2 d.day

/-- A fraction of a second is written without zeros at its end. -/
def Time.print (t : Time) : String :=
  let places := ((padded 9 t.nanosecond).toList.reverse.dropWhile (· == '0')).reverse
  padded 2 t.hour ++ ":" ++ padded 2 t.minute ++ ":" ++ padded 2 t.second ++
    if places.isEmpty then "" else "." ++ String.ofList places

def Offset.print : Offset → String
  | utc => "Z"
  | minutes n =>
    (if n < 0 then "-" else "+") ++ padded 2 (n.natAbs / 60) ++ ":" ++ padded 2 (n.natAbs % 60)

def Datetime.print : Datetime → String
  | date d => d.print
  | time t => t.print
  | both d t offset => d.print ++ "T" ++ t.print ++ offset.elim "" Offset.print

/-! ### Reading -/

/-- A number of exactly `n` digits between two bounds. -/
def digits? (n low high : Nat) (s : List Char) : Option (Nat × List Char) :=
  let first := s.take n
  let value := first.foldl (fun v c => 10 * v + digitValue c) 0
  if first.length = n ∧ first.all isAsciiDigit ∧ low ≤ value ∧ value ≤ high then
    some (value, s.drop n)
  else none

def char? (c : Char) : List Char → Option (List Char)
  | [] => none
  | d :: rest => if c = d then some rest else none

def isLeapYear (y : Nat) : Bool := y % 4 == 0 && (y % 100 != 0 || y % 400 == 0)

def daysIn (year month : Nat) : Nat :=
  if month = 2 then if isLeapYear year then 29 else 28
  else if month = 4 ∨ month = 6 ∨ month = 9 ∨ month = 11 then 30
  else 31

def date? (s : List Char) : Option (Date × List Char) := do
  let (year, s) ← digits? 4 0 9999 s
  let s ← char? '-' s
  let (month, s) ← digits? 2 1 12 s
  let s ← char? '-' s
  let (day, s) ← digits? 2 1 (daysIn year month) s
  return (⟨year, month, day⟩, s)

/-- The part of a second after the point, in nanoseconds; finer digits are dropped. -/
def fraction? : List Char → Option (Nat × List Char)
  | '.' :: s =>
    let places := s.takeWhile isAsciiDigit
    if places.isEmpty then none
    else
      let nine := (places ++ List.replicate 9 '0').take 9
      some (nine.foldl (fun v c => 10 * v + digitValue c) 0, s.dropWhile isAsciiDigit)
  | s => some (0, s)

def time? (s : List Char) : Option (Time × List Char) := do
  let (hour, s) ← digits? 2 0 23 s
  let s ← char? ':' s
  let (minute, s) ← digits? 2 0 59 s
  let s ← char? ':' s
  let (second, s) ← digits? 2 0 60 s
  let (nanosecond, s) ← fraction? s
  return (⟨hour, minute, second, nanosecond⟩, s)

def offset? : List Char → Option (Option Offset × List Char)
  | 'Z' :: s | 'z' :: s => some (some .utc, s)
  | '+' :: s => (minutes? s).map fun (n, s) => (some (.minutes n), s)
  | '-' :: s => (minutes? s).map fun (n, s) => (some (.minutes (-n)), s)
  | s => some (none, s)
where
  minutes? (s : List Char) : Option (Int × List Char) := do
    let (hour, s) ← digits? 2 0 23 s
    let s ← char? ':' s
    let (minute, s) ← digits? 2 0 59 s
    return (hour * 60 + minute, s)

/-- Whether a text begins as a date or a time does. -/
def beginsDatetime (s : List Char) : Bool :=
  let four := s.take 4
  let two := s.take 2
  (four.length == 4 && four.all isAsciiDigit && (s.drop 4).head? == some '-') ||
    (two.length == 2 && two.all isAsciiDigit && (s.drop 2).head? == some ':')

/-- The text after the mark between a date and a time, if a time follows. -/
def timeAfterDate? : List Char → Option (Time × List Char)
  | 'T' :: s | 't' :: s | ' ' :: s => time? s
  | _ => none

/-- A date, a time, or both with an offset. -/
def datetime? (s : List Char) : Option (Datetime × List Char) :=
  match date? s with
  | none => (time? s).map fun (t, s) => (.time t, s)
  | some (d, s) =>
    match timeAfterDate? s with
    | none => some (.date d, s)
    | some (t, s) => (offset? s).map fun (offset, s) => (.both d t offset, s)

end EmailTemplate.Toml
