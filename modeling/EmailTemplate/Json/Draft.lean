import EmailTemplate.Decimal.Reading
import EmailTemplate.Decimal.Word
import EmailTemplate.Json.Value
import EmailTemplate.Text.Ascii

/-! Reading JSON text. The reader does not stop at a fault but leaves a mark in the tree, so that
whoever walks the tree from left to right meets the first fault, be it in the text or in what the
values are used for. -/

namespace EmailTemplate.Json

open Text

/-- Why a text or a tree was refused: it breaks the grammar, it ends too early, or it holds a value
of a kind that its place does not allow. -/
inductive Fault
  | grammar
  | ending
  | content
  deriving DecidableEq, Repr

/-- A tree that was read as far as the text allows. Text that is well-formed but denotes nothing,
such as half a surrogate pair or a number beyond all doubles, is flawed: only a reader that wants
its value minds, and what follows it is known. -/
inductive Draft
  | null
  | bool (b : Bool)
  | number (n : Number)
  | string (s : String)
  | array (items : List Draft) (broken : Option Fault)
  | object (members : List (Option String × Draft)) (broken : Option Fault)
  | flawed (broken : Option Fault)
  | broken (fault : Fault)
  deriving Inhabited

def isGap (c : Char) : Bool := c == ' ' || c == '\n' || c == '\t' || c == '\r'

def skipGap (s : List Char) : List Char := s.dropWhile isGap

/-! ### Strings -/

/-- Where the reader is inside a string: between characters, after a backslash, in the digits of an
escape that may be the second of a pair, or after the first of a pair. -/
inductive Spot
  | plain
  | escape
  | digits (count value : Nat) (high : Option Nat)
  | high (value : Nat)
  | highEscape (value : Nat)

/-- The outcome of a string: its text, none if flawed, and the rest of the input or the fault at
which it breaks off. -/
structure Scanned where
  text : Option (List Char)
  rest : Except Fault (List Char)

/-- What one character does: the next spot with the character that it completes, if any, and
whether it shows a flaw; or the end of the string; or a fault. -/
inductive Move
  | go (next : Spot) (done : Option Char) (flawed : Bool)
  | close (flawed : Bool)
  | fail (fault : Fault) (flawed : Bool)

def hasBytes : Nat → List Char → Bool
  | 0, _ => true
  | _ + 1, [] => false
  | n + 1, c :: s => hasBytes (n + 1 - c.utf8Size) s

def plainMove (flawed : Bool) (c : Char) : Move :=
  if c = '"' then .close flawed
  else if c = '\\' then .go .escape none flawed
  else if c.toNat < 32 then .fail .grammar flawed
  else .go .plain (some c) flawed

def escapeMove (flawed : Bool) (c : Char) (rest : List Char) (high : Option Nat) : Move :=
  if c = 'u' then
    if hasBytes 4 rest then .go (.digits 0 0 high) none flawed else .fail .ending flawed
  else if c = '"' ∨ c = '\\' ∨ c = '/' then .go .plain (some c) flawed
  else if c = 'b' then .go .plain (some (Char.ofNat 8)) flawed
  else if c = 'f' then .go .plain (some (Char.ofNat 12)) flawed
  else if c = 'n' then .go .plain (some '\n') flawed
  else if c = 'r' then .go .plain (some '\r') flawed
  else if c = 't' then .go .plain (some '\t') flawed
  else .fail .grammar flawed

/-- The end of four digits: a code unit that stands alone, opens a pair or closes one. -/
def unitMove (value : Nat) : Option Nat → Move
  | none =>
    if 0xd800 ≤ value ∧ value < 0xdc00 then .go (.high value) none false
    else if 0xdc00 ≤ value ∧ value < 0xe000 then .go .plain none true
    else .go .plain (some (Char.ofNat value)) false
  | some high =>
    if 0xdc00 ≤ value ∧ value < 0xe000 then
      .go .plain (some (Char.ofNat (0x10000 + (high - 0xd800) * 0x400 + (value - 0xdc00)))) false
    else if 0xd800 ≤ value ∧ value < 0xdc00 then .go (.high value) none true
    else .go .plain (some (Char.ofNat value)) true

def move (spot : Spot) (c : Char) (rest : List Char) : Move :=
  match spot with
  | .plain => plainMove false c
  | .escape => escapeMove false c rest none
  | .digits count value high =>
    match hexDigit? c with
    | none => .fail .grammar false
    | some d => if count < 3 then .go (.digits (count + 1) (16 * value + d) high) none false
        else unitMove (16 * value + d) high
  | .high value => if c = '\\' then .go (.highEscape value) none false else plainMove true c
  | .highEscape value =>
    if c = 'u' then escapeMove false c rest (some value) else escapeMove true c rest none

/-- Reads a string after its opening quote; `done` holds the characters so far, last first. -/
def scanString (spot : Spot) (flawed : Bool) (done : List Char) : List Char → Scanned
  | [] =>
    let lone := match spot with
      | .high _ | .highEscape _ => true
      | _ => false
    ⟨if flawed || lone then none else some done.reverse, .error .ending⟩
  | c :: rest =>
    match move spot c rest with
    | .close f => ⟨if flawed || f then none else some done.reverse, .ok rest⟩
    | .fail fault f => ⟨if flawed || f then none else some done.reverse, .error fault⟩
    | .go next add f => scanString next (flawed || f) (add.toList ++ done) rest

/-! ### Numbers -/

/-- Adds digits to a number while it fits into 64 bits; gives the number, how many digits were
added, and the digits left over from the first one that does not fit. -/
def takeDigits (value count : Nat) : List Char → Nat × Nat × List Char
  | [] => (value, count, [])
  | c :: s =>
    let next := 10 * value + digitValue c
    if next < wordCount then takeDigits next (count + 1) s
    else (value, count, c :: s)

/-- The parts of a number's text: the digits before the point, after it, and the exponent with its
sign. -/
structure NumberText where
  negative : Bool
  whole : List Char
  fraction : Option (List Char)
  power : Option (Bool × List Char)

/-- Splits the text of a number from what follows it, the sign taken off. -/
def splitNumber (negative : Bool) (s : List Char) : Except Fault (NumberText × List Char) := do
  let whole := s.takeWhile isAsciiDigit
  let rest := s.dropWhile isAsciiDigit
  if whole.isEmpty then throw (if rest.isEmpty then .ending else .grammar)
  if whole.head? = some '0' ∧ 1 < whole.length then throw .grammar
  let (fraction, rest) ← match rest with
    | '.' :: t =>
      let digits := t.takeWhile isAsciiDigit
      let after := t.dropWhile isAsciiDigit
      if digits.isEmpty then throw (if after.isEmpty then Fault.ending else .grammar)
      else pure (some digits, after)
    | _ => pure (none, rest)
  let (power, rest) ← match rest with
    | c :: t =>
      if c = 'e' ∨ c = 'E' then
        let (down, t) := match t with
          | '+' :: u => (false, u)
          | '-' :: u => (true, u)
          | _ => (false, t)
        let digits := t.takeWhile isAsciiDigit
        let after := t.dropWhile isAsciiDigit
        if digits.isEmpty then throw (if after.isEmpty then Fault.ending else .grammar)
        else pure (some (down, digits), after)
      else pure (none, rest)
    | [] => pure (none, rest)
  return (⟨negative, whole, fraction, power⟩, rest)

/-- The number that a text denotes: an integer if it is written as one and fits into 64 bits with
or without a sign, else a double, unless that would be infinite. A negative zero is a double. Of
more digits than fit into 64 bits the rest only counts for its places. -/
def NumberText.value? (t : NumberText) : Option Number :=
  let (value, _, more) := takeDigits 0 0 t.whole
  let (digits, places, lost) : Nat × Nat × Nat :=
    match t.fraction with
    | none => (value, 0, more.length)
    | some f =>
      let (v, n, _) := takeDigits value 0 f
      (v, n, more.length)
  let exponent : Int := match t.power with
    | none => 0
    | some (down, ds) =>
      let n : Int := ds.foldl (fun n c => 10 * n + digitValue c) 0
      if down then -n else n
  if t.fraction.isNone && t.power.isNone && more.isEmpty then
    if !t.negative then some (.integer value)
    else if value = 0 ∨ signedBound < value then
      (Double.ofParts? true value 0).map .double
    else some (.integer (-value))
  else if exponent < -2147483648 ∨ (digits = 0 ∧ 2147483648 ≤ exponent) then
    some (.double ⟨t.negative, 0⟩)
  else (Double.ofParts? t.negative digits (exponent + lost - places)).map .double

/-! ### Values -/

/-- Reads the rest of a word such as `true`. -/
def readWord (word : List Char) (meaning : Draft) (s : List Char) : Draft × Option (List Char) :=
  match word, s with
  | [], s => (meaning, some s)
  | _ :: _, [] => (.broken .ending, none)
  | w :: word, c :: s => if w = c then readWord word meaning s else (.broken .grammar, none)

def readNumber (negative : Bool) (s : List Char) : Draft × Option (List Char) :=
  match splitNumber negative s with
  | .error fault => (.broken fault, none)
  | .ok (t, rest) =>
    match t.value? with
    | some n => (.number n, some rest)
    | none => (.flawed none, some rest)

def readString (s : List Char) : Draft × Option (List Char) :=
  match scanString .plain false [] s with
  | ⟨some text, .ok rest⟩ => (.string (String.ofList text), some rest)
  | ⟨none, .ok rest⟩ => (.flawed none, some rest)
  | ⟨some _, .error fault⟩ => (.broken fault, none)
  | ⟨none, .error fault⟩ => (.flawed (some fault), none)

mutual

/-- Reads a value and gives what follows it, none if the text breaks off inside. The fuel is spent
on each value, item and member, and each takes a character at least. -/
def readValue (fuel : Nat) (s : List Char) : Draft × Option (List Char) :=
  match fuel with
  | 0 => (.broken .ending, none)
  | fuel + 1 =>
    match skipGap s with
    | [] => (.broken .ending, none)
    | '"' :: rest => readString rest
    | '[' :: rest =>
      let (items, broken, after) := readItems fuel true rest
      (.array items broken, after)
    | '{' :: rest =>
      let (members, broken, after) := readMembers fuel true rest
      (.object members broken, after)
    | 'n' :: rest => readWord ['u', 'l', 'l'] .null rest
    | 't' :: rest => readWord ['r', 'u', 'e'] (.bool true) rest
    | 'f' :: rest => readWord ['a', 'l', 's', 'e'] (.bool false) rest
    | '-' :: rest => readNumber true rest
    | c :: rest => if isAsciiDigit c then readNumber false (c :: rest) else (.broken .grammar, none)

/-- Reads the items of an array after its bracket or, unless `first`, after an item. -/
def readItems (fuel : Nat) (first : Bool) (s : List Char) :
    List Draft × Option Fault × Option (List Char) :=
  match fuel with
  | 0 => ([], some .ending, none)
  | fuel + 1 =>
    let item (s : List Char) : List Draft × Option Fault × Option (List Char) :=
      match readValue fuel s with
      | (v, none) => ([v], none, none)
      | (v, some rest) =>
        let (items, broken, after) := readItems fuel false rest
        (v :: items, broken, after)
    match skipGap s with
    | [] => ([], some .ending, none)
    | ']' :: rest => ([], none, some rest)
    | c :: rest =>
      if first then item (c :: rest)
      else if c = ',' then item rest
      else ([], some .grammar, none)

/-- Reads the members of an object after its brace or, unless `first`, after a member. -/
def readMembers (fuel : Nat) (first : Bool) (s : List Char) :
    List (Option String × Draft) × Option Fault × Option (List Char) :=
  match fuel with
  | 0 => ([], some .ending, none)
  | fuel + 1 =>
    let member (s : List Char) :
        List (Option String × Draft) × Option Fault × Option (List Char) :=
      match skipGap s with
      | [] => ([], some .ending, none)
      | '"' :: rest =>
        match scanString .plain false [] rest with
        | ⟨text, .error fault⟩ =>
          match text with
          | some _ => ([], some fault, none)
          | none => ([(none, .broken fault)], none, none)
        | ⟨text, .ok rest⟩ =>
          let key := text.map String.ofList
          match skipGap rest with
          | [] => ([(key, .broken .ending)], none, none)
          | ':' :: rest =>
            match readValue fuel rest with
            | (v, none) => ([(key, v)], none, none)
            | (v, some rest) =>
              let (members, broken, after) := readMembers fuel false rest
              ((key, v) :: members, broken, after)
          | _ => ([(key, .broken .grammar)], none, none)
      | _ => ([], some .grammar, none)
    match skipGap s with
    | [] => ([], some .ending, none)
    | '}' :: rest => ([], none, some rest)
    | c :: rest =>
      if first then member (c :: rest)
      else if c = ',' then member rest
      else ([], some .grammar, none)

end

/-- The tree of a text, and the fault of what follows the value: anything but blanks. -/
def Draft.parse (text : String) : Draft × Option Fault :=
  match readValue (text.length + 1) text.toList with
  | (d, none) => (d, none)
  | (d, some rest) => (d, if (skipGap rest).isEmpty then none else some .grammar)

mutual

def Draft.ofValue : Value → Draft
  | .null => .null
  | .bool b => .bool b
  | .number n => .number n
  | .string s => .string s
  | .array items => .array (ofItems items) none
  | .object members => .object (ofMembers members) none

def ofItems : List Value → List Draft
  | [] => []
  | v :: rest => Draft.ofValue v :: ofItems rest

def ofMembers : List (String × Value) → List (Option String × Draft)
  | [] => []
  | (k, v) :: rest => (some k, Draft.ofValue v) :: ofMembers rest

end

end EmailTemplate.Json
