import EmailTemplate.Html.Entity
import EmailTemplate.Text.Find

/-! Character references in markup: by name, the longest that matches, or by number. -/

namespace EmailTemplate.Html

open Text

def replacement : Char := Char.ofNat 0xfffd

/-- What the numbers 128 to 159 stand for; zero stands for the number itself. -/
def legacyCodes : List Nat :=
  [0x20ac, 0, 0x201a, 0x192, 0x201e, 0x2026, 0x2020, 0x2021, 0x2c6, 0x2030, 0x160, 0x2039, 0x152, 0,
    0x17d, 0, 0, 0x2018, 0x2019, 0x201c, 0x201d, 0x2022, 0x2013, 0x2014, 0x2dc, 0x2122, 0x161,
    0x203a, 0x153, 0, 0x17e, 0x178]

/-- The character of a number: nothing that is no character, and some controls by their legacy
meaning. -/
def numberedChar (n : Nat) : Char :=
  if n = 0 ∨ 0x10ffff < n ∨ (0xd800 ≤ n ∧ n < 0xe000) then replacement
  else if 0x80 ≤ n ∧ n < 0xa0 then
    let code := legacyCodes.getD (n - 0x80) 0
    Char.ofNat (if code = 0 then n else code)
  else Char.ofNat n

/-- The value of digits in a base, as large as it gets. -/
def numeral (base : Nat) (digits : List Char) : Nat :=
  digits.foldl (fun n c => min 0x110000 (base * n + (hexDigit? c).getD 0)) 0

def isHexDigit (c : Char) : Bool := (hexDigit? c).isSome

/-- What a numbered reference stands for and what is left, after the number sign. A semicolon
belongs to it. -/
def numbered? (s : List Char) : Option (List Char × List Char) :=
  let (base, isIn, t) : Nat × (Char → Bool) × List Char := match s with
    | 'x' :: t | 'X' :: t => (16, isHexDigit, t)
    | _ => (10, isAsciiDigit, s)
  let digits := t.takeWhile isIn
  if digits.isEmpty then none
  else
    let rest := t.dropWhile isIn
    some ([numberedChar (numeral base digits)], (after? [';'] rest).getD rest)

/-- A spelling of a name, with its semicolon if it has one, the text it stands for and what is
left. -/
structure NamedMatch where
  length : Nat
  closed : Bool
  text : List Char
  rest : List Char

def longer (a b : Option NamedMatch) : Option NamedMatch :=
  match a, b with
  | some x, some y => if x.length < y.length then b else a
  | none, _ => b
  | _, none => a

/-- The longest name at the head of the text, the semicolon counted. -/
def longestName? (s : List Char) : Option NamedMatch :=
  let word := s.takeWhile isAsciiAlphanumeric
  let closed : Option NamedMatch := match s.drop word.length with
    | ';' :: rest => (entity? word).map fun text => ⟨word.length + 1, true, text, rest⟩
    | _ => none
  let bare : Option NamedMatch := bareEntityNames.foldl (fun best name =>
    match after? name s with
    | some rest => longer best ((entity? name).map fun text => ⟨name.length, false, text, rest⟩)
    | none => best) none
  longer bare closed

/-- The reference after an ampersand: what it stands for and what is left. In an attribute a name
without semicolon does not count before an equals sign, a letter or a digit. -/
def reference? (inAttribute : Bool) (s : List Char) : Option (List Char × List Char) :=
  match s with
  | '#' :: t => numbered? t
  | _ =>
    match longestName? s with
    | none => none
    | some m =>
      if inAttribute && !m.closed &&
          m.rest.head?.any (fun c => c == '=' || isAsciiAlphanumeric c) then none
      else some (m.text, m.rest)

end EmailTemplate.Html
