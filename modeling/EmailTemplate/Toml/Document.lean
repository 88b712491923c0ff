import EmailTemplate.Toml.Number
import EmailTemplate.Toml.Quoted
import EmailTemplate.Toml.Table

/-! Reading a settings file. -/

namespace EmailTemplate.Toml

open Text

abbrev Reader (α : Type) := List Char → Option (α × List Char)

def skipGap (s : List Char) : List Char := s.dropWhile isGap

/-- What follows a comment, if there is one; it goes as far as the visible characters do. -/
def skipComment : List Char → List Char
  | '#' :: s => s.dropWhile isVisible
  | s => s

/-- The rest after the end of a line, before which nothing but a comment may stand. -/
def lineEnd? (s : List Char) : Option (List Char) :=
  match skipComment (skipGap s) with
  | [] => some []
  | s => lineBreak? s

/-- Drops blanks, line breaks and comments; `rounds` bounds the number of comments. -/
def skipLines : Nat → List Char → List Char
  | 0, s => s
  | rounds + 1, s =>
    match dropBlankLines s with
    | '#' :: rest => skipLines rounds (rest.dropWhile isVisible)
    | s => s

def skipAll (s : List Char) : List Char := skipLines s.length s

/-- Containers and dotted keys may reach this deep, but no deeper. -/
def maxDepth : Nat := 79

/-! ### Keys -/

def isBareKeyChar (c : Char) : Bool := isAsciiAlphanumeric c || c == '_' || c == '-'

def simpleKey? (s : List Char) : Option (String × List Char) :=
  match s with
  | '"' :: rest => (basicString? rest).map fun (text, rest) => (String.ofList text, rest)
  | '\'' :: rest => (literalString? rest).map fun (text, rest) => (String.ofList text, rest)
  | _ =>
    let name := s.takeWhile isBareKeyChar
    if name.isEmpty then none else some (String.ofList name, s.dropWhile isBareKeyChar)

/-- The parts of a dotted key, at most `parts` of them: those before the last, and the last. -/
def dottedKey? : Nat → Reader (List String × String)
  | 0, _ => none
  | parts + 1, s => do
    let (name, s) ← simpleKey? (skipGap s)
    match skipGap s with
    | '.' :: s =>
      let ((path, key), rest) ← dottedKey? parts s
      return ((name :: path, key), rest)
    | s => return (([], name), s)

def key? : Reader (List String × String) := dottedKey? maxDepth

/-- A key, an equals sign, and what the reader takes for the value. -/
def pair? (value : Reader Value) : Reader (List String × String × Value) := fun s => do
  let ((path, key), s) ← key? s
  let s ← char? '=' s
  let (v, rest) ← value (skipGap s)
  return ((path, key, v), rest)

/-! ### Values -/

def scalar? : Reader Value := fun s =>
  match s with
  | [] => none
  | c :: _ =>
    if c = '"' ∨ c = '\'' then
      (string? s).map fun (text, rest) => (.string (String.ofList text), rest)
    else if beginsDatetime s then (datetime? s).map fun (t, rest) => (.datetime t, rest)
    else if c = 't' then (after? "true".toList s).map fun rest => (.boolean true, rest)
    else if c = 'f' then (after? "false".toList s).map fun rest => (.boolean false, rest)
    else number? s

/-- The items of an array and its closing bracket; a comma may follow the last item. -/
def items? (value : Reader Value) : Nat → Reader (List Value)
  | 0, _ => none
  | fuel + 1, s =>
    match skipAll s with
    | ']' :: rest => some ([], rest)
    | s => do
      let (v, s) ← value s
      match skipAll s with
      | ',' :: s =>
        let (more, rest) ← items? value fuel s
        return (v :: more, rest)
      | ']' :: rest => return ([v], rest)
      | _ => none

/-- The pairs of an inline table, at least one, and its closing brace. -/
def pairs? (value : Reader Value) : Nat → Reader (List (List String × String × Value))
  | 0, _ => none
  | fuel + 1, s => do
    let (pair, s) ← pair? value s
    match skipGap s with
    | ',' :: s =>
      let (more, rest) ← pairs? value fuel s
      return (pair :: more, rest)
    | '}' :: rest => return ([pair], rest)
    | _ => none

def inlineTable? (value : Reader Value) : Reader Value := fun s =>
  match skipGap s with
  | '}' :: rest => some (.table [], rest)
  | _ => do
    let (pairs, rest) ← pairs? value s.length s
    return (← tableOfPairs? pairs, rest)

/-- A value in which containers stand at most `depth` deep. -/
def value? : Nat → Reader Value
  | 0 => scalar?
  | depth + 1 => fun s =>
    match s with
    | '[' :: s => (items? (value? depth) s.length s).map fun (items, rest) => (.array items, rest)
    | '{' :: s => inlineTable? (value? depth) s
    | _ => scalar? s

/-! ### Lines -/

/-- A header after its opening brackets, up to the closing ones. -/
def header? (closing : List Char) : Reader (List String × String) := fun s => do
  let (key, s) ← key? s
  return (key, ← after? closing s)

def line? : Reader Line := fun s =>
  match s with
  | '[' :: '[' :: s => (header? [']', ']'] s).map fun ((path, key), rest) =>
      (.nextHeader path key, rest)
  | '[' :: s => (header? [']'] s).map fun ((path, key), rest) => (.header path key, rest)
  | _ => (pair? (value? maxDepth) s).map fun ((path, key, v), rest) => (.pair path key v, rest)

/-- All lines of a file; each takes a character at least. -/
def lines? : Nat → List Char → Option (List Line)
  | 0, s => if s.isEmpty then some [] else none
  | fuel + 1, s =>
    match skipGap s with
    | [] => some []
    | '#' :: _ | '\n' :: _ | '\r' :: _ => (lineEnd? s).bind (lines? fuel)
    | s => do
      let (line, s) ← line? s
      return line :: (← lines? fuel (← lineEnd? s))

/-- A mark of byte order at the start of a file does not count. -/
def dropByteOrderMark : List Char → List Char
  | c :: s => if c.toNat = 0xfeff then s else c :: s
  | [] => []

/-- The table that a text describes, if it is well-formed. -/
def parse? (text : String) : Option Value :=
  let s := dropByteOrderMark text.toList
  (lines? s.length s).bind tableOfLines?

end EmailTemplate.Toml
