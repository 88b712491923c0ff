import EmailTemplate.Text.Ascii
import EmailTemplate.Text.Find

/-! Strings of settings files, on one line or on several, with escapes or without. -/

namespace EmailTemplate.Toml

open Text

def isGap (c : Char) : Bool := c == ' ' || c == '\t'

/-- Tabs and all characters that are no controls. -/
def isVisible (c : Char) : Bool := c == '\t' || (decide (32 ≤ c.toNat) && c.toNat != 127)

def lineBreak? : List Char → Option (List Char)
  | '\n' :: rest | '\r' :: '\n' :: rest => some rest
  | _ => none

def hexValue? (digits : List Char) : Option Nat :=
  digits.foldl (fun value c => do return 16 * (← value) + (← hexDigit? c)) (some 0)

/-- The character that `n` hexadecimal digits name. -/
def codePoint? (n : Nat) (s : List Char) : Option (Char × List Char) := do
  let digits := s.take n
  if digits.length < n then none
  else
    let value ← hexValue? digits
    if value.isValidChar then some (Char.ofNat value, s.drop n) else none

/-- The character of an escape, read after its backslash. -/
def escape? : List Char → Option (Char × List Char)
  | [] => none
  | c :: rest =>
    if c = 'b' then some (Char.ofNat 8, rest)
    else if c = 't' then some ('\t', rest)
    else if c = 'n' then some ('\n', rest)
    else if c = 'f' then some (Char.ofNat 12, rest)
    else if c = 'r' then some ('\r', rest)
    else if c = '"' ∨ c = '\\' then some (c, rest)
    else if c = 'u' then codePoint? 4 rest
    else if c = 'U' then codePoint? 8 rest
    else none

theorem codePoint?_rest {n : Nat} {s rest : List Char} {c : Char}
    (h : codePoint? n s = some (c, rest)) : rest = s.drop n := by
  simp only [codePoint?] at h
  split at h
  · simp at h
  · simp only [Option.bind_eq_bind, Option.bind_eq_some_iff] at h
    obtain ⟨value, _, h⟩ := h
    split at h
    · simp only [Option.some.injEq, Prod.mk.injEq] at h
      exact h.2.symm
    · simp at h

theorem escape?_length {s rest : List Char} {c : Char} (h : escape? s = some (c, rest)) :
    rest.length < s.length := by
  cases s with
  | nil => simp [escape?] at h
  | cons d s =>
    suffices hs : rest = s ∨ rest = s.drop 4 ∨ rest = s.drop 8 by
      rcases hs with rfl | rfl | rfl <;> simp only [List.length_drop, List.length_cons] <;> omega
    simp only [escape?] at h
    repeat' split at h
    all_goals first
      | exact .inr (.inl (codePoint?_rest h))
      | exact .inr (.inr (codePoint?_rest h))
      | simp_all

/-- A string on one line, read after its opening quote. -/
def basicString? : List Char → Option (List Char × List Char)
  | [] => none
  | c :: s =>
    if c = '"' then some ([], s)
    else if c = '\\' then
      match h : escape? s with
      | none => none
      | some (e, rest) =>
        have : rest.length < s.length := escape?_length h
        (basicString? rest).map fun (text, rest) => (e :: text, rest)
    else if isVisible c then (basicString? s).map fun (text, rest) => (c :: text, rest)
    else none
termination_by s => s.length

/-- A string on one line without escapes, read after its opening quote. -/
def literalString? : List Char → Option (List Char × List Char)
  | [] => none
  | c :: s =>
    if c = '\'' then some ([], s)
    else if isVisible c then (literalString? s).map fun (text, rest) => (c :: text, rest)
    else none

/-- After a closing run of three quotes, up to two more belong to the string. -/
def extraQuotes (quote : Char) : List Char → List Char × List Char
  | c :: d :: rest =>
    if c = quote then if d = quote then ([quote, quote], rest) else ([quote], d :: rest)
    else ([], c :: d :: rest)
  | [c] => if c = quote then ([quote], []) else ([], [c])
  | [] => ([], [])

def dropBlankLines : List Char → List Char
  | [] => []
  | '\r' :: '\n' :: rest => dropBlankLines rest
  | c :: rest => if isGap c ∨ c = '\n' then dropBlankLines rest else c :: rest

theorem dropBlankLines_length (s : List Char) : (dropBlankLines s).length ≤ s.length := by
  fun_induction dropBlankLines s <;> simp_all <;> omega

/-- What follows a backslash at the end of a line, up to the next text. -/
def joinedLine? (s : List Char) : Option (List Char) :=
  (lineBreak? (s.dropWhile isGap)).map dropBlankLines

theorem lineBreak?_length {s rest : List Char} (h : lineBreak? s = some rest) :
    rest.length < s.length := by
  unfold lineBreak? at h
  split at h <;> simp only [Option.some.injEq, reduceCtorEq] at h
  · simp [← h]
  · simp only [← h, List.length_cons]
    omega

theorem joinedLine?_length {s rest : List Char} (h : joinedLine? s = some rest) :
    rest.length < s.length := by
  simp only [joinedLine?, Option.map_eq_some_iff] at h
  obtain ⟨t, ht, rfl⟩ := h
  have h1 := lineBreak?_length ht
  have h2 := dropBlankLines_length t
  have h3 := (List.dropWhile_sublist (l := s) isGap).length_le
  omega

/-- A string on several lines, read after its three opening quotes. Every line break counts as one
line feed. -/
def multilineBasic? : List Char → Option (List Char × List Char)
  | [] => none
  | c :: s =>
    if c = '"' then
      match after? ['"', '"'] s with
      | some rest => some (extraQuotes '"' rest)
      | none => (multilineBasic? s).map fun (text, rest) => ('"' :: text, rest)
    else if c = '\\' then
      match hj : joinedLine? s with
      | some rest =>
        have : rest.length < s.length := joinedLine?_length hj
        multilineBasic? rest
      | none =>
        match he : escape? s with
        | none => none
        | some (e, rest) =>
          have : rest.length < s.length := escape?_length he
          (multilineBasic? rest).map fun (text, rest) => (e :: text, rest)
    else
      match hb : lineBreak? (c :: s) with
      | some rest =>
        have : rest.length < s.length + 1 := lineBreak?_length hb
        (multilineBasic? rest).map fun (text, rest) => ('\n' :: text, rest)
      | none =>
        if isVisible c then (multilineBasic? s).map fun (text, rest) => (c :: text, rest)
        else none
termination_by s => s.length

/-- A string on several lines without escapes, read after its three opening quotes. -/
def multilineLiteral? : List Char → Option (List Char × List Char)
  | [] => none
  | c :: s =>
    if c = '\'' then
      match after? ['\'', '\''] s with
      | some rest => some (extraQuotes '\'' rest)
      | none => (multilineLiteral? s).map fun (text, rest) => ('\'' :: text, rest)
    else
      match hb : lineBreak? (c :: s) with
      | some rest =>
        have : rest.length < s.length + 1 := lineBreak?_length hb
        (multilineLiteral? rest).map fun (text, rest) => ('\n' :: text, rest)
      | none =>
        if isVisible c then (multilineLiteral? s).map fun (text, rest) => (c :: text, rest)
        else none
termination_by s => s.length

/-- A line break right after three opening quotes does not count. -/
def dropLineBreak (s : List Char) : List Char := (lineBreak? s).getD s

def string? (s : List Char) : Option (List Char × List Char) :=
  match after? ['"', '"', '"'] s, after? ['\'', '\'', '\''] s, s with
  | some rest, _, _ => multilineBasic? (dropLineBreak rest)
  | _, some rest, _ => multilineLiteral? (dropLineBreak rest)
  | _, _, '"' :: rest => basicString? rest
  | _, _, '\'' :: rest => literalString? rest
  | _, _, _ => none

end EmailTemplate.Toml
