import EmailTemplate.Html.Entity
import EmailTemplate.Text.Find

/-! Character references in running text. Only a name or a number that ends in a semicolon is
decoded, each once. -/

namespace EmailTemplate.PlainText

open Text

/-- The value of digits in a base, if there are any and all are digits. -/
def numeral? (base : Nat) (s : List Char) : Option Nat :=
  if s.isEmpty then none
  else s.foldlM (fun n c =>
    (hexDigit? c).bind fun d => if d < base then some (base * n + d) else none) 0

/-- The character of a number: not a surrogate, nothing beyond the last code point, and no control
but tab, line feed, form feed and carriage return. -/
def scalar? (n : Nat) : Option Char :=
  if n < 32 ∧ n ≠ 9 ∧ n ≠ 10 ∧ n ≠ 12 ∧ n ≠ 13 then none
  else if h : n.isValidChar then some (Char.ofNatAux n h) else none

/-- What a reference stands for, given what is between ampersand and semicolon. Of the characters
of a name only the first is put. -/
def reference? : List Char → Option Char
  | '#' :: 'x' :: digits => (numeral? 16 digits).bind scalar?
  | '#' :: 'X' :: digits => (numeral? 16 digits).bind scalar?
  | '#' :: digits => (numeral? 10 digits).bind scalar?
  | name => (Html.entity? name).bind (·.head?)

/-- The reference at the head of the text: it runs to the next semicolon, and no other ampersand
stands before that. -/
def referenceAt? (s : List Char) : Option (List Char × Nat) :=
  (after? ['&'] s).bind fun t =>
    let inside := t.takeWhile fun c => c != ';' && c != '&'
    (after? [';'] (t.drop inside.length)).bind fun _ =>
      (reference? inside).map fun c => ([c], inside.length + 2)

def decodeReferences (s : List Char) : List Char := replaceMatches referenceAt? s

end EmailTemplate.PlainText
