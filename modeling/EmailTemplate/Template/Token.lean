import EmailTemplate.Text.Find

/-! Tokens: text between two opening and two closing braces. -/

namespace EmailTemplate.Template

open Text

def openBraces : List Char := ['{', '{']

def closeBraces : List Char := ['}', '}']

def token (inner : List Char) : List Char := openBraces ++ inner ++ closeBraces

/-- The token of a name, as text to put into a document. -/
def nameToken (name : String) : String := String.ofList (token name.toList)

/-- The interior and the length of the token at the head of the text, its interior made of the
characters that `inside` admits; none of them is a closing brace. -/
def tokenAt? (inside : Char → Bool) (s : List Char) : Option (List Char × Nat) :=
  (after? openBraces s).bind fun t =>
    let inner := t.takeWhile inside
    (after? closeBraces (t.dropWhile inside)).map fun _ => (inner, inner.length + 4)

def isBrace (c : Char) : Bool := c == '{' || c == '}'

/-- A token without braces inside, which may name a value. -/
def valueToken? (s : List Char) : Option (List Char × Nat) := tokenAt? (fun c => !isBrace c) s

/-- Whatever would be seen as a token by a reader of the output. -/
def leftover? (s : List Char) : Option (List Char × Nat) := tokenAt? (fun c => c != '}') s

def strip (s : List Char) : List Char :=
  replaceMatches (fun t => (leftover? t).map fun (_, length) => ([], length)) s

end EmailTemplate.Template
