import EmailTemplate.Text.Pattern

/-! Contact details of a brand in the markup of a message: telephone numbers and mail addresses,
and the placeholders that stand for them. -/

namespace EmailTemplate

open Text

/-- A kind of contact detail: how it is written, and the name of its placeholder. -/
structure Contact where
  placeholder : String
  pattern : Pattern

namespace Contact

def digit : Pattern := .one isDigit

def only (c : Char) : Pattern := .one (· == c)

def gap : Pattern := .optional (.one fun c => isBlank c || c == '-')

/-- Ten digits in groups, after `+7` or an `8` that begins a word. -/
def nationalPhone : Pattern :=
  .inOrder [.orElse (.inOrder [only '+', only '7']) (.inOrder [.boundary, only '8']), gap,
    .optional (only '('), digit.times 3, .optional (only ')'), gap, digit.times 3, gap,
    digit.times 2, gap, digit.times 2, .boundary]

/-- A country code, an area code and two to four groups of two to four digits. -/
def internationalPhone : Pattern :=
  .inOrder [only '+', digit.between 1 3, gap, .optional (only '('), digit.between 1 4,
    .optional (only ')'), .between (.inOrder [gap, digit.between 2 4]) 2 4, .boundary]

def isMailboxChar (c : Char) : Bool := isAsciiAlphanumeric c || "._%+-".toList.contains c

def isHostChar (c : Char) : Bool := isAsciiAlphanumeric c || c == '.' || c == '-'

/-- A mailbox at a host whose last part has two letters at least. No mailbox has the sign that
ends it. -/
def mailAddress : Pattern :=
  .inOrder [.wholeRun isMailboxChar, only '@', .atLeastOne isHostChar, only '.',
    .one isAsciiLetter, .atLeastOne isAsciiLetter]

/-- The kinds of contact details in the order in which they are replaced. -/
def all : List Contact :=
  [⟨"brand.phone", nationalPhone⟩, ⟨"brand.phone", internationalPhone⟩,
    ⟨"brand.support", mailAddress⟩]

end Contact

end EmailTemplate
