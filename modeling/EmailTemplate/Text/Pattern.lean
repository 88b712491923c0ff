import EmailTemplate.Text.Blank
import EmailTemplate.Text.Word

/-! Patterns over a text. A pattern lists the places that it may reach from a place, the preferred
first; a match is the preferred one at the leftmost place that has any. -/

namespace EmailTemplate.Text

/-- A place in a text: the character before it, and what follows. -/
structure Place where
  before : Option Char
  rest : List Char
  deriving DecidableEq, Repr

abbrev Pattern := Place → List Place

namespace Pattern

def one (fits : Char → Bool) : Pattern
  | ⟨_, []⟩ => []
  | ⟨_, c :: rest⟩ => if fits c then [⟨some c, rest⟩] else []

def andThen (p q : Pattern) : Pattern := fun place => (p place).flatMap q

def orElse (p q : Pattern) : Pattern := fun place => p place ++ q place

def optional (p : Pattern) : Pattern := fun place => p place ++ [place]

def times (p : Pattern) : Nat → Pattern
  | 0 => fun place => [place]
  | n + 1 => p.andThen (p.times n)

/-- As many as possible, up to a number. -/
def upTo (p : Pattern) : Nat → Pattern
  | 0 => fun place => [place]
  | n + 1 => optional (p.andThen (p.upTo n))

/-- At least `low` and at most `high` times, preferably more. -/
def between (p : Pattern) (low high : Nat) : Pattern := (p.times low).andThen (p.upTo (high - low))

/-- Before each character of a class from a place on, and after the last, there is a place; the
farthest come first, and those of `done` last. -/
def manyFrom (fits : Char → Bool) (done : List Place) : Option Char → List Char → List Place
  | before, [] => ⟨before, []⟩ :: done
  | before, c :: rest =>
    let done := ⟨before, c :: rest⟩ :: done
    if fits c then manyFrom fits done (some c) rest else done

def many (fits : Char → Bool) : Pattern := fun place => manyFrom fits [] place.before place.rest

def atLeastOne (fits : Char → Bool) : Pattern := (one fits).andThen (many fits)

/-- The place after all characters of a class. -/
def pastRun (fits : Char → Bool) : Option Char → List Char → Place
  | before, [] => ⟨before, []⟩
  | before, c :: rest => if fits c then pastRun fits (some c) rest else ⟨before, c :: rest⟩

/-- All characters of a class, at least one; unlike `atLeastOne` it leaves none of them to what
comes next. -/
def wholeRun (fits : Char → Bool) : Pattern :=
  (one fits).andThen fun place => [pastRun fits place.before place.rest]

/-- Between a word character and another. -/
def boundary : Pattern := fun place =>
  if isWordBoundary place.before place.rest.head? then [place] else []

def inOrder : List Pattern → Pattern
  | [] => fun place => [place]
  | p :: ps => p.andThen (inOrder ps)

/-- The text that a pattern matches right at a place. -/
def matchAt? (p : Pattern) (place : Place) : Option (List Char) :=
  (p place).head?.map fun e => place.rest.take (place.rest.length - e.rest.length)

def findFrom? (p : Pattern) (before : Option Char) : List Char → Option (List Char)
  | [] => p.matchAt? ⟨before, []⟩
  | c :: rest =>
    match p.matchAt? ⟨before, c :: rest⟩ with
    | some found => some found
    | none => p.findFrom? (some c) rest

def find? (p : Pattern) (s : List Char) : Option (List Char) := p.findFrom? none s

end Pattern

end EmailTemplate.Text
