import EmailTemplate.Text.Ascii

/-! Sets of code points given as tables of closed ranges, the form in which character properties
are published. A table is written as one string of hexadecimal ranges apart by blanks. -/

namespace EmailTemplate.Text

structure Range where
  first : Nat
  last : Nat
  deriving DecidableEq, Repr

def Range.contains (r : Range) (n : Nat) : Bool := decide (r.first ≤ n) && decide (n ≤ r.last)

/-- Reads a table: a range is `first-last`, or one number for a range of one. -/
def rangesOf (table : String) : List Range :=
  let close (done : List Range) (start : Option Nat) (n : Nat) : List Range :=
    ⟨start.getD n, n⟩ :: done
  let rec go (done : List Range) (start : Option Nat) (n : Nat) : List Char → List Range
    | [] => (close done start n).reverse
    | c :: cs =>
      if c = ' ' then go (close done start n) none 0 cs
      else if c = '-' then go done (some n) 0 cs
      else match hexDigit? c with
        | some d => go done start (16 * n + d) cs
        | none => go done start n cs
  go [] none 0 table.toList

def inRanges (table : List Range) (c : Char) : Bool := table.any (·.contains c.toNat)

end EmailTemplate.Text
