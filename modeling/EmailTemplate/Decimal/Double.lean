/-! Finite double-precision numbers in exact integer arithmetic: what a number is worth, and the
double nearest to a quotient. -/

namespace EmailTemplate

/-- A finite double: its sign and its place among the doubles that are not negative, counted from
zero in rising order. Neighbouring ranks are neighbouring numbers. -/
structure Double where
  negative : Bool
  rank : Nat
  deriving DecidableEq, Repr

namespace Double

/-- Doubles of one exponent. -/
def perExponent : Nat := 4503599627370496

/-- The rank at which the finite doubles end. -/
def infinityRank : Nat := 2047 * perExponent

/-- The magnitude is `significand * 2 ^ exponent`. -/
def significand (d : Double) : Nat :=
  if d.rank < perExponent then d.rank else d.rank % perExponent + perExponent

def exponent (d : Double) : Int :=
  if d.rank < perExponent then -1074 else (d.rank / perExponent : Nat) - 1075

def fraction (d : Double) : Nat × Nat :=
  (d.significand * Nat.pow 2 d.exponent.toNat, Nat.pow 2 (-d.exponent).toNat)

/-- The quotient rounded to the nearest integer, a half to the even one. -/
def roundDiv (num den : Nat) : Nat :=
  let q := num / den
  let r := num % den
  if 2 * r < den then q else if den < 2 * r then q + 1 else q + q % 2

/-- `n` times a power of two, which is 1 for negative exponents. -/
def scaled (n : Nat) (exponent : Int) : Nat := n * Nat.pow 2 exponent.toNat

/-- The rank of the double nearest to `num / den`; it may lie beyond the finite ones. -/
def nearestRank (num den : Nat) : Nat :=
  if num = 0 then 0
  else
    let scale (q : Int) : Nat := roundDiv (scaled num (-q)) (scaled den q)
    let low : Int := max ((Nat.log2 num : Int) - (Nat.log2 den : Int) - 53) (-1074)
    let q := if scaled num (-low) / scaled den low < 2 * perExponent then low else low + 1
    (q + 1074).toNat * perExponent + scale q

/-- The nearest double of the given sign, if it is finite. -/
def nearest? (negative : Bool) (num den : Nat) : Option Double :=
  let rank := nearestRank num den
  if rank < infinityRank then some ⟨negative, rank⟩ else none

def isWhole (d : Double) : Bool := d.fraction.1 % d.fraction.2 == 0

def whole (d : Double) : Nat := d.fraction.1 / d.fraction.2

end Double

end EmailTemplate
