import EmailTemplate.Decimal.Double

/-! Reading a decimal as a double in steps of double precision: the digits are rounded first, then
scaled by a power of ten that is itself rounded. The result may differ from the nearest double in
the last place. -/

namespace EmailTemplate.Double

/-- The double nearest to `10 ^ n`, for `n` up to 308. -/
def powerOfTen (n : Nat) : Double := ⟨false, nearestRank (Nat.pow 10 n) 1⟩

def mul? (a b : Double) : Option Double :=
  nearest? (a.negative != b.negative) (a.fraction.1 * b.fraction.1) (a.fraction.2 * b.fraction.2)

/-- The quotient of two doubles, the second one at least 1. -/
def div (a b : Double) : Double :=
  ⟨a.negative != b.negative,
    nearestRank (a.fraction.1 * b.fraction.2) (a.fraction.2 * b.fraction.1)⟩

/-- Divides by `10 ^ n` in steps of at most `10 ^ 308`; `steps` bounds their number. -/
def divPower (steps : Nat) (a : Double) (n : Nat) : Double :=
  match steps with
  | 0 => a
  | steps + 1 =>
    if n ≤ 308 then a.div (powerOfTen n)
    else if a.rank = 0 then a
    else divPower steps (a.div (powerOfTen 308)) (n - 308)

/-- The double read for `digits * 10 ^ exponent`, or none if it is not finite. A number of 64 bits
is zero after at most four steps down. -/
def ofParts? (negative : Bool) (digits : Nat) (exponent : Int) : Option Double := do
  let a : Double := ⟨false, nearestRank digits 1⟩
  let b ← if 0 ≤ exponent then
      if exponent ≤ 308 then a.mul? (powerOfTen exponent.toNat)
      else if a.rank = 0 then some a else none
    else some (divPower 4 a (-exponent).toNat)
  return ⟨negative, b.rank⟩

end EmailTemplate.Double
