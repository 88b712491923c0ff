import EmailTemplate.Decimal.Double

/-! The decimal with the fewest digits that reads back as a given double, and the nearest of
those. -/

namespace EmailTemplate.Double

/-- `digits * 10 ^ exponent`. -/
structure Decimal where
  digits : Nat
  exponent : Int
  deriving DecidableEq, Repr

def digitCount (n : Nat) : Nat := (Nat.toDigits 10 n).length

/-- The `k` with `10 ^ (k - 1) ≤ num / den < 10 ^ k`, for a positive fraction. -/
def pointOf (num den : Nat) : Int :=
  if den ≤ num then digitCount (num / den)
  else 1 - (digitCount ((den - 1) / num) : Int)

/-- The numbers that round to a double of significand `m`, in quarters of its last place: the ends
belong to them if `m` is even. The lower half is narrow where the exponent changes. -/
structure Interval where
  low : Nat
  middle : Nat
  high : Nat
  closed : Bool

def interval (d : Double) : Interval :=
  let m := d.significand
  let narrow := decide (m = perExponent) && decide (-1074 < d.exponent)
  ⟨4 * m - (if narrow then 1 else 2), 4 * m, 4 * m + 2, m % 2 == 0⟩

/-- Looks at the grid of `10 ^ g` beside the number: the neighbour that reads back, the nearer one
if both do, the even one if both are as near. -/
def onGrid? (d : Double) (g : Int) : Option Decimal :=
  let i := d.interval
  let ten := Nat.pow 10 g.toNat * Nat.pow 2 (2 - d.exponent).toNat
  let two := Nat.pow 2 (d.exponent - 2).toNat * Nat.pow 10 (-g).toNat
  let inside (c : Nat) : Bool :=
    if i.closed then decide (i.low * two ≤ c * ten) && decide (c * ten ≤ i.high * two)
    else decide (i.low * two < c * ten) && decide (c * ten < i.high * two)
  let c := i.middle * two / ten
  let below := i.middle * two - c * ten
  let above := (c + 1) * ten - i.middle * two
  let nearer : Nat :=
    if below < above then c else if above < below then c + 1 else if c % 2 = 0 then c else c + 1
  if inside c && inside (c + 1) then some ⟨nearer, g⟩
  else if inside c then some ⟨c, g⟩
  else if inside (c + 1) then some ⟨c + 1, g⟩
  else none

/-- Moves zeros at the end of the digits into the exponent; `fuel` bounds their number. -/
def Decimal.normal (fuel : Nat) (x : Decimal) : Decimal :=
  match fuel with
  | 0 => x
  | fuel + 1 =>
    if x.digits % 10 = 0 ∧ x.digits ≠ 0 then Decimal.normal fuel ⟨x.digits / 10, x.exponent + 1⟩
    else x

/-- The shortest decimal of the magnitude of a double other than zero: seventeen digits always
read back. -/
def shortest (d : Double) : Decimal :=
  let k := pointOf d.fraction.1 d.fraction.2
  let grids := (List.range 17).map fun (n : Nat) => k - 1 - (n : Int)
  match grids.findSome? d.onGrid? with
  | some x => x.normal 20
  | none => ⟨0, 0⟩

end EmailTemplate.Double
