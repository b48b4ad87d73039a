/-! # Shortest decimals

    The fewest decimal digits that read back as a given binary number, and of
    those the ones nearest to it.

    A decimal reads back as `m * 2 ^ q` if it lies between the midpoints to
    the two neighbours; the midpoints themselves count when `m` is even.  For
    each number of digits only the two decimals next to the number can be the
    nearest, so only they are tried.
-/

namespace Columnar

/-- The number `digits * 10 ^ exponent`. -/
structure Decimal where
  digits : Nat
  exponent : Int
  deriving Repr, DecidableEq

namespace Shortest

/-- A number and the ends of the interval that reads back as it, with a common denominator. -/
structure Interval where
  low : Nat
  value : Nat
  high : Nat
  denominator : Nat
  /-- Do the ends belong to it? -/
  closed : Bool
  deriving Repr

/-- The interval of `m * 2 ^ q`; the number below is at half the distance if `lowest`. -/
def interval (m : Nat) (q : Int) (lowest : Bool) : Interval :=
  let up := 1 <<< (q - 2).toNat
  { low := (4 * m - if lowest then 1 else 2) * up
    value := 4 * m * up
    high := (4 * m + 2) * up
    denominator := 1 <<< (2 - q).toNat
    closed := m % 2 = 0 }

def Interval.scale (i : Interval) (k : Int) : Interval :=
  let up := Nat.pow 10 k.toNat
  { i with
    low := i.low * up
    value := i.value * up
    high := i.high * up
    denominator := i.denominator * Nat.pow 10 (-k).toNat }

/-- Does the interval hold the integer? -/
def Interval.holds (i : Interval) (n : Nat) : Bool :=
  let x := n * i.denominator
  if i.closed then i.low ≤ x && x ≤ i.high else i.low < x && x < i.high

def decimalLength (n : Nat) : Nat := (Nat.toDigits 10 n).length

/-- The number of digits before the point of a positive number; not positive below one tenth. -/
def Interval.magnitude (i : Interval) : Int :=
  let k : Int := (decimalLength i.value : Int) - decimalLength i.denominator
  let scaled := i.scale (-k)
  if scaled.value < scaled.denominator then k else k + 1

/-- The nearest decimal of so many digits, if it reads back.  A tie goes up. -/
def Interval.nearest? (i : Interval) (count : Nat) : Option Decimal :=
  let k := count - i.magnitude
  let scaled := i.scale k
  let below := scaled.value / scaled.denominator
  let above := below + 1
  let remainder := scaled.value % scaled.denominator
  if scaled.holds below && (!scaled.holds above || 2 * remainder < scaled.denominator) then
    some ⟨below, -k⟩
  else if scaled.holds above then some ⟨above, -k⟩
  else none

end Shortest

/-- The shortest decimal for `m * 2 ^ q`, where `m` is positive and has at most 53 bits: then
    seventeen digits suffice. -/
def Decimal.shortest (m : Nat) (q : Int) (lowest : Bool) : Decimal :=
  let i := Shortest.interval m q lowest
  ((List.range 17).findSome? fun n => i.nearest? (n + 1)).getD ⟨0, 0⟩

end Columnar
