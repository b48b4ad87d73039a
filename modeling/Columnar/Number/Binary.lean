/-! # Binary floating-point numbers

    Single and double precision numbers by their bits.  A finite number is an
    integral mantissa times a power of two.
-/

namespace Columnar

/-- A single precision number: 1 bit of sign, 8 of exponent, 23 of fraction. -/
structure Single where
  bits : UInt32
  deriving Repr, DecidableEq

/-- A double precision number: 1 bit of sign, 11 of exponent, 52 of fraction. -/
structure Double where
  bits : UInt64
  deriving Repr, DecidableEq

/-- What the bits of a number stand for. -/
inductive FloatValue where
  | nan
  | infinite (negative : Bool)
  /-- The number `mantissa * 2 ^ exponent`, with its sign.  `lowest` tells that the number below
      has a lesser exponent and so is only half as far away as the one above. -/
  | finite (negative : Bool) (mantissa : Nat) (exponent : Int) (lowest : Bool)
  deriving Repr, DecidableEq

/-- The meaning of a number by its sign, exponent field and fraction, where `hidden` is the bit in
    front of a fraction, `least` the least exponent, and `top` the largest exponent field. -/
def FloatValue.ofFields (hidden : Nat) (least : Int) (top : Nat) (negative : Bool)
    (field fraction : Nat) : FloatValue :=
  if field = top then (if fraction = 0 then .infinite negative else .nan)
  else if field = 0 then .finite negative fraction least false
  else .finite negative (hidden + fraction) (least + (field - 1 : Nat)) (fraction = 0 && field > 1)

namespace Single

def negative (x : Single) : Bool := 0x80000000 ≤ x.bits.toNat

/-- The exponent field. -/
def field (x : Single) : Nat := x.bits.toNat / 0x800000 % 0x100

def fraction (x : Single) : Nat := x.bits.toNat % 0x800000

def value (x : Single) : FloatValue := .ofFields 0x800000 (-149) 0xFF x.negative x.field x.fraction

end Single

namespace Double

def negative (x : Double) : Bool := 0x8000000000000000 ≤ x.bits.toNat

/-- The exponent field. -/
def field (x : Double) : Nat := x.bits.toNat / 0x10000000000000 % 0x800

def fraction (x : Double) : Nat := x.bits.toNat % 0x10000000000000

def value (x : Double) : FloatValue :=
  .ofFields 0x10000000000000 (-1074) 0x7FF x.negative x.field x.fraction

/-- The number of that sign, exponent field and fraction. -/
def ofFields (negative : Bool) (field fraction : Nat) : Double :=
  let magnitude := field * 0x10000000000000 + fraction
  ⟨UInt64.ofNat (if negative then 0x8000000000000000 + magnitude else magnitude)⟩

/-- Half a unit above the largest finite number: what reaches this is rounded to infinity. -/
def overflow : Nat := 0x3FFFFFFFFFFFFF <<< 970

/-- The whole number nearest to `n` that has no more than 53 bits but zeros behind them; of two such
    numbers the one whose last bit is zero. -/
def nearest (n : Nat) : Nat :=
  let unit := 1 <<< (Nat.log2 n - 52)
  let (quotient, rest) := (n / unit, n % unit)
  let up := unit < 2 * rest || (2 * rest == unit && quotient % 2 == 1)
  (if up then quotient + 1 else quotient) * unit

/-- Does the decimal `coefficient * 10 ^ exponent` round to a finite number? -/
def inRange (coefficient : Nat) (exponent : Int) : Bool :=
  let size : Int := (Nat.toDigits 10 coefficient).length + exponent
  if coefficient = 0 || size ≤ 308 then true
  else if size > 310 then false
  else if exponent ≥ 0 then coefficient * Nat.pow 10 exponent.toNat < overflow
  else coefficient < overflow * Nat.pow 10 (-exponent).toNat

end Double

/-- The double of the same value; a NaN stays one, and a number without hidden bit gets one. -/
def Single.toDouble (x : Single) : Double :=
  if x.field = 0xFF then
    .ofFields x.negative 0x7FF
      (if x.fraction = 0 then 0 else 0x8000000000000 + (x.fraction % 0x400000) <<< 29)
  else if x.field = 0 then
    if x.fraction = 0 then .ofFields x.negative 0 0
    else
      let top := Nat.log2 x.fraction
      .ofFields x.negative (top + 874) ((x.fraction - (1 <<< top)) <<< (52 - top))
  else .ofFields x.negative (x.field + 896) (x.fraction <<< 29)

end Columnar
