import Columnar.Document
import Columnar.Number.Binary
import Columnar.Text.Digits

/-! # JSON numbers

    A number is read as a coefficient of 64 bits times a power of ten, and has
    a value if the double nearest to the coefficient, times the double nearest
    to the power, is a finite double.  Close to the largest double this is not
    the same as asking which double is nearest to the number.
-/

namespace Columnar.Json

open Text (valueInBase)

/-! ### The range -/

def maxCoefficient : Nat := 0xFFFFFFFFFFFFFFFF

/-- Write digits behind a coefficient, up to the first that does not fit.  The digits that are left
    are the second part. -/
def takeDigits (coefficient : Nat) : List Char → Nat × List Char
  | [] => (coefficient, [])
  | d :: ds =>
    let next := coefficient * 10 + (Text.hexDigit? d).getD 0
    if next ≤ maxCoefficient then takeDigits next ds else (coefficient, d :: ds)

/-- A number without its sign: `coefficient * 10 ^ exponent`. -/
structure Magnitude where
  coefficient : Nat
  exponent : Int
  deriving Repr, DecidableEq

namespace Magnitude

/-- What is kept of a number.  Whole digits that are left over still count as places, digits of the
    fraction do not. -/
def ofDigits (whole fraction : List Char) (exponent : Int) : Magnitude :=
  let (coefficient, placesAbove) := takeDigits 0 whole
  let (coefficient, rest) := takeDigits coefficient fraction
  let placesBelow := fraction.length - rest.length
  ⟨coefficient, exponent + placesAbove.length - placesBelow⟩

/-- The largest exponent of which the power is a finite double. -/
def maxExponent : Nat := 308

/-- Is the product a finite double? -/
def inRange (m : Magnitude) : Bool :=
  if m.coefficient = 0 || m.exponent < 0 then true
  else if m.exponent > maxExponent then false
  else
    Double.nearest m.coefficient * Double.nearest (Nat.pow 10 m.exponent.toNat) < Double.overflow

end Magnitude

/-! ### Reading -/

/-- The value of an exponent such as `+05`, without its letter. -/
def exponent? (cs : List Char) : Option Int :=
  let (negative, ds) := match cs with
    | '-' :: ds => (true, ds)
    | '+' :: ds => (false, ds)
    | ds => (false, ds)
  if ds.isEmpty || !ds.all Char.isDigit then none
  else some (if negative then -(valueInBase 10 ds) else valueInBase 10 ds)

/-- The fraction digits and the exponent behind the whole digits of a number. -/
def fractionAndExponent? (cs : List Char) : Option (List Char × Int) :=
  let (fraction, rest) := match cs with
    | '.' :: rest => (some (rest.takeWhile Char.isDigit), rest.dropWhile Char.isDigit)
    | _ => (none, cs)
  if fraction = some [] then none
  else match rest with
    | [] => some (fraction.getD [], 0)
    | e :: rest =>
      if e = 'e' ∨ e = 'E' then (exponent? rest).map fun x => (fraction.getD [], x) else none

/-- The number written by a word.  A zero with a minus sign is no integer. -/
def number? (written : List Char) : Option Document :=
  let (negative, rest) := match written with
    | '-' :: rest => (true, rest)
    | rest => (false, rest)
  let whole := rest.takeWhile Char.isDigit
  let rest := rest.dropWhile Char.isDigit
  if whole.isEmpty || (whole.head? == some '0' && whole.length > 1) then none
  else (fractionAndExponent? rest).map fun (fraction, exponent) =>
    let n := valueInBase 10 whole
    if !(Magnitude.ofDigits whole fraction exponent).inRange then .unreadable
    else if !rest.isEmpty || (negative && n = 0) then .real (String.ofList written)
    else .integer (if negative then -n else n)

end Columnar.Json
