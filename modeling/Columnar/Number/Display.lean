import Columnar.Number.Binary
import Columnar.Number.Shortest

/-! # Texts of floating-point numbers

    A number is written with the fewest digits that read back as it.
-/

namespace Columnar

/-- The digits of a decimal without closing zeros, and the exponent of the first one. -/
def Decimal.scientific (d : Decimal) : List Char × Int :=
  let digits := Nat.toDigits 10 d.digits
  ((digits.reverse.dropWhile (· == '0')).reverse, d.exponent + (digits.length - 1 : Nat))

/-- How the digits of a number are laid out. -/
structure NumberLayout where
  /-- The exponents of the first digit for which all digits are written out. -/
  positional : Int → Bool
  /-- What follows the point of an integer that is written out. -/
  integerTail : List Char
  exponentMark : Char

namespace NumberLayout

def layOut (l : NumberLayout) (digits : List Char) (exponent : Int) : List Char :=
  if l.positional exponent then
    if exponent < 0 then
      ['0', '.'] ++ List.replicate (-exponent - 1).toNat '0' ++ digits
    else
      let whole := exponent.toNat + 1
      let fraction := digits.drop whole
      digits.take whole ++ List.replicate (whole - digits.length) '0' ++ '.'
        :: if fraction.isEmpty then l.integerTail else fraction
  else
    let fraction := digits.drop 1
    digits.take 1 ++ (if fraction.isEmpty then [] else '.' :: fraction) ++ l.exponentMark
      :: (toString exponent).toList

end NumberLayout

/-- Numbers from one ten-thousandth to below `10 ^ 16` are written out, integers with a zero
    behind the point. -/
def plainLayout : NumberLayout where
  positional exponent := -4 ≤ exponent && exponent < 16
  integerTail := ['0']
  exponentMark := 'e'

/-- The text of a number. -/
def FloatValue.text : FloatValue → String
  | .nan => "NaN"
  | .infinite negative => if negative then "-inf" else "inf"
  | .finite negative mantissa exponent lowest =>
    let digits :=
      if mantissa = 0 then ['0', '.', '0']
      else
        let (digits, first) := (Decimal.shortest mantissa exponent lowest).scientific
        plainLayout.layOut digits first
    String.ofList (if negative then '-' :: digits else digits)

def Single.text (x : Single) : String := x.value.text

def Double.text (x : Double) : String := x.value.text

example : (Double.mk 0x3FF0000000000000).text = "1.0" := by decide +kernel
example : (Double.mk 0x8000000000000000).text = "-0.0" := by decide +kernel
example : (Double.mk 0x0000000000000001).text = "5e-324" := by decide +kernel
example : (Double.mk 0x4341C37937E08000).text = "1e16" := by decide +kernel
example : (Double.mk 0x3E60000000000000).text = "2.9802322387695313e-8" := by decide +kernel
example : (Single.mk 0x3DCCCCCD).text = "0.1" := by decide +kernel

end Columnar
