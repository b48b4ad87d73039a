import Columnar.Calendar
import Columnar.Document
import Columnar.Number.Binary
import Columnar.Text.Digits

/-! # TOML scalars

    The values that a run of bare characters can have: truth values, integers
    of 64 bits in four bases, floats, dates and times.
-/

namespace Columnar.Toml

open Text (valueInBase)

/-! ### Digits -/

/-- The digits of a run in which single underscores may stand between digits. -/
def digits? (isDigit : Char → Bool) : List Char → Option (List Char)
  | [] => none
  | [c] => if isDigit c then some [c] else none
  | c :: '_' :: rest => if isDigit c then (digits? isDigit rest).map (c :: ·) else none
  | c :: rest => if isDigit c then (digits? isDigit rest).map (c :: ·) else none

def isHexDigit (c : Char) : Bool := (Text.hexDigit? c).isSome

def isOctalDigit (c : Char) : Bool := '0' ≤ c && c ≤ '7'

def isBinaryDigit (c : Char) : Bool := c == '0' || c == '1'

/-- Take a sign off. -/
def signed : List Char → Bool × List Char
  | '-' :: rest => (true, rest)
  | '+' :: rest => (false, rest)
  | rest => (false, rest)

/-- The digits of a decimal integer: no zero in front of others. -/
def wholeDigits? (cs : List Char) : Option (List Char) := do
  let ds ← digits? Char.isDigit cs
  guard (ds.head? != some '0' || ds.length = 1)
  return ds

/-! ### Numbers -/

/-- An integer, if it has no more than 64 bits. -/
def integerOf (n : Int) : Option Document :=
  if Int64.minValue.toInt ≤ n ∧ n ≤ Int64.maxValue.toInt then some (.integer n) else none

def integer? (cs : List Char) : Option Document :=
  match cs with
  | '0' :: 'x' :: rest => do integerOf (valueInBase 16 (← digits? isHexDigit rest))
  | '0' :: 'o' :: rest => do integerOf (valueInBase 8 (← digits? isOctalDigit rest))
  | '0' :: 'b' :: rest => do integerOf (valueInBase 2 (← digits? isBinaryDigit rest))
  | _ => do
    let (negative, rest) := signed cs
    let n := valueInBase 10 (← wholeDigits? rest)
    integerOf (if negative then -n else n)

/-- A number with a fraction, an exponent or both.  One that is too large is refused, unless it is
    negative. -/
def float? (cs : List Char) : Option Document := do
  let (negative, rest) := signed cs
  if rest = ['i', 'n', 'f'] ∨ rest = ['n', 'a', 'n'] then return .real (String.ofList cs)
  let isMark (c : Char) := c == 'e' || c == 'E'
  let significand := rest.takeWhile (!isMark ·)
  let exponent ← match rest.dropWhile (!isMark ·) with
    | [] => some none
    | _ :: written =>
      let (negative, ds) := signed written
      (digits? Char.isDigit ds).map fun ds =>
        let n : Int := valueInBase 10 ds
        some (if negative then -n else n)
  let whole ← wholeDigits? (significand.takeWhile (· != '.'))
  let fraction ← match significand.dropWhile (· != '.') with
    | [] => some none
    | _ :: ds => (digits? Char.isDigit ds).map some
  guard (exponent.isSome || fraction.isSome)
  let fraction := fraction.getD []
  guard (negative || Double.inRange (valueInBase 10 (whole ++ fraction))
    (exponent.getD 0 - fraction.length))
  return .real (String.ofList cs)

/-! ### Dates and times -/

/-- The value of exactly so many digits, and what follows them. -/
def fixed? (count : Nat) (cs : List Char) : Option (Nat × List Char) :=
  let ds := cs.take count
  if ds.length = count && ds.all Char.isDigit then some (valueInBase 10 ds, cs.drop count) else none

/-- What follows the character. -/
def after? (c : Char) : List Char → Option (List Char)
  | d :: rest => if c = d then some rest else none
  | [] => none

/-- What follows a date. -/
def afterDate? (cs : List Char) : Option (List Char) := do
  let (year, cs) ← fixed? 4 cs
  let (month, cs) ← fixed? 2 (← after? '-' cs)
  let (day, cs) ← fixed? 2 (← after? '-' cs)
  guard (1 ≤ day ∧ day ≤ daysInMonth year month)
  return cs

/-- What follows hours and minutes. -/
def afterMinutes? (cs : List Char) : Option (List Char) := do
  let (hour, cs) ← fixed? 2 cs
  let (minute, cs) ← fixed? 2 (← after? ':' cs)
  guard (hour < 24 ∧ minute < 60)
  return cs

/-- What follows a time of day.  A leap second is the second number 60. -/
def afterTime? (cs : List Char) : Option (List Char) := do
  let cs ← afterMinutes? cs
  let (second, cs) ← fixed? 2 (← after? ':' cs)
  guard (second ≤ 60)
  match cs with
  | '.' :: rest =>
    guard ((rest.head?.map Char.isDigit).getD false)
    return rest.dropWhile Char.isDigit
  | _ => return cs

/-- Is this nothing, or the offset of a time zone? -/
def isOffset : List Char → Bool
  | [] | ['Z'] | ['z'] => true
  | c :: rest => (c == '+' || c == '-') && afterMinutes? rest == some []

def isDatetime (cs : List Char) : Bool :=
  match afterDate? cs with
  | some [] => true
  | some (c :: rest) =>
    (c == 'T' || c == 't' || c == ' ') && ((afterTime? rest).map isOffset).getD false
  | none => afterTime? cs == some []

/-! ### Values -/

/-- The value of a run of bare characters. -/
def scalar? (cs : List Char) : Option Document :=
  if cs = ['t', 'r', 'u', 'e'] then some (.boolean true)
  else if cs = ['f', 'a', 'l', 's', 'e'] then some (.boolean false)
  else if isDatetime cs then some (.datetime (String.ofList cs))
  else (integer? cs).orElse fun _ => float? cs

end Columnar.Toml
