/-! # Dates and timestamps

    Dates of the proleptic Gregorian calendar, which has a year 0 and negative
    years before it, and instants on such dates.  Both are stored by their
    distance from 1970-01-01.
-/

namespace Columnar

/-! ### Calendar rules -/

def isLeapYear (year : Int) : Bool :=
  year % 4 = 0 && (year % 100 ≠ 0 || year % 400 = 0)

/-- The days of a month, or 0 if there is no such month. -/
def daysInMonth (year : Int) (month : Nat) : Nat :=
  match month with
  | 1 | 3 | 5 | 7 | 8 | 10 | 12 => 31
  | 4 | 6 | 9 | 11 => 30
  | 2 => if isLeapYear year then 29 else 28
  | _ => 0

/-- The days of a year before the first of a month. -/
def daysBeforeMonth (year : Int) : Nat → Nat
  | 0 | 1 => 0
  | month + 2 => daysBeforeMonth year (month + 1) + daysInMonth year (month + 1)

/-- The days from 0001-01-01 to the first of January of a year; negative before it. -/
def daysBeforeYear (year : Int) : Int :=
  let y := year - 1
  365 * y + y / 4 - y / 100 + y / 400

def minYear : Int := -262143

def maxYear : Int := 262142

/-! ### Dates -/

structure Date where
  year : Int
  month : Nat
  day : Nat
  year_mem : minYear ≤ year ∧ year ≤ maxYear
  day_mem : 1 ≤ day ∧ day ≤ daysInMonth year month
  deriving DecidableEq, Repr

namespace Date

/-- The date of that year, month and day, if there is one. -/
def ofCivil? (year : Int) (month day : Nat) : Option Date :=
  if hy : minYear ≤ year ∧ year ≤ maxYear then
    if hd : 1 ≤ day ∧ day ≤ daysInMonth year month then some ⟨year, month, day, hy, hd⟩ else none
  else none

/-- The days from 1970-01-01 to the date. -/
def epochDay (d : Date) : Int :=
  daysBeforeYear d.year + daysBeforeMonth d.year d.month + d.day - 719163

end Date

/-! ### Timestamps -/

/-- A time on a date.  The nanoseconds reach into the second behind for a leap second. -/
structure Timestamp where
  date : Date
  hour : Nat
  minute : Nat
  second : Nat
  nanos : Nat
  hour_lt : hour < 24
  minute_lt : minute < 60
  second_lt : second < 60
  nanos_lt : nanos < 2000000000
  deriving DecidableEq, Repr

namespace Timestamp

/-- The time of that hour, minute, second and nanosecond on a date, if there is one. -/
def ofClock? (date : Date) (hour minute second nanos : Nat) : Option Timestamp :=
  if h : hour < 24 ∧ minute < 60 ∧ second < 60 ∧ nanos < 2000000000 then
    some ⟨date, hour, minute, second, nanos, h.1, h.2.1, h.2.2.1, h.2.2.2⟩
  else none

/-- The nanoseconds from the start of 1970-01-01 to the instant. -/
def epochNanos (t : Timestamp) : Int :=
  (t.date.epochDay * 86400 + (t.hour * 3600 + t.minute * 60 + t.second : Nat)) * 1000000000 + t.nanos

/-- The microseconds from the start of 1970-01-01, rounded toward the past. -/
def epochMicros (t : Timestamp) : Int :=
  t.epochNanos / 1000

end Timestamp

/-! ### Texts -/

/-- The number with zeros in front up to a width. -/
def paddedNat (width n : Nat) : String :=
  let digits := toString n
  String.ofList (List.replicate (width - digits.length) '0') ++ digits

/-- Year, month and day.  Years outside of 0 to 9999 have a sign. -/
def Date.text (d : Date) : String :=
  let sign := if d.year < 0 then "-" else if d.year ≤ 9999 then "" else "+"
  s!"{sign}{paddedNat 4 d.year.natAbs}-{paddedNat 2 d.month}-{paddedNat 2 d.day}"

/-- The fraction of a second in milliseconds, microseconds or nanoseconds, whichever is exact. -/
def fractionText (nanos : Nat) : String :=
  if nanos = 0 then ""
  else if nanos % 1000000 = 0 then "." ++ paddedNat 3 (nanos / 1000000)
  else if nanos % 1000 = 0 then "." ++ paddedNat 6 (nanos / 1000)
  else "." ++ paddedNat 9 nanos

/-- Date and time.  A leap second is the second number 60. -/
def Timestamp.text (t : Timestamp) : String :=
  let second := t.second + t.nanos / 1000000000
  let clock := s!"{paddedNat 2 t.hour}:{paddedNat 2 t.minute}:{paddedNat 2 second}"
  s!"{t.date.text}T{clock}{fractionText (t.nanos % 1000000000)}"

end Columnar
