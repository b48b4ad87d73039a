import Columnar.Schema.Column

/-! # Column numbers as texts

    A column number has 32 bits.  Its text is a run of decimal digits, with a
    plus sign in front if one likes.
-/

namespace Columnar

/-- Why a text is no number. -/
inductive NumberError where
  | empty
  | invalidDigit
  | tooLarge
  deriving Repr, DecidableEq

def NumberError.message : NumberError → String
  | .empty => "cannot parse integer from empty string"
  | .invalidDigit => "invalid digit found in string"
  | .tooLarge => "number too large to fit in target type"

inductive ColumnIdError where
  | text (written : String) (cause : NumberError)
  | range (index : Nat)
  deriving Repr, DecidableEq

def ColumnIdError.message : ColumnIdError → String
  | .text written cause => s!"invalid column id string '{written}': {cause.message}"
  | .range index => s!"invalid column id: {index}"

namespace ColumnId

/-- The largest column number. -/
def largest : Nat := UInt32.size - 1

/-- Append digits to a number; the first one that is none or goes too far is an error. -/
def readDigits (n : Nat) : List Char → Except NumberError Nat
  | [] => .ok n
  | c :: rest =>
    if !c.isDigit then .error .invalidDigit
    else
      let n := n * 10 + (c.toNat - 48)
      if largest < n then .error .tooLarge else readDigits n rest

/-- The number written by a text. -/
def ofText (written : String) : Except ColumnIdError ColumnId :=
  let number : Except NumberError Nat := match written.toList with
    | [] => .error .empty
    | ['+'] => .error .invalidDigit
    | '+' :: rest => readDigits 0 rest
    | cs => readDigits 0 cs
  number.mapError (.text written)

/-- The column number of an index, if it has no more than 32 bits. -/
def ofIndex (index : Nat) : Except ColumnIdError ColumnId :=
  if index ≤ largest then .ok index else .error (.range index)

/-- Is it the number of a whole tree's root? -/
def isRoot (id : ColumnId) : Bool := id == 0

end ColumnId

end Columnar
