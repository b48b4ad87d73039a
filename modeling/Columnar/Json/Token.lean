import Columnar.Text.Digits

/-! # JSON tokens

    A JSON text is cut into tokens one character at a time: the scanner is a
    fold of `Scan.step` over the characters, so scanning a text in two parts
    is scanning the first and going on with the second.
-/

namespace Columnar.Json

inductive Token where
  | openList
  | closeList
  | openTable
  | closeTable
  | comma
  | colon
  /-- A run of characters outside of strings: a number, `true`, `false` or `null` if it is legal. -/
  | word (written : List Char)
  /-- A string, or `none` if its escapes leave half of a surrogate pair. -/
  | text (value : Option String)
  deriving Repr, DecidableEq

/-! ### Strings -/

def isHighSurrogate (unit : Nat) : Bool := 0xD800 ≤ unit && unit ≤ 0xDBFF

def isLowSurrogate (unit : Nat) : Bool := 0xDC00 ≤ unit && unit ≤ 0xDFFF

/-- The character of a surrogate pair. -/
def pairChar (high low : Nat) : Char :=
  Char.ofNat (0x10000 + (high - 0xD800) * 0x400 + (low - 0xDC00))

/-- The text of a string given as characters and `\u` units: surrogates count in pairs only. -/
def joinUnits : List Nat → Option (List Char)
  | [] => some []
  | [u] => if isHighSurrogate u || isLowSurrogate u then none else some [Char.ofNat u]
  | u :: v :: rest =>
    if isHighSurrogate u then
      if isLowSurrogate v then (joinUnits rest).map (pairChar u v :: ·) else none
    else if isLowSurrogate u then none
    else (joinUnits (v :: rest)).map (Char.ofNat u :: ·)

/-- The character behind a backslash stands for this one. -/
def unescape : Char → Option Char
  | '"' => some '"'
  | '\\' => some '\\'
  | '/' => some '/'
  | 'b' => some '\x08'
  | 'f' => some '\x0c'
  | 'n' => some '\n'
  | 'r' => some '\r'
  | 't' => some '\t'
  | _ => none

/-! ### The scanner -/

/-- Where the scanner is.  Collected characters stand in reverse order. -/
inductive Place where
  /-- Outside of strings, behind the given run of characters. -/
  | outside (run : List Char)
  | inText (units : List Nat)
  /-- Behind the backslash of an escape. -/
  | inEscape (units : List Nat)
  /-- Inside a `\u` escape with so many digits to come. -/
  | inUnit (units : List Nat) (left : Nat) (value : Nat)
  deriving Repr, DecidableEq

/-- The tokens found so far, last one first, and the place reached. -/
structure Scan where
  tokens : List Token
  place : Place
  deriving Repr, DecidableEq

def isSpace (c : Char) : Bool := c == ' ' || c == '\n' || c == '\r' || c == '\t'

/-- The punctuation mark written by the character. -/
def mark? : Char → Option Token
  | '[' => some .openList
  | ']' => some .closeList
  | '{' => some .openTable
  | '}' => some .closeTable
  | ',' => some .comma
  | ':' => some .colon
  | _ => none

/-- End the run of characters, if there is one. -/
def flush (run : List Char) (tokens : List Token) : List Token :=
  if run.isEmpty then tokens else .word run.reverse :: tokens

def Scan.start : Scan := ⟨[], .outside []⟩

/-- Scan one character. -/
def Scan.step (scan : Scan) (c : Char) : Option Scan :=
  match scan.place with
  | .outside run =>
    if isSpace c then some ⟨flush run scan.tokens, .outside []⟩
    else if c = '"' then some ⟨flush run scan.tokens, .inText []⟩
    else match mark? c with
      | some mark => some ⟨mark :: flush run scan.tokens, .outside []⟩
      | none => some ⟨scan.tokens, .outside (c :: run)⟩
  | .inText units =>
    if c = '"' then
      some ⟨.text ((joinUnits units.reverse).map String.ofList) :: scan.tokens, .outside []⟩
    else if c = '\\' then some ⟨scan.tokens, .inEscape units⟩
    else if c.toNat < 0x20 then none
    else some ⟨scan.tokens, .inText (c.toNat :: units)⟩
  | .inEscape units =>
    if c = 'u' then some ⟨scan.tokens, .inUnit units 4 0⟩
    else (unescape c).map fun e => ⟨scan.tokens, .inText (e.toNat :: units)⟩
  | .inUnit units left value =>
    (Text.hexDigit? c).map fun d =>
      if left ≤ 1 then ⟨scan.tokens, .inText ((value * 16 + d) :: units)⟩
      else ⟨scan.tokens, .inUnit units (left - 1) (value * 16 + d)⟩

/-- The tokens of a scan that has reached the end of the text. -/
def Scan.finish? (scan : Scan) : Option (List Token) :=
  match scan.place with
  | .outside run => some (flush run scan.tokens).reverse
  | _ => none

/-- The tokens of a text, or `none` if a string is not closed or holds an illegal character. -/
def tokens? (s : List Char) : Option (List Token) :=
  (s.foldlM Scan.step Scan.start).bind Scan.finish?

end Columnar.Json
