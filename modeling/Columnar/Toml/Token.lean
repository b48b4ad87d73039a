import Columnar.Text.Digits

/-! # TOML tokens

    A TOML text is cut into tokens by a fold of `Scan.step` over its
    characters.  Comments and blanks are dropped, ends of lines are kept.
    Keys, numbers and dates are alike at this level: runs of bare characters.
-/

namespace Columnar.Toml

inductive Token where
  | newline
  | equals
  | comma
  | openBrace
  | closeBrace
  /-- A bracket; `adjacent` tells that one of the same sort stands directly before it. -/
  | openBracket (adjacent : Bool)
  | closeBracket (adjacent : Bool)
  /-- A run of characters outside of strings. -/
  | bare (written : List Char)
  | text (value : String) (multiline : Bool)
  deriving Repr, DecidableEq

/-! ### Characters -/

def isBareChar (c : Char) : Bool :=
  c.isAlphanum || c == '_' || c == '-' || c == '+' || c == '.' || c == ':'

/-- May the character stand in a comment or on a line of a string? -/
def isLineChar (c : Char) : Bool :=
  c == '\t' || (0x20 ≤ c.toNat && c.toNat != 0x7F)

/-- The character behind a backslash stands for this one. -/
def unescape : Char → Option Char
  | '"' => some '"'
  | '\\' => some '\\'
  | 'b' => some '\x08'
  | 'f' => some '\x0c'
  | 'n' => some '\n'
  | 'r' => some '\r'
  | 't' => some '\t'
  | _ => none

/-- The character of that code point, if there is one. -/
def char? (n : Nat) : Option Char :=
  if n < 0xD800 ∨ (0xDFFF < n ∧ n < 0x110000) then some (Char.ofNat n) else none

/-- Is the run a date such as `1979-05-27`? -/
def isDateRun (run : List Char) : Bool :=
  run.length = 10 && run.zipIdx.all fun (c, i) => if i = 4 || i = 7 then c == '-' else c.isDigit

/-! ### Places -/

/-- Where the scanner is inside a multi-line string. -/
inductive Phase where
  /-- Directly behind the opening marks, where an end of line does not count. -/
  | first
  /-- Behind so many quotation marks in a row. -/
  | body (marks : Nat)
  /-- Behind a carriage return. -/
  | carriage (keep trimming : Bool)
  /-- Behind a backslash and blanks, before the end of the line. -/
  | gap
  /-- Skipping blanks and ends of lines. -/
  | trimming
  deriving Repr, DecidableEq

/-- Where the scanner is.  Collected characters stand in reverse order. -/
inductive Place where
  | outside (run : List Char)
  /-- Behind a date and a blank; a time may follow. -/
  | afterDate (run : List Char)
  | comment
  /-- Behind a carriage return outside of strings. -/
  | carriage
  /-- Behind one or two opening quotation marks. -/
  | opening (mark : Char) (second : Bool)
  | line (mark : Char) (chars : List Char)
  | lines (mark : Char) (chars : List Char) (phase : Phase)
  | escape (multiline : Bool) (chars : List Char)
  /-- In an escape by code point with so many digits to come. -/
  | codePoint (multiline : Bool) (chars : List Char) (left value : Nat)
  deriving Repr, DecidableEq

/-- The tokens found so far, last one first, the place reached, and the bracket directly before. -/
structure Scan where
  tokens : List Token
  place : Place
  bracket : Option Char
  deriving Repr, DecidableEq

namespace Scan

def start : Scan := ⟨[], .outside [], none⟩

/-- Go on at a place. -/
def go (scan : Scan) (place : Place) : Scan := ⟨scan.tokens, place, none⟩

/-- Go on outside behind a further token. -/
def emit (scan : Scan) (token : Token) : Scan := ⟨token :: scan.tokens, .outside [], none⟩

/-- End a run of bare characters, if there is one. -/
def flush (scan : Scan) (run : List Char) : Scan :=
  if run.isEmpty then scan else { scan with tokens := .bare run.reverse :: scan.tokens }

def emitText (scan : Scan) (chars : List Char) (multiline : Bool) : Scan :=
  scan.emit (.text (String.ofList chars.reverse) multiline)

/-- Inside a string, on one line or on several. -/
def inString (scan : Scan) (multiline : Bool) (chars : List Char) : Scan :=
  scan.go (if multiline then .lines '"' chars (.body 0) else .line '"' chars)

/-! ### Steps -/

/-- A character outside of strings and comments. -/
def stepOutside (scan : Scan) (run : List Char) (c : Char) : Option Scan :=
  let flushed := scan.flush run
  if isBareChar c then some (scan.go (.outside (c :: run)))
  else if c = ' ' && isDateRun run.reverse then some (scan.go (.afterDate run))
  else match c with
    | ' ' | '\t' => some (flushed.go (.outside []))
    | '\n' => some (flushed.emit .newline)
    | '\r' => some (flushed.go .carriage)
    | '#' => some (flushed.go .comment)
    | '=' => some (flushed.emit .equals)
    | ',' => some (flushed.emit .comma)
    | '{' => some (flushed.emit .openBrace)
    | '}' => some (flushed.emit .closeBrace)
    | '[' =>
      let adjacent := run.isEmpty && scan.bracket == some c
      some { flushed.emit (.openBracket adjacent) with bracket := some c }
    | ']' =>
      let adjacent := run.isEmpty && scan.bracket == some c
      some { flushed.emit (.closeBracket adjacent) with bracket := some c }
    | '"' => some (flushed.go (.opening c false))
    | c => if c = Char.ofNat 39 then some (flushed.go (.opening c false)) else none

/-- A character on the line of a string. -/
def stepLine (scan : Scan) (mark : Char) (chars : List Char) (c : Char) : Option Scan :=
  if c = mark then some (scan.emitText chars false)
  else if c = '\\' && mark = '"' then some (scan.go (.escape false chars))
  else if isLineChar c then some (scan.go (.line mark (c :: chars)))
  else none

/-- A character of a multi-line string that is no quotation mark. -/
def stepBody (scan : Scan) (mark : Char) (chars : List Char) (c : Char) : Option Scan :=
  if c = '\n' then some (scan.go (.lines mark ('\n' :: chars) (.body 0)))
  else if c = '\r' then some (scan.go (.lines mark chars (.carriage true false)))
  else if c = '\\' && mark = '"' then some (scan.go (.escape true chars))
  else if isLineChar c then some (scan.go (.lines mark (c :: chars) (.body 0)))
  else none

/-- A character of a multi-line string.  Three marks close it; up to two more before them belong
    to it. -/
def stepLines (scan : Scan) (mark : Char) (chars : List Char) (c : Char) : Phase → Option Scan
  | .first =>
    if c = mark then some (scan.go (.lines mark chars (.body 1)))
    else if c = '\n' then some (scan.go (.lines mark chars (.body 0)))
    else if c = '\r' then some (scan.go (.lines mark chars (.carriage false false)))
    else stepBody scan mark chars c
  | .body marks =>
    if c = mark then
      if marks = 4 then some (scan.emitText (mark :: mark :: chars) true)
      else some (scan.go (.lines mark chars (.body (marks + 1))))
    else if marks < 3 then stepBody scan mark (List.replicate marks mark ++ chars) c
    else stepOutside (scan.emitText (List.replicate (marks - 3) mark ++ chars) true) [] c
  | .carriage keep trimming =>
    if c = '\n' then
      let chars := if keep then '\n' :: chars else chars
      some (scan.go (.lines mark chars (if trimming then .trimming else .body 0)))
    else none
  | .gap =>
    if c = ' ' || c = '\t' then some (scan.go (.lines mark chars .gap))
    else if c = '\n' then some (scan.go (.lines mark chars .trimming))
    else if c = '\r' then some (scan.go (.lines mark chars (.carriage false true)))
    else none
  | .trimming =>
    if c = ' ' || c = '\t' || c = '\n' then some (scan.go (.lines mark chars .trimming))
    else if c = '\r' then some (scan.go (.lines mark chars (.carriage false true)))
    else if c = mark then some (scan.go (.lines mark chars (.body 1)))
    else stepBody scan mark chars c

/-- The character behind a backslash. -/
def stepEscape (scan : Scan) (multiline : Bool) (chars : List Char) (c : Char) : Option Scan :=
  if c = 'u' then some (scan.go (.codePoint multiline chars 4 0))
  else if c = 'U' then some (scan.go (.codePoint multiline chars 8 0))
  else if multiline && (c = ' ' || c = '\t' || c = '\n' || c = '\r') then
    stepLines scan '"' chars c .gap
  else (unescape c).map fun e => scan.inString multiline (e :: chars)

/-- Scan one character. -/
def step (scan : Scan) (c : Char) : Option Scan :=
  match scan.place with
  | .outside run => stepOutside scan run c
  | .afterDate run =>
    if c.isDigit then some (scan.go (.outside (c :: ' ' :: run)))
    else stepOutside (scan.flush run) [] c
  | .comment =>
    if c = '\n' then some (scan.emit .newline)
    else if c = '\r' then some (scan.go .carriage)
    else if isLineChar c then some scan
    else none
  | .carriage => if c = '\n' then some (scan.emit .newline) else none
  | .opening mark false =>
    if c = mark then some (scan.go (.opening mark true)) else stepLine scan mark [] c
  | .opening mark true =>
    if c = mark then some (scan.go (.lines mark [] .first))
    else stepOutside (scan.emitText [] false) [] c
  | .line mark chars => stepLine scan mark chars c
  | .lines mark chars phase => stepLines scan mark chars c phase
  | .escape multiline chars => stepEscape scan multiline chars c
  | .codePoint multiline chars left value => do
    let n := value * 16 + (← Text.hexDigit? c)
    if left ≤ 1 then return scan.inString multiline ((← char? n) :: chars)
    else return scan.go (.codePoint multiline chars (left - 1) n)

/-- The tokens of a scan that has reached the end of the text. -/
def finish? (scan : Scan) : Option (List Token) :=
  match scan.place with
  | .outside run | .afterDate run => some (scan.flush run).tokens.reverse
  | .comment => some scan.tokens.reverse
  | .opening _ true => some (scan.emitText [] false).tokens.reverse
  | .lines mark chars (.body marks) =>
    if 3 ≤ marks then
      some (scan.emitText (List.replicate (marks - 3) mark ++ chars) true).tokens.reverse
    else none
  | _ => none

end Scan

/-- The tokens of a text.  A byte order mark in front does not count. -/
def tokens? (s : List Char) : Option (List Token) :=
  let s := match s with
    | c :: rest => if c.toNat = 0xFEFF then rest else s
    | [] => []
  (s.foldlM Scan.step Scan.start).bind Scan.finish?

end Columnar.Toml
