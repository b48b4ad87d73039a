import Columnar.Document

/-! # Writing JSON

    Two layouts: `pretty`, with two blanks of indentation for each level, and
    `compact`, without any space.  Strings escape the quote, the backslash and
    the control characters below U+0020, and nothing else.
-/

namespace Columnar.Json

/-! ### Strings -/

def hexDigit (n : Nat) : Char :=
  if n < 10 then Char.ofNat (48 + n) else Char.ofNat (87 + n)

/-- One character inside a string. -/
def escape (c : Char) : List Char :=
  match c with
  | '"' => ['\\', '"']
  | '\\' => ['\\', '\\']
  | '\x08' => ['\\', 'b']
  | '\x0c' => ['\\', 'f']
  | '\n' => ['\\', 'n']
  | '\r' => ['\\', 'r']
  | '\t' => ['\\', 't']
  | c =>
    if c.toNat < 0x20 then ['\\', 'u', '0', '0', hexDigit (c.toNat / 16), hexDigit (c.toNat % 16)]
    else [c]

/-- The string literal of a text. -/
def quoted (s : String) : List Char :=
  '"' :: s.toList.flatMap escape ++ ['"']

/-- The string literal of a text, as a text. -/
def literal (s : String) : String :=
  String.ofList (quoted s)

/-! ### Documents -/

/-- A document that is neither a list nor a table. -/
def scalar : Document → List Char
  | .boolean true => "true".toList
  | .boolean false => "false".toList
  | .integer n => (toString n).toList
  | .real written => written.toList
  | .datetime written => quoted written
  | .text s => quoted s
  | _ => "null".toList

/-- A new line with its indentation. -/
def newline (indent : Nat) : List Char :=
  '\n' :: List.replicate (2 * indent) ' '

mutual

def prettyChars (indent : Nat) : Document → List Char
  | .list [] => ['[', ']']
  | .list (d :: rest) =>
    '[' :: newline (indent + 1) ++ prettyChars (indent + 1) d ++ prettyItems (indent + 1) rest
      ++ newline indent ++ [']']
  | .table [] => ['{', '}']
  | .table ((key, d) :: rest) =>
    '{' :: newline (indent + 1) ++ quoted key ++ [':', ' '] ++ prettyChars (indent + 1) d
      ++ prettyMembers (indent + 1) rest ++ newline indent ++ ['}']
  | d => scalar d

/-- The items behind the first one. -/
def prettyItems (indent : Nat) : List Document → List Char
  | [] => []
  | d :: rest => ',' :: newline indent ++ prettyChars indent d ++ prettyItems indent rest

/-- The members behind the first one. -/
def prettyMembers (indent : Nat) : List (String × Document) → List Char
  | [] => []
  | (key, d) :: rest =>
    ',' :: newline indent ++ quoted key ++ [':', ' '] ++ prettyChars indent d
      ++ prettyMembers indent rest

end

mutual

def compactChars : Document → List Char
  | .list [] => ['[', ']']
  | .list (d :: rest) => '[' :: compactChars d ++ compactItems rest ++ [']']
  | .table [] => ['{', '}']
  | .table ((key, d) :: rest) =>
    '{' :: quoted key ++ ':' :: compactChars d ++ compactMembers rest ++ ['}']
  | d => scalar d

/-- The items behind the first one. -/
def compactItems : List Document → List Char
  | [] => []
  | d :: rest => ',' :: compactChars d ++ compactItems rest

/-- The members behind the first one. -/
def compactMembers : List (String × Document) → List Char
  | [] => []
  | (key, d) :: rest => ',' :: quoted key ++ ':' :: compactChars d ++ compactMembers rest

end

/-- The indented text of a document. -/
def pretty (d : Document) : String := String.ofList (prettyChars 0 d)

/-- The text of a document on one line. -/
def compact (d : Document) : String := String.ofList (compactChars d)

end Columnar.Json
