import Columnar.Number.Display
import Columnar.Row.Value
import Columnar.Text.Quoted

/-! # Describing values

    The text that shows a value with its sort.  Structs are not read for it.
-/

namespace Columnar

/-- A sort and, in parentheses, a text. -/
def tagged (sort text : String) : String := sort ++ "(" ++ text ++ ")"

/-- Texts in brackets. -/
def bracketed (texts : List String) : String := "[" ++ ", ".intercalate texts ++ "]"

namespace Value

mutual

def describe : Value → String
  | .null => "Null"
  | .boolean b => tagged "Boolean" (toString b)
  | .byte n => tagged "Byte" (toString n.toInt)
  | .short n => tagged "Short" (toString n.toInt)
  | .int n => tagged "Int" (toString n.toInt)
  | .long n => tagged "Long" (toString n.toInt)
  | .float x => tagged "Float" x.text
  | .double x => tagged "Double" x.text
  | .string s => tagged "String" (Text.quoted s)
  | .binary bytes => tagged "Binary" (bracketed (bytes.map fun b => toString b.toNat))
  | .date d => tagged "Date" d.text
  | .timestamp t => tagged "Timestamp" t.text
  | .decimal n => tagged "Decimal" (toString n)
  | .struct _ => "Struct(..)"
  | .list items => tagged "List" (bracketed (describeItems items))
  | .map entries => tagged "Map" (bracketed (describeEntries entries))

def describeItems : List Value → List String
  | [] => []
  | v :: rest => describe v :: describeItems rest

def describeEntries : List (Value × Value) → List String
  | [] => []
  | (key, value) :: rest =>
    ("(" ++ describe key ++ ", " ++ describe value ++ ")") :: describeEntries rest

end

end Value

end Columnar
