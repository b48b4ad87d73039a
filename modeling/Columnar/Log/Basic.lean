/-! # Logged events

    Events have a level and a message.  What is logged cannot steer the
    terminal on which it is read.
-/

namespace Columnar

namespace Log

/-- Levels, the most important first. -/
inductive Level where
  | error
  | warn
  | info
  | debug
  | trace
  deriving Repr, DecidableEq

namespace Level

def rank : Level → Nat
  | .error => 1
  | .warn => 2
  | .info => 3
  | .debug => 4
  | .trace => 5

/-- The letter at the beginning of a line. -/
def letter : Level → String
  | .error => "E"
  | .warn => "W"
  | .info => "I"
  | .debug => "D"
  | .trace => "T"

end Level

structure Event where
  level : Level
  message : String
  deriving Repr, DecidableEq

/-- A character as it is logged: those that could steer a terminal are shown by their code. -/
def logged (c : Char) : List Char :=
  let n := c.toNat
  if n = 0x1b then ['\\', 'x', '1', 'b']
  else if n = 0x07 then ['\\', 'x', '0', '7']
  else if n = 0x08 then ['\\', 'x', '0', '8']
  else if n = 0x0c then ['\\', 'x', '0', 'c']
  else if n = 0x7f then ['\\', 'x', '7', 'f']
  else if 0x80 ≤ n ∧ n ≤ 0x9f then ['\\', 'u', '\x7b'] ++ Nat.toDigits 16 n ++ ['\x7d']
  else [c]

/-- The event as it is logged. -/
def Event.logged (e : Event) : Event :=
  { e with message := String.ofList (e.message.toList.flatMap Log.logged) }

/-- What all events are about. -/
def target : String := "novawriter::writer::cache"

/-- The fields that all events have. -/
def fields : List String := ["message"]

end Log

end Columnar
