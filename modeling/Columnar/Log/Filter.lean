import Columnar.Log.Basic
import Columnar.Text.Digits

/-! # Log filters

    An event is logged if a filter lets its level pass.  A filter is a list of
    directives, each for the targets that begin with its own target; of those
    for an event the one with the longest target counts.
-/

namespace Columnar

namespace Log

/-! ### Directives -/

/-- Which of the events of its targets a directive is for. -/
inductive Scope where
  | all
  /-- Those that have a field of that name. -/
  | withField (name : String)
  /-- Those inside of certain spans: none, as there are no spans. -/
  | inSpans
  deriving Repr, DecidableEq

/-- In its scope, for targets beginning with `target`, the least important level that passes, if
    any does. -/
structure Directive where
  target : String := ""
  scope : Scope := .all
  threshold : Option Level := some .trace
  deriving Repr, DecidableEq

/-- The thresholds by number. -/
def thresholds : List (Option Level) :=
  none :: [Level.error, .warn, .info, .debug, .trace].map some

/-- A threshold by name or number; `off` lets nothing pass. -/
def threshold? (written : String) : Option (Option Level) :=
  let digits := match written.toList with
    | '+' :: digits => digits
    | digits => digits
  if !digits.isEmpty && digits.all Char.isDigit then thresholds[Text.valueInBase 10 digits]?
  else match written.map Char.toLower with
    | "off" => some none
    | "error" => some (some .error)
    | "warn" => some (some .warn)
    | "info" => some (some .info)
    | "debug" => some (some .debug)
    | "trace" => some (some .trace)
    | _ => none

namespace Directive

/-- What is before the first of these characters, and what is from there on. -/
def cut (stops : List Char) (cs : List Char) : List Char × List Char :=
  (cs.takeWhile fun c => !stops.contains c, cs.dropWhile fun c => !stops.contains c)

/-- The threshold behind a target and a scope, which may be missing with or without its sign. -/
def withThreshold (d : Directive) : List Char → Option Directive
  | [] | ['='] => some d
  | '=' :: level =>
    (threshold? (String.ofList level)).map fun threshold => { d with threshold }
  | _ => none

/-- The scope in brackets and a threshold, behind the bracket that opens.  The scope is the name of
    a span, a field in braces, or both; a field may have a value, which only spans can have. -/
def withScope (d : Directive) (cs : List Char) : Option Directive :=
  match cut [']', '\x7b'] cs with
  | (_, ']' :: rest) => { d with scope := .inSpans }.withThreshold rest
  | (span, '\x7b' :: rest) =>
    match cut ['\x7d'] rest with
    | ([], _) => none
    | (field, '\x7d' :: ']' :: rest) =>
      let scope := if span.isEmpty && !field.contains '=' then .withField (String.ofList field)
        else .inSpans
      { d with scope }.withThreshold rest
    | _ => none
  | _ => none

/-- Can a target or a level begin so? -/
def isStart (c : Char) : Bool := c.isAlphanum || c == '-' || c == ':' || c == '_'

/-- A level for all targets, or a target with a scope and a level, each of which may be missing. -/
def parse? (written : String) : Option Directive :=
  match written.toList with
  | [] => none
  | '[' :: cs => withScope {} cs
  | c :: cs =>
    if !isStart c then none
    else
      let (name, rest) := cut ['=', '['] (c :: cs)
      let target := String.ofList name
      match rest with
      | [] =>
        match threshold? written with
        | some threshold => some { threshold }
        | none => some { target }
      | '[' :: rest => withScope { target } rest
      | rest => withThreshold { target } rest

/-- Is the directive for events with that target? -/
def covers (d : Directive) (target : String) : Bool :=
  let inScope := match d.scope with
    | .all => true
    | .withField name => fields.contains name
    | .inSpans => false
  inScope && d.target.toList.isPrefixOf target.toList

/-- How narrow a directive is, for two of the same target. -/
def narrowness (d : Directive) : Nat :=
  match d.scope with
  | .withField _ => 1
  | _ => 0

/-- The more specific of two directives; the second one if neither is. -/
def moreSpecific (a b : Directive) : Directive :=
  if a.target.length < b.target.length
    || (a.target.length == b.target.length && a.narrowness ≤ b.narrowness) then b
  else a

end Directive

/-! ### Filters -/

structure Filter where
  directives : List Directive
  deriving Repr, DecidableEq

namespace Filter

/-- The filter written as directives with commas between them.  Parts that are no directive do not
    count; without any directive only errors pass. -/
def parse (written : String) : Filter :=
  match (written.splitOn ",").filterMap Directive.parse? with
  | [] => ⟨[{ threshold := some .error }]⟩
  | directives => ⟨directives⟩

/-- The directive that counts for a target. -/
def directive? (f : Filter) (target : String) : Option Directive :=
  match f.directives.filter (·.covers target) with
  | [] => none
  | d :: rest => some (rest.foldl Directive.moreSpecific d)

/-- Does an event of that level pass? -/
def passes (f : Filter) (level : Level) : Bool :=
  match (f.directive? target).bind Directive.threshold with
  | some threshold => level.rank ≤ threshold.rank
  | none => false

end Filter

end Log

end Columnar
