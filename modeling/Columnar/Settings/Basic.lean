import Columnar.Document
import Columnar.Handle
import Columnar.Text.Blank
import Columnar.Toml.Reader

/-! # Settings

    What a settings file says about writers and about the log.  Members that
    are not given have a default; unknown members are ignored.
-/

namespace Columnar

structure WriterSettings where
  /-- The rows that a batch is made for. -/
  batchSize : Nat := 1024
  capacityHints : Bool := true
  /-- Are plans logged as information, and not as mere traces? -/
  tracePlans : Bool := false
  deriving Repr, DecidableEq

structure Settings where
  logLevel : String := "info"
  /-- A log filter, which counts instead of the level unless it is blank. -/
  logFilter : Option String := none
  writer : WriterSettings := {}
  deriving Repr, DecidableEq

/-! ### Errors -/

/-- Why there are no settings.  Errors in a file name it. -/
inductive SettingsError where
  | noFile
  | unreadable (file : String)
  | malformed (file : Option String)
  | zeroBatchSize (file : Option String)
  deriving Repr, DecidableEq

namespace SettingsError

/-- The file in which a text stands that is not what it should be. -/
def inFile (e : SettingsError) (file : String) : SettingsError :=
  match e with
  | .malformed _ => .malformed (some file)
  | .zeroBatchSize _ => .zeroBatchSize (some file)
  | e => e

/-- The causes of an error, outermost first. -/
def message : SettingsError → String
  | .noFile => "missing config file: set $NOVAWRITER_CONFIG or create ./novawriter.toml"
  | .unreadable file => s!"read config file: {file}"
  | .malformed none => ""
  | .malformed (some file) => s!"parse toml: {file}"
  | .zeroBatchSize none => "writer.batch_size must be > 0"
  | .zeroBatchSize (some file) => s!"parse toml: {file}: writer.batch_size must be > 0"

end SettingsError

/-! ### Reading -/

/-- The settings for writers.  A date, too, is a section without known members. -/
def WriterSettings.ofDocument (d : Document) : Option WriterSettings :=
  match d with
  | .datetime _ => some {}
  | d => do
    let members ← d.members? .ignored ["batch_size", "apply_capacity_hints", "trace_plans"]
    let size (d : Document) := (d.integerWithin? 0 Int64.maxValue.toInt).map Int.toNat
    return {
      batchSize := ← Document.withDefault 1024 size "batch_size" members
      capacityHints := ← Document.withDefault true Document.boolean? "apply_capacity_hints" members
      tracePlans := ← Document.withDefault false Document.boolean? "trace_plans" members }

namespace Settings

def ofDocument (d : Document) : Option Settings := do
  let members ← d.members? .ignored ["log_level", "log_filter", "writer"]
  return {
    logLevel := ← Document.withDefault "info" Document.text? "log_level" members
    logFilter := ← Document.optional Document.text? "log_filter" members
    writer := ← Document.withDefault {} WriterSettings.ofDocument "writer" members }

/-- The settings that a TOML text holds. -/
def ofToml (s : String) : Except SettingsError Settings :=
  match (Toml.parse? s).bind ofDocument with
  | none => .error (.malformed none)
  | some settings =>
    if settings.writer.batchSize = 0 then .error (.zeroBatchSize none) else .ok settings

/-- The log filter that counts. -/
def effectiveLogFilter (s : Settings) : String :=
  match s.logFilter with
  | some filter => if Text.allBlank filter then s.logLevel else filter
  | none => s.logLevel

end Settings

/-- The options of a writer for which nothing is asked, under settings if there are any. -/
def WriterOptions.ofSettings (s : Option Settings) : WriterOptions :=
  let writer := (s.map Settings.writer).getD {}
  ⟨writer.batchSize, writer.capacityHints⟩

end Columnar
