import Columnar.Cache.Basic
import Columnar.Files.Basic
import Columnar.Log.Filter
import Columnar.Plan.Listing
import Columnar.Settings.Basic

/-! # Sessions

    What lasts through one run: the settings, of which the first that
    can be loaded are kept for good; the logger, installed once; the writer
    numbers, none of which is given out twice; and a cache for all.  Settings
    and log file are found through environment variables and files, which may
    change in between.
-/

namespace Columnar

/-- A filter, and the file to which what passes is written; without a file it goes to the
    terminal. -/
structure Logger where
  filter : Log.Filter
  file : Option Location
  deriving Repr, DecidableEq

structure Session where
  environment : List (String × String) := []
  files : Files := {}
  settings : Option Settings := none
  logger : Option Logger := none
  supply : Supply := {}
  cache : WriterCache := {}
  deriving Repr

namespace Session

/-- Set an environment variable. -/
def setVariable (s : Session) (name value : String) : Session :=
  { s with environment := (name, value) :: s.environment }

/-- Write a file. -/
def writeFile (s : Session) (name text : String) : Session :=
  { s with files := s.files.write (.ofName name) text }

/-- The value of an environment variable without blanks around it, if that is not empty. -/
def lookup? (s : Session) (name : String) : Option String :=
  match s.environment.lookup name with
  | some value => if Text.allBlank value then none else some (Text.trim value)
  | none => none

/-! ### Settings -/

/-- The settings in a file. -/
def loadSettings (s : Session) (name : String) : Except SettingsError Settings :=
  match s.files.file? (.ofName name) with
  | some f => (Settings.ofToml f.content).mapError (·.inFile name)
  | none => .error (.unreadable name)

/-- The file in which settings are looked for. -/
def settingsFile (s : Session) : Except SettingsError String :=
  match s.lookup? "NOVAWRITER_CONFIG" with
  | some name => .ok name
  | none =>
    let name := "novawriter.toml"
    if s.files.exists? (.ofName name) then .ok name else .error .noFile

/-- The settings in force, or else those that can be loaded, which are in force from then on. -/
def installSettings (s : Session) (load : Except SettingsError Settings) :
    Except SettingsError Settings × Session :=
  match s.settings, load with
  | some settings, _ => (.ok settings, s)
  | none, .ok settings => (.ok settings, { s with settings := some settings })
  | none, .error e => (.error e, s)

/-- Take the settings from a file, unless some are in force. -/
def settingsFrom (s : Session) (name : String) : Except SettingsError Settings × Session :=
  s.installSettings (s.loadSettings name)

/-- Take the settings from the file in which they are looked for, unless some are in force. -/
def currentSettings (s : Session) : Except SettingsError Settings × Session :=
  s.installSettings (s.settingsFile.bind s.loadSettings)

/-- The settings for those who do without if there are none. -/
def settingsIfAny (s : Session) : Option Settings × Session :=
  let (settings, s) := s.currentSettings
  (settings.toOption, s)

/-- The rows that a batch is made for. -/
def batchSize (s : Session) : Nat × Session :=
  let (settings, s) := s.settingsIfAny
  ((settings.map (·.writer.batchSize)).getD 1024, s)

/-- Do batches reserve what the capacity hints ask for? -/
def capacityHints (s : Session) : Bool × Session :=
  let (settings, s) := s.settingsIfAny
  ((settings.map (·.writer.capacityHints)).getD true, s)

/-- Are plans logged as information? -/
def tracePlans (s : Session) : Bool × Session :=
  let (settings, s) := s.settingsIfAny
  ((settings.map (·.writer.tracePlans)).getD false, s)

/-- The options of a writer for which nothing is asked. -/
def writerOptions (s : Session) : WriterOptions × Session :=
  let (batchSize, s) := s.batchSize
  let (capacityHints, s) := s.capacityHints
  (⟨batchSize, capacityHints⟩, s)

/-! ### Log -/

/-- The path of the log file that the environment asks for. -/
def logFile? (s : Session) : Option FilePath :=
  match s.lookup? "NOVAWRITER_LOG_FILE" with
  | some name => some (.ofName name)
  | none =>
    (s.lookup? "NOVAWRITER_LOG_DIR").map fun name => (FilePath.ofName name).child "novawriter.log"

/-- Install a logger with that filter, unless there is one. -/
def installLogger (s : Session) (filter : String) : Session :=
  match s.logger, s.logFile? with
  | some _, _ => s
  | none, none => { s with logger := some ⟨.parse filter, none⟩ }
  | none, some path =>
    let (files, file) := s.files.openLog path
    { s with files, logger := some ⟨.parse filter, file⟩ }

/-- Install a logger with the filter of the settings, unless there is one. -/
def installLoggerFromSettings (s : Session) : Session :=
  let (settings, s) := s.settingsIfAny
  s.installLogger ((settings.map Settings.effectiveLogFilter).getD "info")

/-- Log an event, if there is a logger that lets it pass. -/
def log (s : Session) (e : Log.Event) : Session :=
  match s.logger with
  | some ⟨filter, some file⟩ =>
    if filter.passes e.level then { s with files := s.files.logTo file e.logged } else s
  | _ => s

/-- The events in a log file. -/
def logEvents? (s : Session) (name : String) : Option (List Log.Event) :=
  (s.files.file? (.ofName name)).map File.legibleEvents

/-! ### Writers -/

/-- Log that a specification was made.  Its plan is a trace, or information if the settings ask
    for that. -/
def logBuilt (s : Session) (spec : Specification) : Session :=
  let s := s.log ⟨.debug,
    s!"compiled writer {spec.name}: columns={spec.columnCount}, capacity_hints={spec.hints.length}"⟩
  let (tracePlans, s) := s.tracePlans
  let level := if tracePlans then .info else .trace
  s.log ⟨level, s!"writer plan:\n{spec.render}"⟩

/-- Make a specification with the next writer number. -/
def build (s : Session) (c : Catalog) : Except BuildError Specification × Session :=
  let (writerId, supply) := s.supply.number
  let s := { s with supply }
  match Specification.build c writerId with
  | .ok spec => (.ok spec, s.logBuilt spec)
  | .error e => (.error e, s)

/-- A handle for a row type with the options of the settings, from the cache for all. -/
def handle (s : Session) (type : RowType) (catalog : Catalog) :
    Except HandleError WriterHandle × Session :=
  let (options, s) := s.writerOptions
  let (lookup, cache, supply) := s.cache.specification type catalog s.supply
  let s := { s with cache, supply }
  let s := match lookup with
    | .hit _ => s
    | .compiled spec => s.logBuilt spec
    | .failed e => s.log ⟨.warn, s!"failed to compile writer for {type.name}: {e.message}"⟩
  (lookup.handle options, s)

end Session

end Columnar
