import Columnar.Session.Basic
import Columnar.Proofs.Outcome
import Mathlib.Control.Monad.Basic

/-! # The first settings that are loaded

    Several calls load the settings, and those that merely read them try to
    load them, too.  Which of them comes first, and what the environment and
    the files are at that time, decides for the rest of the run
    (`first_load_wins`). -/

namespace Columnar

/-! ### Calls -/

/-- A call that loads settings, or that reads them and so may load them. -/
inductive SettingsCall where
  | fromFile (name : String)
  | current
  | writerOptions
  | tracePlans
  deriving Repr, DecidableEq

inductive SettingsAnswer where
  | settings (result : Except SettingsError Settings)
  | options (options : WriterOptions)
  | traced (traced : Bool)

/-- What a call answers if that are the settings, or the reason why there are none.  Those who
    only read do without. -/
def SettingsCall.answer (call : SettingsCall) (result : Except SettingsError Settings) :
    SettingsAnswer :=
  match call, result with
  | .fromFile _, result => .settings result
  | .current, result => .settings result
  | .writerOptions, .ok cfg => .options ⟨cfg.writer.batchSize, cfg.writer.capacityHints⟩
  | .writerOptions, .error _ => .options ⟨1024, true⟩
  | .tracePlans, .ok cfg => .traced cfg.writer.tracePlans
  | .tracePlans, .error _ => .traced false

/-- A call, with the environment and the files that it finds. -/
structure SettingsStep where
  environment : List (String × String) := []
  files : Files := {}
  call : SettingsCall

namespace SettingsStep

/-- A session that has nothing but what the call finds. -/
def bare (t : SettingsStep) : Session :=
  { environment := t.environment, files := t.files }

/-- The call asks for the settings in the file of that name. -/
def AsksFor (t : SettingsStep) (name : String) : Prop :=
  match t.call with
  | .fromFile given => name = given
  | _ =>
    match t.bare.lookup? "NOVAWRITER_CONFIG" with
    | some given => name = given
    | none => name = "novawriter.toml" ∧ t.files.exists? (.ofName name)

/-- The settings that can be loaded for the call. -/
def load (t : SettingsStep) : Except SettingsError Settings :=
  match t.call with
  | .fromFile name => t.bare.loadSettings name
  | _ => t.bare.settingsFile.bind t.bare.loadSettings

end SettingsStep

/-- The first settings that can be loaded. -/
def firstLoaded (steps : List SettingsStep) : Option Settings :=
  steps.findSome? fun t => t.load.toOption

namespace Session

/-- Let the environment and the files be those that a call finds. -/
def facing (s : Session) (t : SettingsStep) : Session :=
  { s with environment := t.environment, files := t.files }

/-- The answer to a call. -/
def ask (s : Session) (t : SettingsStep) : SettingsAnswer × Session :=
  match t.call with
  | .fromFile name =>
    let (result, s) := (s.facing t).settingsFrom name
    (.settings result, s)
  | .current =>
    let (result, s) := (s.facing t).currentSettings
    (.settings result, s)
  | .writerOptions =>
    let (options, s) := (s.facing t).writerOptions
    (.options options, s)
  | .tracePlans =>
    let (traced, s) := (s.facing t).tracePlans
    (.traced traced, s)

/-- The session after a sequence of calls. -/
def after (s : Session) (steps : List SettingsStep) : Session :=
  steps.foldl (fun s t => (s.ask t).2) s

/-! ### What a call does -/

/-- The settings in force, or else what loading gives. -/
def inForce (s : Session) (load : Except SettingsError Settings) : Except SettingsError Settings :=
  match s.settings with
  | some cfg => .ok cfg
  | none => load

/-- The session with those settings, if they could be had. -/
def withResult (s : Session) (result : Except SettingsError Settings) : Session :=
  { s with settings := result.toOption }

theorem installSettings_eq (s : Session) (load : Except SettingsError Settings) :
    s.installSettings load = (s.inForce load, s.withResult (s.inForce load)) := by
  unfold installSettings inForce withResult
  cases hs : s.settings with
  | some cfg =>
    cases s
    cases hs
    rfl
  | none =>
    cases load with
    | ok cfg => rfl
    | error e =>
      cases s
      cases hs
      rfl

/-- Those who ask again get the same: settings that were loaded are in force, and what could not be
    loaded still cannot. -/
theorem inForce_withResult {s : Session} {load result : Except SettingsError Settings}
    (h : s.inForce load = result) : (s.withResult result).inForce load = result := by
  unfold inForce at h ⊢
  cases result with
  | ok cfg => rfl
  | error e =>
    show load = _
    cases hs : s.settings with
    | some cfg =>
      rw [hs] at h
      cases h
    | none =>
      rw [hs] at h
      exact h

section Reads

variable {s : Session} {result : Except SettingsError Settings}

theorem settingsFrom_eq {name : String} (h : s.inForce (s.loadSettings name) = result) :
    s.settingsFrom name = (result, s.withResult result) := by
  unfold settingsFrom
  rw [installSettings_eq, h]

theorem currentSettings_eq (h : s.inForce (s.settingsFile.bind s.loadSettings) = result) :
    s.currentSettings = (result, s.withResult result) := by
  unfold currentSettings
  rw [installSettings_eq, h]

theorem settingsIfAny_eq (h : s.inForce (s.settingsFile.bind s.loadSettings) = result) :
    s.settingsIfAny = (result.toOption, s.withResult result) := by
  unfold settingsIfAny
  rw [currentSettings_eq h]

theorem tracePlans_eq (h : s.inForce (s.settingsFile.bind s.loadSettings) = result) :
    s.tracePlans =
      ((result.toOption.map (·.writer.tracePlans)).getD false, s.withResult result) := by
  unfold tracePlans
  rw [settingsIfAny_eq h]

/-- Both options come from the same settings, although each is read for itself. -/
theorem writerOptions_eq (h : s.inForce (s.settingsFile.bind s.loadSettings) = result) :
    s.writerOptions = (.ofSettings result.toOption, s.withResult result) := by
  have hagain : (s.withResult result).inForce
      ((s.withResult result).settingsFile.bind (s.withResult result).loadSettings) = result :=
    inForce_withResult h
  unfold writerOptions batchSize capacityHints
  simp only [settingsIfAny_eq h, settingsIfAny_eq hagain]
  cases result <;> rfl

end Reads

/-- A call answers by what is in force or by what it can load, and that is in force afterwards. -/
theorem ask_eq (s : Session) (t : SettingsStep) :
    s.ask t = (t.call.answer (s.inForce t.load), (s.facing t).withResult (s.inForce t.load)) := by
  rcases t with ⟨environment, files, call⟩
  generalize hresult : s.inForce (SettingsStep.load ⟨environment, files, call⟩) = result
  cases call with
  | fromFile name =>
    simp only [ask, settingsFrom_eq (s := s.facing ⟨environment, files, .fromFile name⟩) hresult]
    rfl
  | current =>
    simp only [ask, currentSettings_eq (s := s.facing ⟨environment, files, .current⟩) hresult]
    rfl
  | writerOptions =>
    simp only [ask, writerOptions_eq (s := s.facing ⟨environment, files, .writerOptions⟩) hresult]
    cases result <;> rfl
  | tracePlans =>
    simp only [ask, tracePlans_eq (s := s.facing ⟨environment, files, .tracePlans⟩) hresult]
    cases result <;> rfl

/-! ### Sequences of calls -/

/-- Settings that are in force stay, whatever is asked for or found. -/
theorem settings_after_of_some {s : Session} {cfg : Settings} (h : s.settings = some cfg)
    (steps : List SettingsStep) : (s.after steps).settings = some cfg := by
  induction steps generalizing s with
  | nil => exact h
  | cons t rest ih =>
    have hask : (s.ask t).2.settings = some cfg := by
      rw [ask_eq, inForce, h]
      rfl
    exact ih hask

/-- As long as there are none, the first that can be loaded come into force. -/
theorem settings_after {s : Session} (h : s.settings = none) (steps : List SettingsStep) :
    (s.after steps).settings = firstLoaded steps := by
  induction steps generalizing s with
  | nil => exact h
  | cons t rest ih =>
    have hask : (s.ask t).2.settings = t.load.toOption := by
      rw [ask_eq, inForce, h]
      rfl
    show ((s.ask t).2.after rest).settings = _
    unfold firstLoaded
    cases hload : t.load with
    | ok cfg =>
      rw [hload] at hask
      rw [settings_after_of_some hask, List.findSome?_cons, hload]
      rfl
    | error e =>
      rw [hload] at hask
      rw [ih hask, List.findSome?_cons, hload]
      rfl

theorem firstLoaded_append {steps : List SettingsStep} {cfg : Settings}
    (h : firstLoaded steps = some cfg) (later : List SettingsStep) :
    firstLoaded (steps ++ later) = some cfg := by
  unfold firstLoaded at h ⊢
  rw [List.findSome?_append, h]
  rfl

end Session

/-! ### What can be loaded -/

theorem Settings.ofToml_eq_ok_iff {text : String} {cfg : Settings} :
    ofToml text = .ok cfg ↔
      (Toml.parse? text).bind ofDocument = some cfg ∧ cfg.writer.batchSize ≠ 0 := by
  unfold ofToml
  constructor
  · intro h
    split at h
    · cases h
    · next found hfound =>
      split at h
      · cases h
      · next hsize =>
        cases h
        exact ⟨hfound, hsize⟩
  · rintro ⟨hread, hsize⟩
    rw [hread]
    exact if_neg hsize

theorem Session.loadSettings_eq_ok_iff {s : Session} {name : String} {cfg : Settings} :
    s.loadSettings name = .ok cfg ↔
      ∃ f, s.files.file? (.ofName name) = some f ∧ Settings.ofToml f.content = .ok cfg := by
  unfold loadSettings
  cases s.files.file? (.ofName name) with
  | none =>
    constructor
    · intro h
      cases h
    · rintro ⟨f, hf, -⟩
      cases hf
  | some f =>
    -- naming the file in an error makes no settings of it
    have hname : ((Settings.ofToml f.content).mapError (·.inFile name)) = .ok cfg ↔
        Settings.ofToml f.content = .ok cfg := by
      cases Settings.ofToml f.content with
      | error e => constructor <;> intro h <;> cases h
      | ok found => rfl
    show (Settings.ofToml f.content).mapError _ = _ ↔ _
    rw [hname]
    constructor
    · intro h
      exact ⟨f, rfl, h⟩
    · rintro ⟨f', hf, h⟩
      cases hf
      exact h

theorem Session.settingsFile_eq_ok_iff {s : Session} {name : String} :
    s.settingsFile = .ok name ↔
      match s.lookup? "NOVAWRITER_CONFIG" with
      | some given => name = given
      | none => name = "novawriter.toml" ∧ s.files.exists? (.ofName name) := by
  unfold settingsFile
  cases s.lookup? "NOVAWRITER_CONFIG" with
  | some given =>
    constructor
    · intro h
      cases h
      rfl
    · rintro rfl
      rfl
  | none =>
    show (if s.files.exists? (.ofName "novawriter.toml") then Except.ok "novawriter.toml"
      else .error SettingsError.noFile) = .ok name ↔ _
    constructor
    · intro h
      split at h
      · next hexists =>
        cases h
        exact ⟨rfl, hexists⟩
      · cases h
    · rintro ⟨rfl, hexists⟩
      exact if_pos hexists

namespace SettingsStep

variable {t : SettingsStep}

/-- Settings can be loaded for a call from the file that it asks for, and from no other. -/
theorem load_eq_ok_iff_asksFor {cfg : Settings} :
    t.load = .ok cfg ↔ ∃ name, t.AsksFor name ∧ t.bare.loadSettings name = .ok cfg := by
  have hcurrent : t.bare.settingsFile.bind t.bare.loadSettings = .ok cfg ↔
      ∃ name, t.bare.settingsFile = .ok name ∧ t.bare.loadSettings name = .ok cfg := by
    constructor
    · exact exists_of_bind_eq_ok
    · rintro ⟨name, hname, hload⟩
      rw [hname]
      exact hload
  unfold load AsksFor
  cases t.call with
  | fromFile given =>
    constructor
    · intro h
      exact ⟨given, rfl, h⟩
    · rintro ⟨_, rfl, h⟩
      exact h
  | _ =>
    simp only [hcurrent, Session.settingsFile_eq_ok_iff]
    rfl

/-- Settings can be loaded for a call if it asks for a file that is there and in which there are
    settings with batches of at least one row. -/
theorem load_eq_ok_iff {cfg : Settings} :
    t.load = .ok cfg ↔ ∃ name f, t.AsksFor name ∧ t.files.file? (.ofName name) = some f ∧
      (Toml.parse? f.content).bind Settings.ofDocument = some cfg ∧ cfg.writer.batchSize ≠ 0 := by
  rw [load_eq_ok_iff_asksFor]
  simp only [Session.loadSettings_eq_ok_iff, Settings.ofToml_eq_ok_iff]
  constructor
  · rintro ⟨name, hasks, f, hf, hcfg⟩
    exact ⟨name, f, hasks, hf, hcfg⟩
  · rintro ⟨name, f, hasks, hf, hcfg⟩
    exact ⟨name, hasks, f, hf, hcfg⟩

theorem batchSize_ne_zero_of_load {cfg : Settings} (h : t.load = .ok cfg) :
    cfg.writer.batchSize ≠ 0 := by
  obtain ⟨_, _, _, _, _, hsize⟩ := load_eq_ok_iff.1 h
  exact hsize

end SettingsStep

theorem batchSize_ne_zero_of_firstLoaded {steps : List SettingsStep} {cfg : Settings}
    (h : firstLoaded steps = some cfg) : cfg.writer.batchSize ≠ 0 := by
  obtain ⟨t, -, hload⟩ := List.exists_of_findSome?_eq_some h
  cases hresult : t.load with
  | ok found =>
    rw [hresult] at hload
    cases hload
    exact t.batchSize_ne_zero_of_load hresult
  | error e =>
    rw [hresult] at hload
    cases hload

/-- Options are answered by those who read only, with the batch size of the settings if there are
    any. -/
theorem SettingsCall.batchSize_of_answer {call : SettingsCall}
    {result : Except SettingsError Settings} {options : WriterOptions}
    (h : call.answer result = .options options)
    (hresult : ∀ cfg, result = .ok cfg → cfg.writer.batchSize ≠ 0) : options.batchSize ≠ 0 := by
  cases call with
  | writerOptions =>
    cases result with
    | ok cfg =>
      cases h
      exact hresult cfg rfl
    | error e =>
      cases h
      show 1024 ≠ 0
      omega
  | tracePlans => cases result <;> cases h
  | _ => cases h

/-- The first settings that can be loaded are in force for the rest of the run: from then on every
    call answers by them, whatever it asks for and finds.  Until then a call answers by what it can
    load itself, and those who read do without if that fails, which leaves the session without
    settings.  Batches are never of no rows. -/
theorem first_load_wins {s : Session} (hnew : s.settings = none) (before : List SettingsStep)
    (t : SettingsStep) :
    (s.after before).settings = firstLoaded before ∧
    (match firstLoaded before with
      | some cfg => ((s.after before).ask t).1 = t.call.answer (.ok cfg) ∧
          ∀ later u, ((s.after (before ++ later)).ask u).1 = u.call.answer (.ok cfg)
      | none => ((s.after before).ask t).1 = t.call.answer t.load ∧
          ((s.after before).ask t).2.settings = t.load.toOption) ∧
    (∀ cfg, t.load = .ok cfg ↔
      ∃ name f, t.AsksFor name ∧ t.files.file? (.ofName name) = some f ∧
        (Toml.parse? f.content).bind Settings.ofDocument = some cfg ∧ cfg.writer.batchSize ≠ 0) ∧
    (∀ options, ((s.after before).ask t).1 = .options options → options.batchSize ≠ 0) := by
  have hanswer : ∀ (steps : List SettingsStep) (u : SettingsStep) (cfg : Settings),
      firstLoaded steps = some cfg → ((s.after steps).ask u).1 = u.call.answer (.ok cfg) := by
    intro steps u cfg hfirst
    rw [Session.ask_eq, Session.inForce, Session.settings_after hnew, hfirst]
  have hsettings := Session.settings_after hnew before
  refine ⟨hsettings, ?_, fun cfg => SettingsStep.load_eq_ok_iff, ?_⟩
  · cases hfirst : firstLoaded before with
    | some cfg =>
      constructor
      · exact hanswer before t cfg hfirst
      · intro later u
        exact hanswer (before ++ later) u cfg (Session.firstLoaded_append hfirst later)
    | none =>
      rw [Session.ask_eq, Session.inForce, hsettings, hfirst]
      exact ⟨rfl, rfl⟩
  · intro options hoptions
    rw [Session.ask_eq] at hoptions
    apply SettingsCall.batchSize_of_answer hoptions
    intro cfg hcfg
    rw [Session.inForce, hsettings] at hcfg
    cases hfirst : firstLoaded before with
    | some found =>
      rw [hfirst] at hcfg
      cases hcfg
      exact batchSize_ne_zero_of_firstLoaded hfirst
    | none =>
      rw [hfirst] at hcfg
      exact t.batchSize_ne_zero_of_load hcfg

/-- There are no settings to be read. -/
def readNothing : SettingsStep where
  call := .tracePlans

/-- A file is asked for that wants batches of no rows. -/
def emptyBatches : SettingsStep where
  files := Files.write {} (.ofName "a.toml") "[writer]\nbatch_size = 0\n"
  call := .fromFile "a.toml"

def sevenRows : Settings :=
  { writer := { batchSize := 7, tracePlans := true } }

/-- The environment names another file when options are read. -/
def readSevenRows : SettingsStep where
  environment := [("NOVAWRITER_CONFIG", " b.toml ")]
  files := Files.write {} (.ofName "b.toml") "[writer]\nbatch_size = 7\ntrace_plans = true\n"
  call := .writerOptions

/-- A file is asked for that is not there. -/
def askForOther : SettingsStep where
  call := .fromFile "c.toml"

/-- A read finds no settings and a file the wrong ones; the next read takes those that stay. -/
theorem sevenRows_win :
    (Session.after {} [readNothing, emptyBatches]).settings = none ∧
    ((Session.after {} [readNothing]).ask emptyBatches).1 =
      .settings (.error (.zeroBatchSize (some "a.toml"))) ∧
    ((Session.after {} [readNothing, emptyBatches]).ask readSevenRows).1 = .options ⟨7, true⟩ ∧
    ((Session.after {} [readNothing, emptyBatches, readSevenRows]).ask askForOther).1 =
      .settings (.ok sevenRows) := by
  have hnew : ({} : Session).settings = none := rfl
  have hempty : emptyBatches.load = .error (.zeroBatchSize (some "a.toml")) := by decide +kernel
  have hread : readSevenRows.load = .ok sevenRows := by decide +kernel
  have hnone : firstLoaded [readNothing] = none := by decide +kernel
  have hnone' : firstLoaded [readNothing, emptyBatches] = none := by decide +kernel
  have hsome : firstLoaded [readNothing, emptyBatches, readSevenRows] = some sevenRows := by
    decide +kernel
  have hfirst := first_load_wins hnew [readNothing] emptyBatches
  have hsecond := first_load_wins hnew [readNothing, emptyBatches] readSevenRows
  have hthird := first_load_wins hnew [readNothing, emptyBatches, readSevenRows] askForOther
  rw [hnone, hempty] at hfirst
  rw [hnone', hread] at hsecond
  rw [hsome] at hthird
  exact ⟨hsecond.1, hfirst.2.1.1, hsecond.2.1.1, hthird.2.1.1⟩

end Columnar
