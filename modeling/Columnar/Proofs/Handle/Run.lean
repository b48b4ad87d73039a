import Columnar.Handle
import Columnar.Proofs.Plan.Shape

/-! # Runs

    A program works with a handle step by step: it appends rows, one by one or
    many at once, finishes batches and asks questions.  `WriterHandle.act` is
    one step and `WriterHandle.trace` a whole run, with the handle before and
    after each step.

    What a run should have written can be told from the results of its steps
    alone: the rows accepted in each step, and from that the rows of each
    batch. -/

namespace Columnar

/-! ### One row -/

namespace WriterHandle

/-- How staging a row ends for a handle. -/
def staging (h : WriterHandle) (row : Record) : Except AppendError (List Staged) × Progress :=
  (Operation.stageFields h.batch.slotCount h.specification.plan row).run.run
    ⟨.fresh h.specification.columnCount, #[]⟩

variable {h : WriterHandle} {row : Record} {progress : Progress}

theorem append_of_staging_error {e : AppendError} (hs : h.staging row = (.error e, progress)) :
    h.append row = ⟨.error e, progress.calls.toList, { h with scratch := progress.scratch }⟩ := by
  unfold staging at hs
  unfold append
  simp only [hs]

theorem append_of_written {staged : List Staged} {batch : Batch}
    (hs : h.staging row = (.ok staged, progress))
    (hw : (Operation.writeFields h.specification.plan staged).run.run h.batch = (.ok (), batch)) :
    h.append row = ⟨.ok (), progress.calls.toList,
      { h with scratch := progress.scratch, batch := { batch with rows := batch.rows + 1 } }⟩ := by
  unfold staging at hs
  unfold append
  simp only [hs, hw]

theorem append_of_refused {staged : List Staged} {batch : Batch} {e : AppendError}
    (hs : h.staging row = (.ok staged, progress))
    (hw : (Operation.writeFields h.specification.plan staged).run.run h.batch
      = (.error e, batch)) :
    h.append row = ⟨.error e, progress.calls.toList,
      { h with scratch := progress.scratch, batch }⟩ := by
  unfold staging at hs
  unfold append
  simp only [hs, hw]

end WriterHandle

/-! ### Steps -/

/-- A question about a handle, or about the vector of a column. -/
inductive Query where
  | rows
  | full
  | text
  | slots (column : ColumnId)
  | offsets (column : ColumnId)
  | reserved (column : ColumnId)
  deriving Repr, DecidableEq

inductive Answer where
  | count (n : Nat)
  | flag (b : Bool)
  | text (text : String)
  | offsets (offsets : Option (Array Nat))
  deriving Repr, DecidableEq

/-- What a program does with a handle in one step. -/
inductive Action where
  | append (row : Record)
  | appendAll (rows : List Record)
  | finish
  | query (query : Query)

/-- What the program gets from a step; appending also reads accessors. -/
inductive Outcome where
  | append (result : Except AppendError Unit) (calls : List Accessor)
  | appendAll (result : Except AppendError Nat) (calls : List Accessor)
  | finish (result : Except AssemblyError RecordBatch)
  | query (answer : Answer)

namespace WriterHandle

def answer (h : WriterHandle) : Query → Answer
  | .rows => .count h.rows
  | .full => .flag h.isFull
  | .text => .text h.describe
  | .slots column => .count (h.batch.slotCount column)
  | .offsets column => .offsets (h.batch.offsets? column)
  | .reserved column => .count (h.reservedSlots column)

/-- One step: what the program gets, and the handle afterwards. -/
def act (h : WriterHandle) : Action → Outcome × WriterHandle
  | .append row => (.append (h.append row).result (h.append row).calls, (h.append row).handle)
  | .appendAll rows =>
    (.appendAll (h.appendAll rows).result (h.appendAll rows).calls, (h.appendAll rows).handle)
  | .finish => (.finish h.finish.1, h.finish.2)
  | .query q => (.query (h.answer q), h)

end WriterHandle

/-! ### Runs -/

/-- A step within a run. -/
structure Transition where
  before : WriterHandle
  action : Action
  outcome : Outcome
  after : WriterHandle

namespace WriterHandle

/-- The handle after these steps. -/
def after (h : WriterHandle) : List Action → WriterHandle
  | [] => h
  | a :: rest => (h.act a).2.after rest

/-- The steps of a run one after the other. -/
def trace (h : WriterHandle) : List Action → List Transition
  | [] => []
  | a :: rest => ⟨h, a, (h.act a).1, (h.act a).2⟩ :: (h.act a).2.trace rest

/-- A handle for the specification after some steps. -/
inductive Reachable (s : Specification) : WriterHandle → Prop where
  | create {o : WriterOptions} {h : WriterHandle} (hcreate : create s o = .ok h) : Reachable s h
  | step {h : WriterHandle} (hreach : Reachable s h) (a : Action) : Reachable s (h.act a).2

theorem Reachable.after {s : Specification} {h : WriterHandle} (hreach : Reachable s h)
    (actions : List Action) : Reachable s (h.after actions) := by
  induction actions generalizing h with
  | nil => exact hreach
  | cons a rest ih => exact ih (hreach.step a)

/-! ### Accepted rows -/

/-- The rows that are appended if one after the other is, until one fails. -/
def accepted (h : WriterHandle) : List Record → List Record
  | [] => []
  | row :: rest =>
    match (h.append row).result with
    | .ok () => row :: (h.append row).handle.accepted rest
    | .error _ => []

end WriterHandle

/-- The rows that the step appended. -/
def Transition.accepted (t : Transition) : List Record :=
  match t.action with
  | .append row => t.before.accepted [row]
  | .appendAll rows => t.before.accepted rows
  | .finish | .query _ => []

namespace Run

/-- The rows of the batches that a run finishes; at its start there are some already. -/
def batchRows (rows : List Record) : List Transition → List (List Record)
  | [] => []
  | t :: rest =>
    match t.action with
    | .finish => rows :: batchRows [] rest
    | _ => batchRows (rows ++ t.accepted) rest

/-- The rows of the batch that is not finished at the end of a run. -/
def unfinished (rows : List Record) : List Transition → List Record
  | [] => rows
  | t :: rest =>
    match t.action with
    | .finish => unfinished [] rest
    | _ => unfinished (rows ++ t.accepted) rest

/-- What the finish steps of a run return. -/
def finished : List Transition → List (Except AssemblyError RecordBatch)
  | [] => []
  | t :: rest =>
    match t.outcome with
    | .finish result => result :: finished rest
    | _ => finished rest

end Run

/-! ### An example -/

/-- An order without a buyer. -/
def order (id : Int32) (tags : List Value) : Record :=
  .ofFields [("id", .ok (.int id)), ("buyer", .ok .null), ("tags", .ok (.list tags))]

/-- A new handle for orders. -/
def ordersHandle : WriterHandle where
  specification := ordersSpecification
  rowCapacity := 2
  reserved := [2, 2, 2, 2, 2, 2]
  batch := .empty ordersSpecification.root
  scratch := .fresh 6

theorem create_orders :
    WriterHandle.create ordersSpecification ⟨2, true⟩ = .ok ordersHandle := by
  rfl

end Columnar
