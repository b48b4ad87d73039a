import Columnar.Batch.Basic

/-! # Writing staged rows

    A staged row is written to the vectors of its columns in the order of the
    append plan.  A vector may refuse what is written to it; what was written
    before stays.
-/

namespace Columnar

/-- Writing ends with success or an error, and with the batch reached. -/
abbrev Writing := ExceptT AppendError (StateM Batch)

namespace Writing

/-- Change the batch, unless its vector refuses what is written for the target. -/
def commit (target : Target) (change : Batch → Option Batch) : Writing Unit := do
  match change (← get) with
  | some b => set b
  | none => throw (.vectorMismatch target.column target.path)

end Writing

mutual

/-- Add an absent slot for an operation; the fields of an absent struct are absent, too. -/
def Operation.writeNull (op : Operation) (b : Batch) : Batch :=
  match op with
  | .struct target fields => Operation.writeNullFields fields (b.appendNull target.column)
  | .primitive target _ | .list target _ | .map target _ _ => b.appendNull target.column

def Operation.writeNullFields (fields : List (Accessor × Operation)) (b : Batch) : Batch :=
  match fields with
  | [] => b
  | (_, op) :: rest => Operation.writeNullFields rest (Operation.writeNull op b)

end

mutual

/-- Write a staged value to the column of an operation and those below it. -/
def Operation.write (op : Operation) (value : Staged) : Writing Unit :=
  match op, value with
  | op, .null => modify op.writeNull
  | .primitive target _, .scalar s => Writing.commit target (·.appendScalar? target.column s)
  | .struct target fields, .struct values => do
    Writing.commit target (·.markPresent? target.column)
    Operation.writeFields fields values
  | .list target element, .list items => do
    items.forM fun item => Operation.write element item
    Writing.commit target (·.close? target.column element.column)
  | .map target key value, .map entries => do
    entries.forM fun (k, v) => do
      Operation.write key k
      Operation.write value v
    Writing.commit target (·.close? target.column key.column)
  | op, _ => throw (.vectorMismatch op.column op.path)
termination_by structural op

def Operation.writeFields (fields : List (Accessor × Operation)) (values : List Staged) :
    Writing Unit :=
  match fields, values with
  | (_, op) :: rest, value :: values => do
    Operation.write op value
    Operation.writeFields rest values
  | _, _ => return
termination_by structural fields

end

end Columnar
