import Mathlib.Data.List.Forall2
import Columnar.Proofs.Batch.Capacity
import Columnar.Proofs.Handle.Finishing

/-! # Sizing

    The options of a handle say how many rows and elements there is room for
    from the start.  The capacities that follow from them go into new vectors,
    and into the offsets that take the place of those taken by finishing.

    `WriterHandle.traceWithCapacity` is a run in which finishing looks every
    capacity up.  It is the run without, and runs of handles that were opened
    with different options differ in nothing but in what they answer when they
    are asked for their capacities. -/

namespace Columnar

namespace WriterHandle

/-! ### Capacities -/

/-- A handle with an empty batch whose vectors have the capacities reserved for them. -/
def createWithCapacity (s : Specification) (o : WriterOptions) :
    Except AssemblyError WriterHandle := do
  s.root.preorder.forM Column.supported
  let reserved := s.root.reserved o.capacityHints o.batchSize
  return {
    specification := s
    rowCapacity := o.batchSize
    reserved
    batch := .withCapacities s.root reserved
    scratch := .fresh s.columnCount }

/-- Finish a batch with the capacities of the handle. -/
def finishWithCapacity (h : WriterHandle) :
    Option (Except AssemblyError RecordBatch × WriterHandle) :=
  (h.batch.finishWithCapacity h.specification h.reserved).map fun (result, batch) =>
    (result, { h with batch })

/-- One step; only finishing needs capacities. -/
def actWithCapacity (h : WriterHandle) : Action → Option (Outcome × WriterHandle)
  | .finish => h.finishWithCapacity.map fun (result, after) => (.finish result, after)
  | a => some (h.act a)

/-- A run, unless some capacity is not known. -/
def traceWithCapacity (h : WriterHandle) : List Action → Option (List Transition)
  | [] => some []
  | a :: rest => do
    let (outcome, after) ← h.actWithCapacity a
    let others ← after.traceWithCapacity rest
    return ⟨h, a, outcome, after⟩ :: others

theorem createWithCapacity_eq (s : Specification) (o : WriterOptions) :
    createWithCapacity s o = create s o := by
  have hbatch : Batch.withCapacities s.root (s.root.reserved o.capacityHints o.batchSize) =
      .empty s.root := Batch.withCapacities_eq (Column.length_reserved ..)
  unfold createWithCapacity create
  simp only [hbatch]

/-- A capacity is known for each vector of the handle. -/
def Sized (h : WriterHandle) : Prop := h.batch.Sized h.reserved

namespace Sized

variable {h : WriterHandle}

theorem create {s : Specification} {o : WriterOptions} (hcreate : create s o = .ok h) :
    h.Sized := by
  obtain ⟨_, _, hcreate⟩ := exists_of_bind_eq_ok hcreate
  cases hcreate
  exact Batch.Sized.empty s.root o.capacityHints o.batchSize

theorem append (hh : h.Sized) (row : Record) : (h.append row).handle.Sized := by
  rcases hstaged : h.staging row with ⟨e | staged, progress⟩
  · rw [append_of_staging_error hstaged]
    exact hh
  · have hwritten := Batch.Sized.writeFields hh h.specification.plan staged
    rcases hwrite : (Operation.writeFields h.specification.plan staged).run.run h.batch
      with ⟨e | u, batch⟩
    · rw [append_of_refused hstaged hwrite]
      rwa [hwrite] at hwritten
    · rw [append_of_written hstaged hwrite]
      rwa [hwrite] at hwritten

theorem appendAll (hh : h.Sized) (rows : List Record) : (h.appendAll rows).handle.Sized := by
  induction rows generalizing h with
  | nil => exact hh
  | cons row rest ih =>
    have hrow := hh.append row
    cases hr : (h.append row).result with
    | error e => simpa only [WriterHandle.appendAll, hr] using hrow
    | ok u => simpa only [WriterHandle.appendAll, hr] using ih hrow

theorem act (hh : h.Sized) (a : Action) : (h.act a).2.Sized := by
  cases a with
  | append row => exact hh.append row
  | appendAll rows => exact hh.appendAll rows
  | finish => exact (Batch.Sized.finish hh h.specification).2
  | query q => exact hh

/-- Every capacity that a step looks up is known, and none matters. -/
theorem actWithCapacity_eq (hh : h.Sized) (a : Action) : h.actWithCapacity a = some (h.act a) := by
  cases a with
  | finish =>
    unfold actWithCapacity finishWithCapacity
    simp only [(Batch.Sized.finish hh h.specification).1, Option.map_some]
    rfl
  | _ => rfl

theorem traceWithCapacity_eq (hh : h.Sized) (actions : List Action) :
    h.traceWithCapacity actions = some (h.trace actions) := by
  induction actions generalizing h with
  | nil => rfl
  | cons a rest ih =>
    rw [traceWithCapacity, hh.actWithCapacity_eq a]
    show ((h.act a).2.traceWithCapacity rest).bind _ = _
    rw [ih (hh.act a)]
    rfl

end Sized

/-! ### Other capacities -/

/-- The handle with other capacities. -/
def resize (h : WriterHandle) (rowCapacity : Nat) (reserved : List Nat) : WriterHandle :=
  { h with rowCapacity, reserved }

variable (h : WriterHandle) (rowCapacity : Nat) (reserved : List Nat)

theorem append_resize (row : Record) : (h.resize rowCapacity reserved).append row =
    { h.append row with handle := (h.append row).handle.resize rowCapacity reserved } := by
  -- what is staged and written is that of the handle
  have hstaging : (h.resize rowCapacity reserved).staging row = h.staging row := rfl
  rcases hrun : h.staging row with ⟨e | staged, progress⟩
  · rw [append_of_staging_error hrun, append_of_staging_error (hstaging.trans hrun)]
    rfl
  · rcases hwrite : (Operation.writeFields h.specification.plan staged).run.run h.batch
      with ⟨e | u, batch⟩
    · rw [append_of_refused hrun hwrite, append_of_refused (hstaging.trans hrun) hwrite]
      rfl
    · rw [append_of_written hrun hwrite, append_of_written (hstaging.trans hrun) hwrite]
      rfl

theorem appendAll_resize (rows : List Record) : (h.resize rowCapacity reserved).appendAll rows =
    { h.appendAll rows with
      handle := (h.appendAll rows).handle.resize rowCapacity reserved } := by
  induction rows generalizing h with
  | nil => rfl
  | cons row rest ih =>
    rw [appendAll, appendAll, append_resize]
    cases hr : (h.append row).result with
    | error e => rfl
    | ok u => simp only [ih]

end WriterHandle

/-- Does the answer tell a capacity? -/
def Action.asksCapacity : Action → Bool
  | .query .full | .query (.reserved _) => true
  | _ => false

theorem WriterHandle.act_resize (h : WriterHandle) (rowCapacity : Nat) (reserved : List Nat)
    (a : Action) :
    ((h.resize rowCapacity reserved).act a).2 = (h.act a).2.resize rowCapacity reserved ∧
      (a.asksCapacity = false → ((h.resize rowCapacity reserved).act a).1 = (h.act a).1) := by
  cases a with
  | append row =>
    have hstep := h.append_resize rowCapacity reserved row
    refine ⟨congrArg HandleStep.handle hstep, fun _ => ?_⟩
    show Outcome.append _ _ = _
    rw [hstep]
    rfl
  | appendAll rows =>
    have hstep := h.appendAll_resize rowCapacity reserved rows
    refine ⟨congrArg HandleStep.handle hstep, fun _ => ?_⟩
    show Outcome.appendAll _ _ = _
    rw [hstep]
    rfl
  | finish => exact ⟨rfl, fun _ => rfl⟩
  | query q =>
    refine ⟨rfl, fun hask => ?_⟩
    cases q with
    | full => cases hask
    | reserved column => cases hask
    | _ => rfl

/-! ### Runs -/

/-- Two steps of runs that do the same, with the same results, unless they tell a capacity, and with
    the same batch afterwards. -/
structure Transition.Alike (t u : Transition) : Prop where
  action : t.action = u.action
  outcome : t.action.asksCapacity = false → t.outcome = u.outcome
  specification : t.after.specification = u.after.specification
  rows : t.after.rows = u.after.rows
  slots : ∀ column, t.after.batch.slotCount column = u.after.batch.slotCount column
  offsets : ∀ column, t.after.batch.offsets? column = u.after.batch.offsets? column
  batch : t.after.batch = u.after.batch

theorem WriterHandle.trace_resize (h : WriterHandle) (rowCapacity : Nat) (reserved : List Nat)
    (actions : List Action) : List.Forall₂ Transition.Alike (h.trace actions)
      ((h.resize rowCapacity reserved).trace actions) := by
  induction actions generalizing h with
  | nil => exact .nil
  | cons a rest ih =>
    obtain ⟨hafter, houtcome⟩ := h.act_resize rowCapacity reserved a
    rw [trace, trace, hafter]
    refine .cons ⟨rfl, fun hask => (houtcome hask).symm, rfl, rfl, ?_, ?_, rfl⟩ (ih (h.act a).2)
    · intro column
      rfl
    · intro column
      rfl

/-- What a handle was opened with stays in every step. -/
theorem WriterHandle.setup_trace (h : WriterHandle) (actions : List Action) :
    ∀ t ∈ h.trace actions, t.after.setup = h.setup := by
  induction actions generalizing h with
  | nil =>
    intro t ht
    cases ht
  | cons a rest ih =>
    intro t ht
    have hact := h.setup_act a
    rcases List.mem_cons.1 ht with rfl | ht
    · exact hact
    · exact (ih (h.act a).2 t ht).trans hact

/-- Handles that were opened for one specification differ in their capacities only. -/
theorem WriterHandle.eq_resize_of_create {s : Specification} {o o' : WriterOptions}
    {h g : WriterHandle} (hh : create s o = .ok h) (hg : create s o' = .ok g) :
    g = h.resize o'.batchSize (s.root.reserved o'.capacityHints o'.batchSize) := by
  obtain ⟨_, _, hh⟩ := exists_of_bind_eq_ok hh
  obtain ⟨_, _, hg⟩ := exists_of_bind_eq_ok hg
  cases hh
  cases hg
  rfl

theorem WriterHandle.setup_create {s : Specification} {o : WriterOptions} {h : WriterHandle}
    (hh : create s o = .ok h) :
    h.setup = (s, o.batchSize, s.root.reserved o.capacityHints o.batchSize) := by
  obtain ⟨_, _, hh⟩ := exists_of_bind_eq_ok hh
  cases hh
  rfl

/-- Whether a handle can be opened does not depend on the options. -/
theorem WriterHandle.create_error_iff (s : Specification) (o o' : WriterOptions)
    (e : AssemblyError) : create s o = .error e ↔ create s o' = .error e := by
  unfold create
  cases s.root.preorder.forM Column.supported with
  | error e' => exact Iff.rfl
  | ok u => exact ⟨nofun, nofun⟩

/-- Handles that are opened for one specification, whatever the options are, either fail to open
    alike, or go through the same runs: every step has the same result and calls, and leaves the
    same batch, unless it asks for capacities.  Those are the ones that the handle was opened with,
    and each that is looked up on the way is known. -/
theorem sizing_unobservable (s : Specification) (o o' : WriterOptions) :
    WriterHandle.createWithCapacity s o = WriterHandle.create s o ∧
    (∀ e, WriterHandle.create s o = .error e ↔ WriterHandle.create s o' = .error e) ∧
    ∀ h g, WriterHandle.create s o = .ok h → WriterHandle.create s o' = .ok g → ∀ actions,
      h.traceWithCapacity actions = some (h.trace actions) ∧
      g.traceWithCapacity actions = some (g.trace actions) ∧
      List.Forall₂ Transition.Alike (h.trace actions) (g.trace actions) ∧
      ∀ t ∈ h.trace actions, t.after.rowCapacity = o.batchSize ∧
        t.after.reserved = s.root.reserved o.capacityHints o.batchSize := by
  refine ⟨WriterHandle.createWithCapacity_eq s o, WriterHandle.create_error_iff s o o', ?_⟩
  intro h g hh hg actions
  have hsetup := WriterHandle.setup_create hh
  refine ⟨(WriterHandle.Sized.create hh).traceWithCapacity_eq actions,
    (WriterHandle.Sized.create hg).traceWithCapacity_eq actions, ?_, ?_⟩
  · rw [WriterHandle.eq_resize_of_create hh hg]
    exact h.trace_resize _ _ actions
  · intro t ht
    have htrace := (h.setup_trace actions t ht).trans hsetup
    simp only [WriterHandle.setup, Prod.mk.injEq] at htrace
    exact htrace.2

/-- Two orders with room for few or for many. -/
theorem orders_sizing :
    let actions : List Action :=
      [.append (order 1 [.string "new"]), .query .full, .append (order 2 []), .finish]
    ∃ g, WriterHandle.create ordersSpecification ⟨1000, false⟩ = .ok g ∧
      List.Forall₂ Transition.Alike (ordersHandle.trace actions) (g.trace actions) ∧
      ordersHandle.traceWithCapacity actions = some (ordersHandle.trace actions) ∧
      (ordersHandle.after (actions.take 3)).isFull = true ∧
      (g.after (actions.take 3)).isFull = false := by
  intro actions
  have hg : WriterHandle.create ordersSpecification ⟨1000, false⟩ =
      .ok (ordersHandle.resize 1000 [1000, 1000, 1000, 1000, 1000, 1000]) := rfl
  obtain ⟨-, -, hruns⟩ := sizing_unobservable ordersSpecification ⟨2, true⟩ ⟨1000, false⟩
  obtain ⟨hknown, -, halike, -⟩ := hruns _ _ create_orders hg actions
  exact ⟨_, hg, halike, hknown, by with_unfolding_all rfl, by with_unfolding_all rfl⟩

end Columnar
