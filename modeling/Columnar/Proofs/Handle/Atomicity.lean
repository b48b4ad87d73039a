import Columnar.Proofs.Handle.Invariant

/-! # Failing appends

    Writing a row cannot be undone, so a vector that refuses a part of a row
    would leave the parts before it behind.  Staging makes sure that this does
    not happen: for a specification built from a catalog no vector ever refuses
    what was staged, and an append that fails before writing changes nothing but
    the counts of the staging, which nothing reads.

    A run therefore goes on as if its failing appends were not there
    (`Holds.trace_withoutFailed`). -/

namespace Columnar

/-! ### What writing can fail with -/

/-- Is it the error of a vector that refuses what is written? -/
def AppendError.isMismatch : AppendError → Bool
  | .vectorMismatch _ _ => true
  | _ => false

theorem AppendError.isMismatch_of_isViolation {e : AppendError} (h : e.isViolation) :
    e.isMismatch = false := by
  cases e with
  | vectorMismatch column path => cases h
  | _ => rfl

/-- A change is only refused by a vector. -/
theorem Writing.commit_failsOnly (target : Target) (change : Batch → Option Batch) :
    FailsOnly (fun e => e.isMismatch) (Writing.commit target change) := by
  unfold Writing.commit
  refine failsOnly_bind (fun s e s' h => by cases h) fun b => ?_
  cases change b with
  | some b => exact fun s e s' h => by cases h
  | none => exact failsOnly_throw rfl

mutual

/-- Writing fails only where a vector refuses what is written. -/
theorem Operation.write_failsOnly (op : Operation) (value : Staged) :
    FailsOnly (fun e => e.isMismatch) (op.write value) := by
  -- absent values are written without any check
  by_cases hnull : value = .null
  · subst hnull
    rw [Operation.write]
    exact fun s e s' h => by cases h
  match op with
  | .primitive target kind =>
    cases value with
    | scalar s => exact Writing.commit_failsOnly _ _
    | null => contradiction
    | _ => exact failsOnly_throw rfl
  | .struct target fields =>
    cases value with
    | struct row =>
      exact failsOnly_bind (Writing.commit_failsOnly _ _) fun _ =>
        Operation.writeFields_failsOnly fields row
    | null => contradiction
    | _ => exact failsOnly_throw rfl
  | .list target element =>
    cases value with
    | list items =>
      exact failsOnly_bind (failsOnly_forM fun item _ => element.write_failsOnly item) fun _ =>
        Writing.commit_failsOnly _ _
    | null => contradiction
    | _ => exact failsOnly_throw rfl
  | .map target key part =>
    cases value with
    | map entries =>
      refine failsOnly_bind (failsOnly_forM fun e _ => ?_) fun _ => Writing.commit_failsOnly _ _
      exact failsOnly_bind (key.write_failsOnly e.1) fun _ => part.write_failsOnly e.2
    | null => contradiction
    | _ => exact failsOnly_throw rfl

theorem Operation.writeFields_failsOnly (fields : List (Accessor × Operation))
    (values : List Staged) : FailsOnly (fun e => e.isMismatch) (writeFields fields values) := by
  match fields, values with
  | (_, op) :: rest, value :: values =>
    exact failsOnly_bind (op.write_failsOnly value) fun _ =>
      Operation.writeFields_failsOnly rest values
  | [], _ => exact failsOnly_pure _
  | _ :: _, [] => exact failsOnly_pure _

end

/-! ### No refusals -/

namespace Holds

variable {s : Specification} {rows : List Record} {h : WriterHandle}

/-- No vector refuses a row that could be staged. -/
theorem isMismatch_of_append_error (hs : s.WellFormed) (hh : Holds s rows h) {row : Record}
    {e : AppendError} (he : (h.append row).result = .error e) : e.isMismatch = false := by
  rcases hh.append hs row with ⟨hok, -⟩ | ⟨e', he', -, hcause⟩
  · rw [hok] at he
    cases he
  · cases he'.symm.trans he
    rcases hcause with hhead | ⟨⟨path, rfl⟩, -⟩
    · exact AppendError.isMismatch_of_isViolation
        (Operation.isViolation_of_mem_violationsOfFields (List.mem_of_head? hhead))
    · rfl

theorem append_of_staged (hs : s.WellFormed) (hh : Holds s rows h) {row : Record}
    {staged : List Staged} (hstaged : (h.staging row).1 = .ok staged) :
    (h.append row).result = .ok () := by
  rcases hrun : h.staging row with ⟨r, progress⟩
  rw [hrun] at hstaged
  subst hstaged
  -- writing can only fail with a refusal, and there are none
  rcases hwrite : (Operation.writeFields h.specification.plan staged).run.run h.batch
    with ⟨e | u, batch⟩
  · have happend := WriterHandle.append_of_refused hrun hwrite
    have hnot := hh.isMismatch_of_append_error hs (congrArg HandleStep.result happend)
    have hrefused : e.isMismatch := Operation.writeFields_failsOnly _ _ _ _ _ hwrite
    rw [hnot] at hrefused
    cases hrefused
  · rw [WriterHandle.append_of_written hrun hwrite]

end Holds

/-! ### Many rows -/

/-- Appending many rows stops at the first one that fails, with its error. -/
theorem WriterHandle.appendAll_error {h : WriterHandle} {rows : List Record} {e : AppendError}
    (he : (h.appendAll rows).result = .error e) :
    ∃ before row after, rows = before ++ row :: after ∧
      (h.appendAll before).result = .ok before.length ∧
      ((h.appendAll before).handle.append row).result = .error e ∧
      (h.appendAll rows).handle = ((h.appendAll before).handle.append row).handle := by
  induction rows generalizing h with
  | nil => cases he
  | cons row rest ih =>
    cases hrow : (h.append row).result with
    | error e' =>
      simp only [appendAll, hrow] at he ⊢
      cases he
      exact ⟨[], row, rest, rfl, rfl, hrow, rfl⟩
    | ok u =>
      simp only [appendAll, hrow] at he
      have hrest : ((h.append row).handle.appendAll rest).result = .error e := by
        cases hr : ((h.append row).handle.appendAll rest).result with
        | error e' =>
          rw [hr] at he
          exact he
        | ok n =>
          rw [hr] at he
          cases he
      -- the first failing row of the rest is the first one of all
      obtain ⟨before, r, after, rfl, hbefore, hr, hhandle⟩ := ih hrest
      refine ⟨row :: before, r, after, rfl, ?_, ?_, ?_⟩
      · simp only [appendAll, hrow, hbefore]
        rfl
      · simpa only [appendAll, hrow] using hr
      · simpa only [appendAll, hrow] using hhandle

/-! ### What can be seen -/

namespace WriterHandle

/-- The handle but for the counts that the last staging left behind. -/
def visible (h : WriterHandle) : WriterHandle :=
  { h with scratch := .fresh 0 }

end WriterHandle

/-- The step with what can be seen of the handle afterwards. -/
def HandleStep.visible {α : Type} (step : HandleStep α) : HandleStep α :=
  { step with handle := step.handle.visible }

theorem HandleStep.visible_eq_iff {α : Type} {step step' : HandleStep α} :
    step.visible = step'.visible ↔ step.result = step'.result ∧ step.calls = step'.calls ∧
      step.handle.visible = step'.handle.visible := by
  simp [visible]

namespace WriterHandle

variable {h g : WriterHandle}

theorem visible_eq_iff : h.visible = g.visible ↔ h.specification = g.specification ∧
    h.rowCapacity = g.rowCapacity ∧ h.reserved = g.reserved ∧ h.batch = g.batch := by
  simp [visible]

/-- An append that fails but for a refusal changes nothing that can be seen. -/
theorem visible_of_append_error {row : Record} {e : AppendError}
    (he : (h.append row).result = .error e) (hmismatch : e.isMismatch = false) :
    (h.append row).handle.visible = h.visible := by
  rcases hstaged : h.staging row with ⟨e' | staged, progress⟩
  · rw [append_of_staging_error hstaged]
    rfl
  · rcases hwrite : (Operation.writeFields h.specification.plan staged).run.run h.batch
      with ⟨e' | u, batch⟩
    -- what was staged is refused, which the premise excludes
    · rw [append_of_refused hstaged hwrite] at he
      cases he
      have hrefused : e.isMismatch := Operation.writeFields_failsOnly _ _ _ _ _ hwrite
      rw [hmismatch] at hrefused
      cases hrefused
    · rw [append_of_written hstaged hwrite] at he
      cases he

/-- The counts left behind before have no influence on an append. -/
theorem append_visible (h : WriterHandle) (row : Record) :
    (h.visible.append row).visible = (h.append row).visible := by
  -- every append stages with fresh counts
  have hstaging : h.visible.staging row = h.staging row := rfl
  rcases hrun : h.staging row with ⟨e | staged, progress⟩
  · rw [append_of_staging_error hrun, append_of_staging_error (hstaging.trans hrun)]
    rfl
  · rcases hwrite : (Operation.writeFields h.specification.plan staged).run.run h.batch
      with ⟨e | u, batch⟩
    · rw [append_of_refused hrun hwrite, append_of_refused (hstaging.trans hrun) hwrite]
      rfl
    · rw [append_of_written hrun hwrite, append_of_written (hstaging.trans hrun) hwrite]
      rfl

/-- Handles that look alike do alike. -/
theorem append_congr (hv : h.visible = g.visible) (row : Record) :
    (h.append row).visible = (g.append row).visible := by
  rw [← append_visible, hv, append_visible]

theorem appendAll_congr (hv : h.visible = g.visible) (rows : List Record) :
    (h.appendAll rows).visible = (g.appendAll rows).visible := by
  induction rows generalizing h g with
  | nil => exact HandleStep.visible_eq_iff.2 ⟨rfl, rfl, hv⟩
  | cons row rest ih =>
    obtain ⟨hresult, hcalls, hhandle⟩ := HandleStep.visible_eq_iff.1 (append_congr hv row)
    obtain ⟨hresults, hcalls', hhandle'⟩ := HandleStep.visible_eq_iff.1 (ih hhandle)
    apply HandleStep.visible_eq_iff.2
    -- both stop at this row or neither does
    cases hr : (g.append row).result with
    | error e =>
      rw [hr] at hresult
      simp only [appendAll, hr, hresult]
      exact ⟨trivial, hcalls, hhandle⟩
    | ok u =>
      rw [hr] at hresult
      simp only [appendAll, hr, hresult]
      exact ⟨congrArg _ hresults, by rw [hcalls, hcalls'], hhandle'⟩

theorem act_congr (hv : h.visible = g.visible) (a : Action) :
    (h.act a).1 = (g.act a).1 ∧ (h.act a).2.visible = (g.act a).2.visible := by
  cases a with
  | append row =>
    obtain ⟨hresult, hcalls, hhandle⟩ := HandleStep.visible_eq_iff.1 (append_congr hv row)
    exact ⟨by simp only [act, hresult, hcalls], hhandle⟩
  | appendAll rows =>
    obtain ⟨hresult, hcalls, hhandle⟩ := HandleStep.visible_eq_iff.1 (appendAll_congr hv rows)
    exact ⟨by simp only [act, hresult, hcalls], hhandle⟩
  | finish =>
    obtain ⟨hspec, hcapacity, hreserved, hbatch⟩ := visible_eq_iff.1 hv
    have hfinish : h.batch.finish h.specification = g.batch.finish g.specification := by
      rw [hspec, hbatch]
    constructor
    · show Outcome.finish (h.batch.finish h.specification).1 = _
      rw [hfinish]
      rfl
    · exact visible_eq_iff.2 ⟨hspec, hcapacity, hreserved, congrArg Prod.snd hfinish⟩
  | query q =>
    obtain ⟨hspec, hcapacity, hreserved, hbatch⟩ := visible_eq_iff.1 hv
    have hanswer : h.answer q = g.answer q := by
      cases q with
      | text =>
        have hdescribe : h.describe = g.describe := by
          unfold describe rows
          rw [hspec, hbatch]
        exact congrArg Answer.text hdescribe
      | rows => simp only [answer, rows, hbatch]
      | full => simp only [answer, isFull, hcapacity, hbatch]
      | slots column => simp only [answer, hbatch]
      | offsets column => simp only [answer, hbatch]
      | reserved column => simp only [answer, reservedSlots, hreserved]
    exact ⟨congrArg Outcome.query hanswer, hv⟩

end WriterHandle

/-! ### Runs without failing appends -/

namespace Transition

/-- Is the step an append that failed? -/
def failedAppend (t : Transition) : Bool :=
  match t.outcome with
  | .append (.error _) _ => true
  | _ => false

/-- What a program can see of a step. -/
def seen (t : Transition) : Action × Outcome × WriterHandle :=
  (t.action, t.outcome, t.after.visible)

end Transition

namespace Run

/-- The steps that are no failing appends. -/
def withoutFailed (run : List Transition) : List Transition :=
  run.filter fun t => !t.failedAppend

def actions (run : List Transition) : List Action :=
  run.map Transition.action

end Run

namespace Holds

variable {s : Specification} {rows : List Record} {h g : WriterHandle}

/-- Without its failing appends a run gives what it gave with them, step by step. -/
theorem trace_withoutFailed (hs : s.WellFormed) (hh : Holds s rows h)
    (hv : h.visible = g.visible) (actions : List Action) :
    (g.trace (Run.actions (Run.withoutFailed (h.trace actions)))).map Transition.seen =
      (Run.withoutFailed (h.trace actions)).map Transition.seen := by
  induction actions generalizing h g rows with
  | nil => rfl
  | cons a rest ih =>
    have hact := hh.act hs a
    by_cases hfailed : (Transition.mk h a (h.act a).1 (h.act a).2).failedAppend
    -- a failing append is left out, and the rest goes on from the same handle
    · have hsame : (h.act a).2.visible = h.visible := by
        cases a with
        | append row =>
          cases hr : (h.append row).result with
          | error e =>
            exact WriterHandle.visible_of_append_error hr (hh.isMismatch_of_append_error hs hr)
          | ok u => simp [Transition.failedAppend, WriterHandle.act, hr] at hfailed
        | _ => cases hfailed
      have hdrop : Run.withoutFailed (h.trace (a :: rest)) =
          Run.withoutFailed ((h.act a).2.trace rest) := by
        simp [Run.withoutFailed, WriterHandle.trace, hfailed]
      rw [hdrop]
      exact ih hact (hsame.trans hv)
    -- any other step is taken in both runs, from handles that look alike
    · have hkeep : Run.withoutFailed (h.trace (a :: rest)) =
          ⟨h, a, (h.act a).1, (h.act a).2⟩ :: Run.withoutFailed ((h.act a).2.trace rest) := by
        simp [Run.withoutFailed, WriterHandle.trace, hfailed]
      obtain ⟨houtcome, hafter⟩ := WriterHandle.act_congr hv a
      have hrest := ih hact hafter
      have hfirst : Transition.seen ⟨g, a, (g.act a).1, (g.act a).2⟩ =
          Transition.seen ⟨h, a, (h.act a).1, (h.act a).2⟩ := by
        simp only [Transition.seen, houtcome, hafter]
      rw [hkeep, List.map_cons, ← hfirst, ← hrest]
      rfl

end Holds

/-! ### Atomicity -/

/-- An append that fails, but for a refusal, leaves all vectors as they were; with a specification
    from a catalog there are no refusals, so runs do not depend on failing appends. -/
theorem failed_appends_invisible :
    (∀ (root : Column) (owner : Owner) (writerId : WriterId) (s : Specification),
      synthesize root owner writerId = .ok s → ∀ h, WriterHandle.Reachable s h →
        ∀ row e, (h.append row).result = .error e → e.isMismatch = false →
          (h.append row).handle.rows = h.rows ∧
            (h.append row).handle.batch.vectors = h.batch.vectors) ∧
    (∀ (c : Catalog) (writerId : WriterId) (s : Specification),
      Specification.build c writerId = .ok s → ∀ h, WriterHandle.Reachable s h →
        (∀ row e, (h.append row).result = .error e → e.isMismatch = false) ∧
        (∀ rows e, (h.appendAll rows).result = .error e → e.isMismatch = false) ∧
        (∀ row staged, (h.staging row).1 = .ok staged → (h.append row).result = .ok ()) ∧
        (∀ actions,
          (h.trace (Run.actions (Run.withoutFailed (h.trace actions)))).map Transition.seen =
            (Run.withoutFailed (h.trace actions)).map Transition.seen) ∧
        (∀ rows e, (h.appendAll rows).result = .error e →
          ∃ before row after, rows = before ++ row :: after ∧
            (h.appendAll before).result = .ok before.length ∧
            ((h.appendAll before).handle.append row).result = .error e ∧
            (h.appendAll rows).handle.visible = (h.appendAll before).handle.visible)) := by
  constructor
  · intro root owner writerId s _ h _ row e he hmismatch
    have hsame := WriterHandle.visible_of_append_error he hmismatch
    obtain ⟨-, -, -, hbatch⟩ := WriterHandle.visible_eq_iff.1 hsame
    exact ⟨congrArg Batch.rows hbatch, congrArg Batch.vectors hbatch⟩
  · intro c writerId s hbuild h hreach
    have hs := Specification.build_wellFormed hbuild
    obtain ⟨held, hh⟩ := hreach.holds hs
    have hstop : ∀ rows e, (h.appendAll rows).result = .error e →
        ∃ before row after, rows = before ++ row :: after ∧
          (h.appendAll before).result = .ok before.length ∧
          ((h.appendAll before).handle.append row).result = .error e ∧
          e.isMismatch = false ∧
          (h.appendAll rows).handle.visible = (h.appendAll before).handle.visible := by
      intro rows e he
      obtain ⟨before, row, after, hrows, hbefore, hrow, hhandle⟩ :=
        WriterHandle.appendAll_error he
      have hnot := (hh.appendAll hs before).isMismatch_of_append_error hs hrow
      refine ⟨before, row, after, hrows, hbefore, hrow, hnot, ?_⟩
      rw [hhandle]
      exact WriterHandle.visible_of_append_error hrow hnot
    refine ⟨fun row e he => hh.isMismatch_of_append_error hs he, fun rows e he => ?_,
      fun row staged hstaged => hh.append_of_staged hs hstaged,
      fun actions => hh.trace_withoutFailed hs rfl actions, fun rows e he => ?_⟩
    · obtain ⟨-, -, -, -, -, -, hnot, -⟩ := hstop rows e he
      exact hnot
    · obtain ⟨before, row, after, hrows, hbefore, hrow, -, hsame⟩ := hstop rows e he
      exact ⟨before, row, after, hrows, hbefore, hrow, hsame⟩

/-- An order with a flag for a tag changes no vector, though its first tag could be written. -/
theorem orders_failed_append_invisible :
    (ordersHandle.append (order 8 [.string "old", .boolean true])).result =
        .error (.typeMismatch ⟨"Order", ["tags", "element"]⟩ "string" "boolean") ∧
      (ordersHandle.append (order 8 [.string "old", .boolean true])).handle.batch.vectors =
        ordersHandle.batch.vectors ∧
      (ordersHandle.trace [.append (order 7 []), .finish]).map Transition.seen =
        (Run.withoutFailed (ordersHandle.trace [.append (order 7 []),
          .append (order 8 [.string "old", .boolean true]), .finish])).map Transition.seen := by
  have hsynthesize : synthesize ordersSpecification.root orders.describe 0 =
      .ok ordersSpecification := rfl
  have hreach : WriterHandle.Reachable ordersSpecification ordersHandle := .create create_orders
  have herror : (ordersHandle.append (order 8 [.string "old", .boolean true])).result =
      .error (.typeMismatch ⟨"Order", ["tags", "element"]⟩ "string" "boolean") := rfl
  obtain ⟨-, -, -, hrun, -⟩ :=
    failed_appends_invisible.2 orders 0 ordersSpecification build_orders ordersHandle hreach
  exact ⟨herror, (failed_appends_invisible.1 _ _ _ _ hsynthesize _ hreach _ _ herror rfl).2,
    hrun [.append (order 7 []), .append (order 8 [.string "old", .boolean true]), .finish]⟩

end Columnar
