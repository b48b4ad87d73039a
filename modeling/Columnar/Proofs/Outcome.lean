/-! # Steps that may fail

    A computation of the program ends with a value or an error; staging,
    writing and draining change a state on the way, and keep what they changed
    when they fail.  What a sequence of such steps does is put together from
    what each of them does. -/

namespace Columnar

/-! ### Without a state -/

/-- A result that came through a second step came through the first one. -/
theorem exists_of_bind_eq_ok {ε α β : Type} {x : Except ε α} {f : α → Except ε β} {b : β}
    (h : (x >>= f) = .ok b) : ∃ a, x = .ok a ∧ f a = .ok b := by
  cases x with
  | error e => cases h
  | ok a => exact ⟨a, rfl, h⟩

theorem forM_eq_ok {ε α : Type} {f : α → Except ε PUnit} {items : List α}
    (h : ∀ item ∈ items, f item = .ok ⟨⟩) : items.forM f = .ok ⟨⟩ := by
  induction items with
  | nil => rfl
  | cons item rest ih =>
    show (f item >>= fun _ => rest.forM f) = _
    rw [h item (by simp)]
    exact ih fun x hx => h x (by simp [hx])

section Folds

variable {σ α : Type} {f : σ → α → Option σ} {s s' : σ}

/-- A fold goes on from where its first step leads. -/
theorem foldlM_cons_of_eq_some {x : α} (h : f s x = some s') (xs : List α) :
    (x :: xs).foldlM f s = xs.foldlM f s' := by
  rw [List.foldlM_cons, h]
  rfl

theorem foldlM_append_of_eq_some {xs : List α} (h : xs.foldlM f s = some s') (ys : List α) :
    (xs ++ ys).foldlM f s = ys.foldlM f s' := by
  rw [List.foldlM_append, h]
  rfl

/-- What comes out of a list is made of what is in it. -/
theorem exists_of_mapM_eq_some {β : Type} {g : α → Option β} {xs : List α} {ys : List β}
    (h : xs.mapM g = some ys) {y : β} (hy : y ∈ ys) : ∃ x ∈ xs, g x = some y := by
  induction xs generalizing ys with
  | nil =>
    cases h
    cases hy
  | cons x rest ih =>
    rw [List.mapM_cons] at h
    obtain ⟨z, hz, h⟩ := Option.bind_eq_some_iff.1 h
    obtain ⟨zs, hzs, h⟩ := Option.bind_eq_some_iff.1 h
    cases h
    rcases List.mem_cons.1 hy with rfl | hy
    · exact ⟨x, by simp, hz⟩
    · obtain ⟨x', hx', hy'⟩ := ih hzs hy
      exact ⟨x', by simp [hx'], hy'⟩

end Folds

/-! ### With a state -/

section Stateful

variable {ε σ α β : Type}

/-- The second step runs from the state that the first one ends in, unless that fails. -/
theorem run_bind (x : ExceptT ε (StateM σ) α) (f : α → ExceptT ε (StateM σ) β) (s : σ) :
    (x >>= f).run.run s =
      match x.run.run s with
      | (.ok a, s') => (f a).run.run s'
      | (.error e, s') => (.error e, s') := by
  rw [ExceptT.run_bind]
  -- the rule for the inner monad, with the match still inside the second run
  show (match x.run.run s with
      | (r, s') => StateT.run (match r with
        | .ok a => (f a).run
        | .error e => pure (.error e)) s') = _
  rcases x.run.run s with ⟨r, s'⟩
  cases r <;> rfl

theorem run_bind_ok {x : ExceptT ε (StateM σ) α} {f : α → ExceptT ε (StateM σ) β} {s s' : σ}
    {a : α} (h : x.run.run s = (.ok a, s')) : (x >>= f).run.run s = (f a).run.run s' := by
  rw [run_bind, h]

theorem run_bind_error {x : ExceptT ε (StateM σ) α} {f : α → ExceptT ε (StateM σ) β} {s s' : σ}
    {e : ε} (h : x.run.run s = (.error e, s')) : (x >>= f).run.run s = (.error e, s') := by
  rw [run_bind, h]

/-- The state afterwards is that after the second step, or after the first one if that fails. -/
theorem state_bind (x : ExceptT ε (StateM σ) α) (f : α → ExceptT ε (StateM σ) β) (s : σ) :
    ((x >>= f).run.run s).2 = (x.run.run s).2 ∨
      ∃ a, ((x >>= f).run.run s).2 = ((f a).run.run (x.run.run s).2).2 := by
  rcases hrun : x.run.run s with ⟨e | a, s'⟩
  · exact .inl (by rw [run_bind_error hrun])
  · exact .inr ⟨a, by rw [run_bind_ok hrun]⟩

/-- A second step that leaves the state alone does not matter to it. -/
theorem state_bind_of_eq {x : ExceptT ε (StateM σ) α} {f : α → ExceptT ε (StateM σ) β}
    (hf : ∀ a s, ((f a).run.run s).2 = s) (s : σ) :
    ((x >>= f).run.run s).2 = (x.run.run s).2 := by
  rcases state_bind x f s with h | ⟨a, h⟩
  · exact h
  · rw [h, hf]

@[simp] theorem run_pure (a : α) (s : σ) :
    (pure a : ExceptT ε (StateM σ) α).run.run s = (.ok a, s) := rfl

@[simp] theorem run_get (s : σ) :
    (get : ExceptT ε (StateM σ) σ).run.run s = (.ok s, s) := rfl

@[simp] theorem run_modify (f : σ → σ) (s : σ) :
    (modify f : ExceptT ε (StateM σ) PUnit).run.run s = (.ok ⟨⟩, f s) := rfl

/-- If each item takes a state that stands for the items before it to the one that stands for it,
    too, then a loop takes the first state to the one for all items. -/
theorem run_forM {f : α → ExceptT ε (StateM σ) PUnit} (state : List α → σ) (items done : List α)
    (h : ∀ before item after, items = before ++ item :: after →
      (f item).run.run (state (done ++ before)) = (.ok ⟨⟩, state (done ++ before ++ [item]))) :
    (items.forM f).run.run (state done) = (.ok ⟨⟩, state (done ++ items)) := by
  induction items generalizing done with
  | nil =>
    rw [List.append_nil]
    rfl
  | cons item rest ih =>
    -- after the first item the state stands for one more item done
    have hitem := h [] item rest rfl
    rw [List.append_nil] at hitem
    show (f item >>= fun _ => rest.forM f).run.run (state done) = _
    rw [run_bind_ok hitem, List.append_cons done item rest]
    refine ih (done ++ [item]) fun before x after hrest => ?_
    have hx := h (item :: before) x after (by simp [hrest])
    simpa using hx

/-! ### Which errors there are -/

/-- From whatever state the steps begin, their error has the property. -/
def FailsOnly (P : ε → Prop) (x : ExceptT ε (StateM σ) α) : Prop :=
  ∀ s e s', x.run.run s = (.error e, s') → P e

variable {P : ε → Prop}

theorem failsOnly_pure (a : α) : FailsOnly P (pure a : ExceptT ε (StateM σ) α) := by
  intro s e s' h
  cases h

theorem failsOnly_throw {e : ε} (he : P e) :
    FailsOnly P (throw e : ExceptT ε (StateM σ) α) := by
  intro s e' s' h
  cases h
  exact he

theorem failsOnly_bind {x : ExceptT ε (StateM σ) α} {f : α → ExceptT ε (StateM σ) β}
    (hx : FailsOnly P x) (hf : ∀ a, FailsOnly P (f a)) : FailsOnly P (x >>= f) := by
  intro s e s' h
  rcases hrun : x.run.run s with ⟨e' | a, t⟩
  -- the error is that of the first step
  · rw [run_bind_error hrun] at h
    cases h
    exact hx s e s' hrun
  -- the first step went well, so the error is that of the second one
  · rw [run_bind_ok hrun] at h
    exact hf a t e s' h

theorem failsOnly_forM {f : α → ExceptT ε (StateM σ) PUnit} {items : List α}
    (hf : ∀ item ∈ items, FailsOnly P (f item)) : FailsOnly P (items.forM f) := by
  induction items with
  | nil => exact failsOnly_pure PUnit.unit
  | cons item rest ih =>
    exact failsOnly_bind (hf item (by simp)) fun _ => ih fun x hx => hf x (by simp [hx])

/-! ### What is kept -/

/-- The state has the property after the steps if it had it before, even if the steps fail. -/
def Keeps (I : σ → Prop) (x : ExceptT ε (StateM σ) α) : Prop :=
  ∀ s, I s → I (x.run.run s).2

variable {I : σ → Prop}

theorem keeps_pure (a : α) : Keeps I (pure a : ExceptT ε (StateM σ) α) :=
  fun _ hs => hs

theorem keeps_throw (e : ε) : Keeps I (throw e : ExceptT ε (StateM σ) α) :=
  fun _ hs => hs

theorem keeps_bind {x : ExceptT ε (StateM σ) α} {f : α → ExceptT ε (StateM σ) β}
    (hx : Keeps I x) (hf : ∀ a, Keeps I (f a)) : Keeps I (x >>= f) := by
  intro s hs
  have hafter := hx s hs
  rcases hrun : x.run.run s with ⟨e | a, t⟩
  -- the second step does not run, or from where the first one ended
  · rw [run_bind_error hrun]
    rwa [hrun] at hafter
  · rw [run_bind_ok hrun]
    rw [hrun] at hafter
    exact hf a t hafter

theorem keeps_forM {f : α → ExceptT ε (StateM σ) PUnit} {items : List α}
    (hf : ∀ item ∈ items, Keeps I (f item)) : Keeps I (items.forM f) := by
  induction items with
  | nil => exact keeps_pure PUnit.unit
  | cons item rest ih =>
    exact keeps_bind (hf item (by simp)) fun _ => ih fun x hx => hf x (by simp [hx])

end Stateful

end Columnar
