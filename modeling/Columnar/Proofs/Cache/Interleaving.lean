import Columnar.Cache.Concurrent
import Columnar.Proofs.Cache.Slots
import Columnar.Proofs.Handle.Invariant

/-! # Callers that take turns

    Any number of calls use a new cache at once, for whatever row types, and
    take their two steps in whatever order; a row type may say something else
    each time it is asked.  `SharedCache.Coherent` ties the slots, the counters
    and the catalogs asked for to what the calls met with.  It survives every
    step, so it holds after every run. -/

namespace Columnar

/-! ### Calls -/

namespace Call

/-- Has the call taken its first step? -/
def isMade (call : Call) : Bool :=
  match call.phase with
  | .pending => false
  | _ => true

/-- How many steps the call has taken. -/
def steps (call : Call) : Nat :=
  match call.phase with
  | .pending => 0
  | .holdingSlot => 1
  | .returned _ => 2

/-- What was asked for. -/
def request (call : Call) : RowType × Option WriterOptions := (call.type, call.options)

theorem lookup?_eq_none {call : Call} (h : ∀ lookup, call.phase ≠ .returned lookup) :
    call.lookup? = none := by
  unfold lookup?
  split
  · next lookup hphase => exact absurd hphase (h lookup)
  · rfl

theorem min_steps (call : Call) : min 2 (call.steps + 0) = call.steps := by
  unfold steps
  split <;> rfl

theorem lookup?_isSome_of_steps {call : Call} (h : call.steps = 2) : call.lookup?.isSome := by
  unfold steps at h
  unfold lookup?
  split at h
  · cases h
  · cases h
  · next hphase =>
    rw [hphase]
    rfl

end Call

namespace SharedCache

/-- A new cache, and calls yet to be made. -/
def start (next : WriterId) (requests : List (RowType × Option WriterOptions)) : SharedCache :=
  ⟨{}, { next }, requests.map fun request => { type := request.1, options := request.2 }⟩

/-- How many calls for such row types met with such a thing. -/
def tally (s : SharedCache) (types : RowType → Bool) (kind : Lookup → Bool) : Nat :=
  s.calls.countP fun call => types call.type && call.lookup?.any kind

/-! ### Steps -/

variable {s : SharedCache}

/-- A step opens a slot, uses one, or is none at all. -/
theorem step_cases (s : SharedCache) (i : Nat) (catalog : Catalog) :
    s.step i catalog = s ∨
    (∃ call, s.calls[i]? = some call ∧ call.phase = .pending ∧
      s.step i catalog = ⟨s.cache.openSlot call.type, s.supply,
        s.calls.set i { call with phase := .holdingSlot }⟩) ∨
    (∃ call lookup cache supply, s.calls[i]? = some call ∧ call.phase = .holdingSlot ∧
      s.cache.enter call.type catalog s.supply = (lookup, cache, supply) ∧
      s.step i catalog = ⟨cache, supply, s.calls.set i { call with phase := .returned lookup }⟩) := by
  unfold step
  cases hcall : s.calls[i]? with
  | none => exact .inl rfl
  | some call =>
    cases hphase : call.phase with
    | pending => exact .inr (.inl ⟨call, rfl, hphase, by simp only [hphase]⟩)
    | holdingSlot =>
      rcases henter : s.cache.enter call.type catalog s.supply with ⟨lookup, cache, supply⟩
      exact .inr (.inr ⟨call, lookup, cache, supply, rfl, hphase, henter, by
        simp only [hphase, henter]⟩)
    | returned lookup =>
      left
      simp only [hphase]

/-- Only the call whose turn it is moves. -/
theorem getElem?_step_ne (s : SharedCache) {i j : Nat} (h : j ≠ i) (catalog : Catalog) :
    (s.step i catalog).calls[j]? = s.calls[j]? := by
  rcases step_cases s i catalog with hs | ⟨call, -, -, hs⟩ | ⟨call, lookup, cache, supply, -, -, -, hs⟩
  · rw [hs]
  · rw [hs, List.getElem?_set_ne (Ne.symm h)]
  · rw [hs, List.getElem?_set_ne (Ne.symm h)]

/-- A turn is a step, unless the call is through already. -/
theorem steps_step (s : SharedCache) (i j : Nat) (catalog : Catalog) :
    (s.step i catalog).calls[j]?.map Call.steps =
      s.calls[j]?.map fun call => min 2 (call.steps + if i = j then 1 else 0) := by
  by_cases hij : i = j
  · subst hij
    unfold step
    cases hcall : s.calls[i]? with
    | none => rw [hcall, Option.map_none, Option.map_none]
    | some call =>
      have hi := (List.getElem?_eq_some_iff.1 hcall).1
      cases hphase : call.phase with
      | pending => simp [hphase, hi, Call.steps]
      | holdingSlot => simp [hphase, hi, Call.steps]
      | returned lookup => simp [hphase, hcall, Call.steps]
  · rw [getElem?_step_ne s (Ne.symm hij), if_neg hij]
    simp only [Call.min_steps]

theorem requests_step (s : SharedCache) (i : Nat) (catalog : Catalog) :
    (s.step i catalog).calls.map Call.request = s.calls.map Call.request := by
  have hset : ∀ (call new : Call), s.calls[i]? = some call → new.request = call.request →
      (s.calls.set i new).map Call.request = s.calls.map Call.request := by
    intro call new hcall hnew
    obtain ⟨hi, hget⟩ := List.getElem?_eq_some_iff.1 hcall
    rw [List.map_set, hnew, ← hget, ← List.getElem_map Call.request (h := by simpa using hi),
      List.set_getElem_self]
  rcases step_cases s i catalog with hs | ⟨call, hcall, -, hs⟩ |
    ⟨call, lookup, cache, supply, hcall, -, -, hs⟩
  · rw [hs]
  · rw [hs]
    exact hset call _ hcall rfl
  · rw [hs]
    exact hset call _ hcall rfl

/-- Changing the call at a place that did not count adds what the new one counts for. -/
theorem countP_set {p : Call → Bool} {calls : List Call} {i : Nat} {call : Call}
    (hcall : calls[i]? = some call) (hold : p call = false) (new : Call) :
    (calls.set i new).countP p = calls.countP p + if p new then 1 else 0 := by
  obtain ⟨hi, hget⟩ := List.getElem?_eq_some_iff.1 hcall
  rw [List.countP_set hi, hget, hold]
  rfl

/-- Opening a slot is nothing that a call has met with. -/
theorem tally_opened {i : Nat} {call : Call} (hcall : s.calls[i]? = some call)
    (hphase : call.phase = .pending) (types : RowType → Bool) (kind : Lookup → Bool)
    {cache : WriterCache} {supply : Supply} :
    tally ⟨cache, supply, s.calls.set i { call with phase := .holdingSlot }⟩ types kind =
      s.tally types kind := by
  have hnone : call.lookup? = none := Call.lookup?_eq_none (by simp [hphase])
  unfold tally
  rw [countP_set hcall (by simp [hnone])]
  simp [Call.lookup?]

theorem tally_returned {i : Nat} {call : Call} (hcall : s.calls[i]? = some call)
    (hphase : call.phase = .holdingSlot) (lookup : Lookup) (types : RowType → Bool)
    (kind : Lookup → Bool) {cache : WriterCache} {supply : Supply} :
    tally ⟨cache, supply, s.calls.set i { call with phase := .returned lookup }⟩ types kind =
      s.tally types kind + if types call.type && kind lookup then 1 else 0 := by
  have hnone : call.lookup? = none := Call.lookup?_eq_none (by simp [hphase])
  unfold tally
  rw [countP_set hcall (by simp [hnone])]
  simp [Call.lookup?]

/-! ### The invariant -/

/-- Slots, counters and questions are what the calls met with. -/
structure Coherent (s : SharedCache) : Prop where
  nodup : s.cache.types.Nodup
  opened : ∀ call ∈ s.calls, call.phase = .holdingSlot → call.type ∈ s.cache.types
  found : ∀ call ∈ s.calls, ∀ lookup spec, call.lookup? = some lookup →
    lookup.result = .ok spec → s.cache.installed? call.type = some spec
  built : ∀ type spec, s.cache.installed? type = some spec →
    ∃ catalog writerId, Specification.build catalog writerId = .ok spec
  once : ∀ type, s.tally (· == type) Lookup.isCompiled = if s.cache.contains type then 1 else 0
  hits : s.cache.stats.hits = s.tally (fun _ => true) Lookup.isHit
  compilations : s.cache.stats.compilations = s.tally (fun _ => true) Lookup.isCompiled
  failures : s.cache.stats.failures = s.tally (fun _ => true) Lookup.isFailed
  size : s.cache.size = s.cache.stats.compilations
  asked : ∀ types, s.supply.asked.countP types = s.tally types Lookup.isAttempt
  numbered : ∀ type spec, s.cache.installed? type = some spec → spec.writerId < s.supply.next
  distinct : ∀ type other spec, s.cache.installed? type = some spec →
    ∀ spec', s.cache.installed? other = some spec' → spec.writerId = spec'.writerId → type = other

theorem coherent_start (next : WriterId) (requests : List (RowType × Option WriterOptions)) :
    (start next requests).Coherent := by
  have hcalls : ∀ call ∈ (start next requests).calls, call.phase = .pending := by
    intro call hcall
    obtain ⟨request, -, rfl⟩ := List.mem_map.1 hcall
    rfl
  have htally : ∀ types kind, (start next requests).tally types kind = 0 := by
    intro types kind
    unfold tally
    rw [List.countP_eq_zero]
    intro call hcall
    simp [Call.lookup?, hcalls call hcall]
  refine ⟨List.nodup_nil, ?_, ?_, ?_, ?_, ?_, ?_, ?_, rfl, ?_, nofun, nofun⟩
  · intro call hcall hphase
    rw [hcalls call hcall] at hphase
    cases hphase
  · intro call hcall lookup spec hlookup
    simp [Call.lookup?, hcalls call hcall] at hlookup
  · intro type spec hspec
    cases hspec
  · intro type
    rw [htally]
    rfl
  · rw [htally]
    rfl
  · rw [htally]
    rfl
  · rw [htally]
    rfl
  · intro types
    rw [htally]
    rfl

namespace Coherent

variable {i : Nat} {call : Call}

/-- A call gets hold of its slot. -/
theorem opens (h : s.Coherent) (hcall : s.calls[i]? = some call) (hphase : call.phase = .pending) :
    Coherent ⟨s.cache.openSlot call.type, s.supply,
      s.calls.set i { call with phase := .holdingSlot }⟩ := by
  have htally : ∀ types kind, tally ⟨s.cache.openSlot call.type, s.supply,
      s.calls.set i { call with phase := .holdingSlot }⟩ types kind = s.tally types kind :=
    fun types kind => tally_opened hcall hphase types kind
  refine ⟨WriterCache.nodup_types_openSlot h.nodup _, ?_, ?_, ?_, ?_, ?_, ?_, ?_, ?_, ?_, ?_, ?_⟩
  · intro other hother hholding
    rcases List.mem_or_eq_of_mem_set hother with hother | rfl
    · exact WriterCache.types_subset_openSlot _ _ (h.opened other hother hholding)
    · exact WriterCache.mem_types_openSlot _ _
  · intro other hother lookup spec hlookup hresult
    rw [WriterCache.installed?_openSlot]
    rcases List.mem_or_eq_of_mem_set hother with hother | rfl
    · exact h.found other hother lookup spec hlookup hresult
    · cases hlookup
  · intro type spec hspec
    rw [WriterCache.installed?_openSlot] at hspec
    exact h.built type spec hspec
  · intro type
    rw [htally, h.once, WriterCache.contains, WriterCache.contains,
      WriterCache.installed?_openSlot]
  · rw [htally, ← h.hits, WriterCache.stats_openSlot]
  · rw [htally, ← h.compilations, WriterCache.stats_openSlot]
  · rw [htally, ← h.failures, WriterCache.stats_openSlot]
  · rw [WriterCache.size_openSlot, h.size, WriterCache.stats_openSlot]
  · intro types
    rw [htally, ← h.asked]
  · intro type spec hspec
    rw [WriterCache.installed?_openSlot] at hspec
    exact h.numbered type spec hspec
  · intro type other spec hspec spec' hspec'
    rw [WriterCache.installed?_openSlot] at hspec hspec'
    exact h.distinct type other spec hspec spec' hspec'

/-- The only user of a slot finds something there, or compiles. -/
theorem used (h : s.Coherent) (hcall : s.calls[i]? = some call) (hphase : call.phase = .holdingSlot)
    {catalog : Catalog} {lookup : Lookup} {cache : WriterCache} {supply : Supply}
    (henter : s.cache.enter call.type catalog s.supply = (lookup, cache, supply)) :
    s.cache.Used call.type catalog s.supply lookup cache supply :=
  WriterCache.used_of_enter h.nodup (h.opened call (List.mem_of_getElem? hcall) hphase) henter

/-- A call is through with its slot. -/
theorem returns (h : s.Coherent) (hcall : s.calls[i]? = some call)
    (hphase : call.phase = .holdingSlot) {catalog : Catalog} {lookup : Lookup}
    {cache : WriterCache} {supply : Supply}
    (henter : s.cache.enter call.type catalog s.supply = (lookup, cache, supply)) :
    Coherent ⟨cache, supply, s.calls.set i { call with phase := .returned lookup }⟩ := by
  have hused := h.used hcall hphase henter
  have htally : ∀ types kind, tally ⟨cache, supply,
      s.calls.set i { call with phase := .returned lookup }⟩ types kind =
        s.tally types kind + if types call.type && kind lookup then 1 else 0 :=
    fun types kind => tally_returned hcall hphase lookup types kind
  refine ⟨?_, ?_, ?_, ?_, ?_, ?_, ?_, ?_, ?_, ?_, ?_, ?_⟩
  · rw [hused.types]
    exact h.nodup
  · intro other hother hholding
    rw [hused.types]
    rcases List.mem_or_eq_of_mem_set hother with hother | rfl
    · exact h.opened other hother hholding
    · cases hholding
  · intro other hother found spec hfound hresult
    rcases List.mem_or_eq_of_mem_set hother with hother | rfl
    · exact hused.keeps (h.found other hother found spec hfound hresult)
    · cases hfound
      rw [hused.installed, hresult]
      rfl
  · intro type spec hspec
    rcases hused.installed_cases hspec with hold | ⟨-, hbuild, -⟩
    · exact h.built type spec hold
    · exact ⟨catalog, s.supply.next, hbuild⟩
  · intro type
    rw [htally, h.once, ← hused.contains_eq type]
  · rw [htally, ← h.hits, hused.stats]
    cases lookup <;> rfl
  · rw [htally, ← h.compilations, hused.stats]
    cases lookup <;> rfl
  · rw [htally, ← h.failures, hused.stats]
    cases lookup <;> rfl
  · rw [hused.size, h.size, hused.stats]
    cases lookup <;> rfl
  · intro types
    rw [htally, ← h.asked, hused.supplied]
    cases hattempt : lookup.isAttempt with
    | false => simp
    | true => simp [Supply.ask, Supply.number, List.countP_cons]
  · intro type spec hspec
    rcases hused.installed_cases hspec with hold | ⟨-, hbuild, hsupplied⟩
    · exact Nat.lt_of_lt_of_le (h.numbered type spec hold) hused.next_le
    · rw [Specification.writerId_of_build hbuild, hsupplied]
      exact Nat.lt_succ_self _
  · intro type other spec hspec spec' hspec' heq
    -- what is new bears a number that nothing old has
    rcases hused.installed_cases hspec with hold | ⟨rfl, hbuild, -⟩
    · rcases hused.installed_cases hspec' with hold' | ⟨-, hbuild', -⟩
      · exact h.distinct type other spec hold spec' hold' heq
      · have hlt := h.numbered type spec hold
        rw [heq, Specification.writerId_of_build hbuild'] at hlt
        exact absurd hlt (Nat.lt_irrefl _)
    · rcases hused.installed_cases hspec' with hold' | ⟨rfl, -, -⟩
      · have hlt := h.numbered other spec' hold'
        rw [← heq, Specification.writerId_of_build hbuild] at hlt
        exact absurd hlt (Nat.lt_irrefl _)
      · rfl

theorem step (h : s.Coherent) (i : Nat) (catalog : Catalog) : (s.step i catalog).Coherent := by
  rcases step_cases s i catalog with hs | ⟨call, hcall, hphase, hs⟩ |
    ⟨call, lookup, cache, supply, hcall, hphase, henter, hs⟩
  · rwa [hs]
  · rw [hs]
    exact h.opens hcall hphase
  · rw [hs]
    exact h.returns hcall hphase henter

theorem run (h : s.Coherent) (schedule : List (Nat × Catalog)) : (s.run schedule).Coherent := by
  induction schedule generalizing s with
  | nil => exact h
  | cons turn schedule ih => exact ih (h.step turn.1 turn.2)

end Coherent

/-! ### Runs -/

theorem requests_run (s : SharedCache) (schedule : List (Nat × Catalog)) :
    (s.run schedule).calls.map Call.request = s.calls.map Call.request := by
  induction schedule generalizing s with
  | nil => rfl
  | cons turn schedule ih => exact (ih _).trans (requests_step s turn.1 turn.2)

/-- With its second turn a call is through, whatever the others do. -/
theorem steps_run (s : SharedCache) (schedule : List (Nat × Catalog)) (j : Nat) :
    (s.run schedule).calls[j]?.map Call.steps =
      s.calls[j]?.map fun call => min 2 (call.steps + schedule.countP (·.1 == j)) := by
  induction schedule generalizing s with
  | nil =>
    simp only [List.countP_nil, Call.min_steps]
    rfl
  | cons turn schedule ih =>
    refine (ih (s.step turn.1 turn.2)).trans ?_
    have hstep := congrArg (Option.map fun n => min 2 (n + schedule.countP (·.1 == j)))
      (steps_step s turn.1 j turn.2)
    rw [Option.map_map, Option.map_map] at hstep
    refine hstep.trans (congrArg (fun f => Option.map f s.calls[j]?) (funext fun call => ?_))
    rw [List.countP_cons]
    simp only [Function.comp, beq_iff_eq]
    split <;> omega

end SharedCache

end Columnar
