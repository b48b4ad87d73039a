import Columnar.Proofs.Cache.Interleaving

/-! # Shared specifications

    However the calls on a cache are interleaved, a row type is compiled with
    success at most once.  From then on its specification stays, nobody asks
    the type for its catalog again, and whoever gets to the slot finds the
    specification there (`SharedCache.Serves`).  As long as the slot is empty
    each user compiles anew and keeps a failure to itself
    (`SharedCache.CompilesAfresh`).  When no call is under way the counters
    account for all calls (`SharedCache.Balanced`). -/

namespace Columnar

namespace SharedCache

variable {s t : SharedCache} {type : RowType} {spec : Specification}

/-! ### Full slots -/

/-- Since `s` the specification has stayed, its type was not asked again, and the calls that got
    through found it. -/
structure Serves (s t : SharedCache) (type : RowType) (spec : Specification) : Prop where
  installed : t.cache.installed? type = some spec
  asked : t.supply.asked.count type = s.supply.asked.count type
  hit : ∀ (i : Nat) (call : Call), t.calls[i]? = some call → call.type = type → ∀ lookup,
    call.lookup? = some lookup → s.calls[i]?.bind Call.lookup? = some lookup ∨ lookup = .hit spec

theorem serves_self (h : s.cache.installed? type = some spec) : Serves s s type spec := by
  refine ⟨h, rfl, fun i call hcall _ lookup hlookup => .inl ?_⟩
  rw [hcall]
  exact hlookup

namespace Serves

theorem step (h : Serves s t type spec) (ht : t.Coherent) (j : Nat) (catalog : Catalog) :
    Serves s (t.step j catalog) type spec := by
  rcases step_cases t j catalog with hs | ⟨moved, hmoved, -, hs⟩ |
    ⟨moved, found, cache, supply, hmoved, hphase, henter, hs⟩
  · rwa [hs]
  · rw [hs]
    refine ⟨?_, h.asked, ?_⟩
    · rw [WriterCache.installed?_openSlot]
      exact h.installed
    · intro i call hcall htype lookup hlookup
      by_cases hij : i = j
      · -- the call holds its slot now, and met with nothing so far
        subst hij
        rw [List.getElem?_set_self (List.getElem?_eq_some_iff.1 hmoved).1] at hcall
        cases hcall
        cases hlookup
      · rw [List.getElem?_set_ne (Ne.symm hij)] at hcall
        exact h.hit i call hcall htype lookup hlookup
  · have hused := ht.used hmoved hphase henter
    -- a user of this slot finds the specification there
    have hhit : moved.type = type → found = .hit spec := by
      intro htype
      have hfound := hused.found
      rw [htype, h.installed] at hfound
      cases found <;> cases hfound
      rfl
    rw [hs]
    refine ⟨hused.keeps h.installed, ?_, ?_⟩
    · rw [← h.asked, hused.supplied]
      split
      · next hattempt =>
        have hne : moved.type ≠ type := by
          intro htype
          rw [hhit htype] at hattempt
          cases hattempt
        exact List.count_cons_of_ne hne
      · rfl
    · intro i call hcall htype lookup hlookup
      by_cases hij : i = j
      · subst hij
        rw [List.getElem?_set_self (List.getElem?_eq_some_iff.1 hmoved).1] at hcall
        cases hcall
        cases hlookup
        exact .inr (hhit htype)
      · rw [List.getElem?_set_ne (Ne.symm hij)] at hcall
        exact h.hit i call hcall htype lookup hlookup

theorem run (h : Serves s t type spec) (ht : t.Coherent) (more : List (Nat × Catalog)) :
    Serves s (t.run more) type spec := by
  induction more generalizing t with
  | nil => exact h
  | cons turn more ih => exact ih (h.step ht turn.1 turn.2) (ht.step turn.1 turn.2)

end Serves

/-- Everybody who was given something for the type shares this specification, which bears a number
    that no other type's has; handles are made for it. -/
structure Shared (s : SharedCache) (type : RowType) (spec : Specification) : Prop where
  only : ∀ call ∈ s.calls, call.type = type → ∀ lookup found, call.lookup? = some lookup →
    lookup.result = .ok found → found = spec
  handles : ∀ call ∈ s.calls, call.type = type → ∀ lookup o, call.lookup? = some lookup →
    lookup.result = .ok spec → call.options = some o →
    ∃ h, call.handle? = some (.ok h) ∧ h.specification = spec
  number : ∀ other spec', s.cache.installed? other = some spec' →
    spec'.writerId = spec.writerId → other = type

theorem Coherent.shared (h : s.Coherent) (hspec : s.cache.installed? type = some spec) :
    s.Shared type spec := by
  refine ⟨?_, ?_, fun other spec' hother heq => h.distinct other type spec' hother spec hspec heq⟩
  · intro call hcall htype lookup found hlookup hresult
    have hfound := h.found call hcall lookup found hlookup hresult
    rw [htype, hspec] at hfound
    exact (Option.some.inj hfound).symm
  · intro call hcall htype lookup o hlookup hresult ho
    obtain ⟨catalog, writerId, hbuild⟩ := h.built type spec hspec
    obtain ⟨handle, hcreate, hholds⟩ := (Specification.build_wellFormed hbuild).create o
    refine ⟨handle, ?_, hholds.specification⟩
    unfold Call.handle?
    rw [hlookup, ho]
    unfold Lookup.handle
    simp only [Option.bind_some, Option.map_some, hresult, hcreate]
    rfl

/-! ### Empty slots -/

/-- What the call makes of an empty slot: it asks for the catalog, and compiles it with a new
    number.  A failure is only its own, and leaves the slot empty. -/
structure CompilesAfresh (s : SharedCache) (i : Nat) (call : Call) (catalog : Catalog) : Prop where
  supply : (s.step i catalog).supply = ⟨s.supply.next + 1, call.type :: s.supply.asked⟩
  calls : ∀ j, j ≠ i → (s.step i catalog).calls[j]? = s.calls[j]?
  slots : ∀ other, other ≠ call.type →
    (s.step i catalog).cache.installed? other = s.cache.installed? other
  success : ∀ spec, Specification.build catalog s.supply.next = .ok spec →
    (s.step i catalog).calls[i]? = some { call with phase := .returned (.compiled spec) } ∧
      (s.step i catalog).cache.installed? call.type = some spec ∧
      (s.step i catalog).cache.size = s.cache.size + 1
  failure : ∀ e, Specification.build catalog s.supply.next = .error e →
    (s.step i catalog).calls[i]? = some { call with phase := .returned (.failed e) } ∧
      (s.step i catalog).cache.contains call.type = false ∧
      (s.step i catalog).cache.size = s.cache.size

theorem Coherent.compilesAfresh (h : s.Coherent) {i : Nat} {call : Call}
    (hcall : s.calls[i]? = some call) (hphase : call.phase = .holdingSlot)
    (hempty : s.cache.contains call.type = false) (catalog : Catalog) :
    s.CompilesAfresh i call catalog := by
  have hi := (List.getElem?_eq_some_iff.1 hcall).1
  have hnone : s.cache.installed? call.type = none := by
    simpa [WriterCache.contains] using hempty
  rcases henter : s.cache.enter call.type catalog s.supply with ⟨lookup, cache, supply⟩
  have hused := h.used hcall hphase henter
  have hstep : s.step i catalog =
      ⟨cache, supply, s.calls.set i { call with phase := .returned lookup }⟩ := by
    simp only [SharedCache.step, hcall, hphase, henter]
  have hattempt : lookup.isAttempt = true := by
    have hfound := hused.found
    rw [hnone] at hfound
    cases lookup with
    | hit found => cases hfound
    | compiled found => rfl
    | failed e => rfl
  have hbuilt := hused.built hattempt
  refine ⟨?_, fun j hj => getElem?_step_ne s hj catalog, ?_, ?_, ?_⟩
  · rw [hstep, hused.supplied, if_pos hattempt]
    rfl
  · intro other hne
    rw [hstep]
    exact hused.others other hne
  · intro spec hspec
    have hcompiled : lookup = .compiled spec := by
      rw [hspec] at hbuilt
      cases lookup <;> cases hbuilt
      · cases hattempt
      · rfl
    subst hcompiled
    rw [hstep]
    exact ⟨List.getElem?_set_self hi, hused.installed, hused.size⟩
  · intro e he
    have hfailed : lookup = .failed e := by
      rw [he] at hbuilt
      cases lookup <;> cases hbuilt
      rfl
    subst hfailed
    rw [hstep]
    refine ⟨List.getElem?_set_self hi, ?_, hused.size⟩
    rw [WriterCache.contains, hused.installed]
    rfl

/-! ### Quiet caches -/

/-- No call is under way. -/
def Quiet (s : SharedCache) : Prop := ∀ call ∈ s.calls, call.phase ≠ .holdingSlot

/-- The counters account for all calls made, installed specifications and catalogs asked for. -/
structure Balanced (s : SharedCache) : Prop where
  calls : s.cache.stats.hits + s.cache.stats.compilations + s.cache.stats.failures =
    s.calls.countP Call.isMade
  compilations : s.cache.stats.compilations = s.cache.size
  installed : ∃ types : List RowType, types.Nodup ∧
    (∀ type, type ∈ types ↔ s.cache.contains type) ∧ types.length = s.cache.size
  asked : s.supply.asked.length = s.cache.stats.compilations + s.cache.stats.failures

/-- Kinds of lookups that exclude each other are counted apart. -/
theorem tally_or (s : SharedCache) (types : RowType → Bool) {kind other : Lookup → Bool}
    (hapart : ∀ lookup, (kind lookup && other lookup) = false) :
    s.tally types (fun lookup => kind lookup || other lookup) =
      s.tally types kind + s.tally types other := by
  unfold tally
  induction s.calls with
  | nil => rfl
  | cons call calls ih =>
    rw [List.countP_cons, List.countP_cons, List.countP_cons, ih]
    cases hlookup : call.lookup? with
    | none => simp
    | some lookup =>
      have hlookup := hapart lookup
      cases types call.type <;> cases hk : kind lookup <;> cases ho : other lookup <;>
        simp [hk, ho] at hlookup ⊢ <;> omega

theorem Coherent.balanced (h : s.Coherent) (hquiet : s.Quiet) : s.Balanced := by
  have hattempts : s.tally (fun _ => true) Lookup.isAttempt =
      s.tally (fun _ => true) Lookup.isCompiled + s.tally (fun _ => true) Lookup.isFailed :=
    s.tally_or _ fun lookup => by cases lookup <;> rfl
  have hall : s.tally (fun _ => true) (fun lookup => lookup.isHit || lookup.isAttempt) =
      s.tally (fun _ => true) Lookup.isHit + s.tally (fun _ => true) Lookup.isAttempt :=
    s.tally_or _ fun lookup => by cases lookup <;> rfl
  have hmade : s.tally (fun _ => true) (fun lookup => lookup.isHit || lookup.isAttempt) =
      s.calls.countP Call.isMade := by
    refine List.countP_congr fun call hcall => ?_
    unfold Call.lookup? Call.isMade
    cases hphase : call.phase with
    | pending => simp
    | holdingSlot => exact absurd hphase (hquiet call hcall)
    | returned lookup => cases lookup <;> simp [Lookup.isHit, Lookup.isAttempt, Lookup.isCompiled,
        Lookup.isFailed]
  refine ⟨?_, h.size.symm, WriterCache.exists_installed_types h.nodup, ?_⟩
  · rw [h.hits, h.compilations, h.failures, ← hmade, hall, hattempts, Nat.add_assoc]
  · rw [h.compilations, h.failures, ← hattempts, ← h.asked, List.countP_true]

/-! ### Every run -/

/-- Whatever is asked for and whoever's turn it is: a call is through with its second turn, a type
    is compiled with success at most once and has its specification from then on, until then each
    user of its slot compiles anew, and when nobody is under way the counters account for all. -/
theorem compiles_once (next : WriterId) (requests : List (RowType × Option WriterOptions))
    (schedule : List (Nat × Catalog)) :
    let s := (start next requests).run schedule
    (s.calls.map Call.request = requests ∧
      ∀ (i : Nat) (call : Call), s.calls[i]? = some call → 2 ≤ schedule.countP (·.1 == i) → call.lookup?.isSome) ∧
    (∀ type, s.tally (· == type) Lookup.isCompiled = if s.cache.contains type then 1 else 0) ∧
    (∀ type spec, s.cache.installed? type = some spec →
      s.Shared type spec ∧ ∀ more, Serves s (s.run more) type spec) ∧
    (∀ (i : Nat) (call : Call), s.calls[i]? = some call → call.phase = .holdingSlot →
      s.cache.contains call.type = false → ∀ catalog, s.CompilesAfresh i call catalog) ∧
    (s.Quiet → s.Balanced) := by
  intro s
  have h : s.Coherent := (coherent_start next requests).run schedule
  refine ⟨⟨?_, ?_⟩, h.once, ?_, ?_, h.balanced⟩
  · rw [requests_run]
    simp [start, Call.request, Function.comp_def]
  · intro i call hcall hturns
    have hsteps := steps_run (start next requests) schedule i
    rw [hcall] at hsteps
    cases hnew : (start next requests).calls[i]? with
    | none =>
      rw [hnew] at hsteps
      cases hsteps
    | some new =>
      rw [hnew] at hsteps
      have heq : call.steps = min 2 (new.steps + schedule.countP (·.1 == i)) :=
        Option.some.inj hsteps
      exact Call.lookup?_isSome_of_steps (by omega)
  · intro type spec hspec
    exact ⟨h.shared hspec, fun more => (serves_self hspec).run h more⟩
  · intro i call hcall hphase hempty catalog
    exact h.compilesAfresh hcall hphase hempty catalog

/-- Two calls race for orders, and between them one fails for a type that describes nothing. -/
theorem orders_compiled_once :
    let s := (start 0 [(⟨"Order"⟩, none), (⟨"Order"⟩, some ⟨2, true⟩), (⟨"Void"⟩, none)]).run
      [(0, orders), (1, orders), (1, orders), (2, .empty "Void"), (2, .empty "Void"), (0, orders)]
    s.lookups = [.hit ordersSpecification, .compiled ordersSpecification,
      .failed (.schema (.unknownRootType "Void"))] ∧
    s.Balanced ∧ ∀ more, Serves s (s.run more) ⟨"Order"⟩ ordersSpecification := by
  intro s
  -- the second call compiles, all other turns can be computed
  have hcompiled : step ⟨⟨[(⟨"Order"⟩, none)], {}⟩, {}, [⟨⟨"Order"⟩, none, .holdingSlot⟩,
      ⟨⟨"Order"⟩, some ⟨2, true⟩, .holdingSlot⟩, ⟨⟨"Void"⟩, none, .pending⟩]⟩ 1 orders =
      ⟨⟨[(⟨"Order"⟩, some ordersSpecification)], ⟨1, 0, 0⟩⟩, ⟨1, [⟨"Order"⟩]⟩,
        [⟨⟨"Order"⟩, none, .holdingSlot⟩,
          ⟨⟨"Order"⟩, some ⟨2, true⟩, .returned (.compiled ordersSpecification)⟩,
          ⟨⟨"Void"⟩, none, .pending⟩]⟩ := by
    simp [step, WriterCache.enter, WriterCache.installed?, WriterCache.install, WriterCache.count,
      CacheStats.count, Supply.ask, Supply.number, build_orders]
  have hrun : s = ⟨⟨[(⟨"Order"⟩, some ordersSpecification), (⟨"Void"⟩, none)], ⟨1, 1, 1⟩⟩,
      ⟨2, [⟨"Void"⟩, ⟨"Order"⟩]⟩,
      [⟨⟨"Order"⟩, none, .returned (.hit ordersSpecification)⟩,
        ⟨⟨"Order"⟩, some ⟨2, true⟩, .returned (.compiled ordersSpecification)⟩,
        ⟨⟨"Void"⟩, none, .returned (.failed (.schema (.unknownRootType "Void")))⟩]⟩ := by
    show run (step _ 1 orders) _ = _
    refine (congrArg (fun t => run t _) hcompiled).trans ?_
    rfl
  obtain ⟨-, -, hfull, -, hbalanced⟩ := compiles_once 0
    [(⟨"Order"⟩, none), (⟨"Order"⟩, some ⟨2, true⟩), (⟨"Void"⟩, none)]
    [(0, orders), (1, orders), (1, orders), (2, .empty "Void"), (2, .empty "Void"), (0, orders)]
  refine ⟨by rw [hrun]; rfl, hbalanced ?_, (hfull ⟨"Order"⟩ ordersSpecification ?_).2⟩
  · show s.Quiet
    rw [hrun]
    simp [Quiet]
  · show s.cache.installed? _ = _
    rw [hrun]
    rfl

end SharedCache

end Columnar
