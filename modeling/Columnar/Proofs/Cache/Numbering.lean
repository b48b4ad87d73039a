import Columnar.Proofs.Cache.Interleaving
import Columnar.Proofs.Plan.Names

/-! # Writer numbers

    All caches take their writer numbers from one supply, and so does whoever
    asks for a number alone.  A run is any sequence of such requests and of
    steps of the calls on the caches: callers take turns in whatever order, and
    a row type may say something else each time it is asked.

    Every compilation uses up the next number, whether it succeeds or fails, and
    nothing else but a request does.  A name ends with the number behind a mark
    that is no digit, so names differ with the numbers whatever the types are
    called (`Specification.name_eq_iff`), and no two compilations of a run make
    specifications of one name. -/

namespace Columnar

/-! ### Caches with one supply -/

/-- The caches, each with the calls on it, and the supply that they share. -/
structure CacheGroup where
  supply : Supply
  members : List (WriterCache × List Call)

/-- Whose turn it is: somebody takes a writer number, or a call on a cache takes its next step; its
    row type would say what `catalog` says. -/
inductive Turn where
  | number
  | call (cache call : Nat) (catalog : Catalog)

/-- What a turn comes to.  A call comes to nothing as long as it is not through. -/
inductive TurnResult where
  | nothing
  | number (writerId : WriterId)
  | lookup (lookup : Lookup)

namespace CacheGroup

/-- New caches, and calls yet to be made on each of them. -/
def start (next : WriterId) (requests : List (List (RowType × Option WriterOptions))) :
    CacheGroup :=
  ⟨{ next }, requests.map fun calls =>
    ({}, calls.map fun request => { type := request.1, options := request.2 })⟩

/-- What a call met with, if it was not through before. -/
def newLookup? (before after : List Call) (i : Nat) : Option Lookup :=
  match before[i]?.bind Call.lookup? with
  | none => after[i]?.bind Call.lookup?
  | some _ => none

/-- A step on a cache of the group is a step of that cache with the supply of all. -/
def step (g : CacheGroup) : Turn → TurnResult × CacheGroup
  | .number =>
    let (writerId, supply) := g.supply.number
    (.number writerId, { g with supply })
  | .call k i catalog =>
    match g.members[k]? with
    | none => (.nothing, g)
    | some (cache, calls) =>
      let s := SharedCache.step ⟨cache, g.supply, calls⟩ i catalog
      ((newLookup? calls s.calls i).elim .nothing .lookup,
        ⟨s.supply, g.members.set k (s.cache, s.calls)⟩)

end CacheGroup

/-- A turn within a run. -/
structure TurnTaken where
  before : CacheGroup
  turn : Turn
  result : TurnResult
  after : CacheGroup

/-- The turns of a run one after the other. -/
def CacheGroup.trace (g : CacheGroup) : List Turn → List TurnTaken
  | [] => []
  | turn :: rest =>
    ⟨g, turn, (g.step turn).1, (g.step turn).2⟩ :: (g.step turn).2.trace rest

namespace TurnTaken

/-- The numbers that the supply gave out in the turn. -/
def numbers (t : TurnTaken) : List WriterId :=
  List.range' t.before.supply.next (t.after.supply.next - t.before.supply.next)

/-- The specification that was made in the turn. -/
def created? (t : TurnTaken) : Option Specification :=
  match t.result with
  | .lookup (.compiled s) => some s
  | _ => none

/-- The specification that a call returned in the turn. -/
def returned? (t : TurnTaken) : Option Specification :=
  match t.result with
  | .lookup lookup => lookup.result.toOption
  | _ => none

/-- One number for whoever asks and for each compilation, which bears it whether it succeeds or
    fails; none for a specification that is found. -/
inductive Accounted : TurnTaken → Prop where
  | nothing {t : TurnTaken} : t.result = .nothing → t.numbers = [] → Accounted t
  | number {t : TurnTaken} {writerId : WriterId} : t.result = .number writerId →
    t.numbers = [writerId] → Accounted t
  | hit {t : TurnTaken} {s : Specification} : t.result = .lookup (.hit s) → t.numbers = [] →
    Accounted t
  | compiled {t : TurnTaken} {k i : Nat} {catalog : Catalog} {s : Specification} :
    t.turn = .call k i catalog → t.result = .lookup (.compiled s) →
    Specification.build catalog s.writerId = .ok s → t.numbers = [s.writerId] → Accounted t
  | failed {t : TurnTaken} {k i : Nat} {catalog : Catalog} {e : BuildError} {writerId : WriterId} :
    t.turn = .call k i catalog → t.result = .lookup (.failed e) →
    Specification.build catalog writerId = .error e → t.numbers = [writerId] → Accounted t

end TurnTaken

/-! ### One turn -/

/-- The specification is installed in a cache of the group. -/
def CacheGroup.Has (g : CacheGroup) (s : Specification) : Prop :=
  ∃ member ∈ g.members, ∃ type, member.1.installed? type = some s

/-- A cache that takes the place of another one brings what is installed there. -/
theorem CacheGroup.has_of_set {supply supply' : Supply} {members : List (WriterCache × List Call)}
    {k : Nat} {member : WriterCache × List Call} {s : Specification}
    (h : Has ⟨supply', members.set k member⟩ s) :
    Has ⟨supply, members⟩ s ∨ ∃ type, member.1.installed? type = some s := by
  obtain ⟨other, hother, type, hs⟩ := h
  rcases List.mem_or_eq_of_mem_set hother with hold | rfl
  · exact .inl ⟨other, hold, type, hs⟩
  · exact .inr ⟨type, hs⟩

namespace TurnTaken

/-- What is true of every turn. -/
structure Sound (t : TurnTaken) : Prop where
  accounted : t.Accounted
  next_le : t.before.supply.next ≤ t.after.supply.next
  kept : ∀ s, t.after.Has s → t.before.Has s ∨ t.created? = some s
  found : ∀ s, t.returned? = some s → t.before.Has s ∨ t.created? = some s

theorem numbers_of_same {t : TurnTaken} (h : t.after.supply = t.before.supply) :
    t.numbers = [] := by
  unfold numbers
  rw [h, Nat.sub_self]
  rfl

theorem numbers_of_next {t : TurnTaken}
    (h : t.after.supply.next = t.before.supply.next + 1) :
    t.numbers = [t.before.supply.next] := by
  unfold numbers
  rw [h, Nat.add_sub_cancel_left]
  rfl

end TurnTaken

namespace CacheGroup

variable {g : CacheGroup}

theorem newLookup?_set {calls : List Call} {i : Nat} {call : Call} (hcall : calls[i]? = some call)
    (hnone : call.lookup? = none) (new : Call) :
    newLookup? calls (calls.set i new) i = new.lookup? := by
  have hi := (List.getElem?_eq_some_iff.1 hcall).1
  have hbefore : calls[i]?.bind Call.lookup? = none := by rw [hcall]; exact hnone
  unfold newLookup?
  rw [hbefore, List.getElem?_set_self hi]
  rfl

/-- A turn that comes to nothing and installs nothing. -/
theorem sound_of_nothing {turn : Turn} {members : List (WriterCache × List Call)}
    (hstep : g.step turn = (.nothing, ⟨g.supply, members⟩))
    (hkept : ∀ s, Has ⟨g.supply, members⟩ s → g.Has s) :
    TurnTaken.Sound ⟨g, turn, (g.step turn).1, (g.step turn).2⟩ := by
  rw [hstep]
  refine ⟨.nothing rfl (TurnTaken.numbers_of_same rfl), Nat.le_refl _, ?_, ?_⟩
  · intro s hs
    exact .inl (hkept s hs)
  · intro s hs
    cases hs

/-- A call that comes to use its slot finds something there, or compiles with the next number. -/
theorem sound_of_enter {k i : Nat} {catalog : Catalog} {cache after : WriterCache}
    {calls calls' : List Call} {type : RowType} {lookup : Lookup} {supply : Supply}
    (hmember : (cache, calls) ∈ g.members)
    (henter : cache.enter type catalog g.supply = (lookup, after, supply))
    (hstep : g.step (.call k i catalog) =
      (.lookup lookup, ⟨supply, g.members.set k (after, calls')⟩)) :
    TurnTaken.Sound ⟨g, .call k i catalog, (g.step (.call k i catalog)).1,
      (g.step (.call k i catalog)).2⟩ := by
  rw [hstep]
  have hold : ∀ other s, cache.installed? other = some s → g.Has s := by
    intro other s hs
    exact ⟨(cache, calls), hmember, other, hs⟩
  rcases cache.enter_cases type catalog g.supply with ⟨s, hs, heq⟩ | ⟨s, -, hbuild, heq⟩ |
    ⟨e, -, hbuild, heq⟩
  · -- what is found was installed before
    cases heq.symm.trans henter
    refine ⟨.hit rfl (TurnTaken.numbers_of_same rfl), Nat.le_refl _, ?_, ?_⟩
    · intro spec hspec
      rcases has_of_set hspec with hspec | ⟨other, hspec⟩
      · exact .inl hspec
      · exact .inl (hold other spec hspec)
    · intro spec hspec
      cases hspec
      exact .inl (hold type s hs)
  · cases heq.symm.trans henter
    have hnumber := Specification.writerId_of_build hbuild
    refine ⟨.compiled rfl rfl (hnumber ▸ hbuild) ?_, Nat.le_succ _, ?_, ?_⟩
    · rw [hnumber]
      exact TurnTaken.numbers_of_next rfl
    · intro spec hspec
      rcases has_of_set hspec with hspec | ⟨other, hspec⟩
      · exact .inl hspec
      · rcases WriterCache.installed?_install_cases hspec with hspec | rfl
        · exact .inl (hold other spec hspec)
        · exact .inr rfl
    · intro spec hspec
      cases hspec
      exact .inr rfl
  · cases heq.symm.trans henter
    refine ⟨.failed rfl rfl hbuild (TurnTaken.numbers_of_next rfl), Nat.le_succ _, ?_, ?_⟩
    · intro spec hspec
      rcases has_of_set hspec with hspec | ⟨other, hspec⟩
      · exact .inl hspec
      · exact .inl (hold other spec hspec)
    · intro spec hspec
      cases hspec

theorem sound_step (g : CacheGroup) (turn : Turn) :
    TurnTaken.Sound ⟨g, turn, (g.step turn).1, (g.step turn).2⟩ := by
  match turn with
  | .number =>
    refine ⟨.number rfl (TurnTaken.numbers_of_next rfl), Nat.le_succ _, ?_, ?_⟩
    · intro s hs
      exact .inl hs
    · intro s hs
      cases hs
  | .call k i catalog =>
    cases hmember : g.members[k]? with
    | none =>
      have hstep : g.step (.call k i catalog) = (.nothing, g) := by
        simp only [step, hmember]
      exact sound_of_nothing hstep fun s hs => hs
    | some member =>
      obtain ⟨cache, calls⟩ := member
      have hmem := List.mem_of_getElem? hmember
      rcases SharedCache.step_cases ⟨cache, g.supply, calls⟩ i catalog with hs |
        ⟨call, hcall, hphase, hs⟩ | ⟨call, lookup, after, supply, hcall, hphase, henter, hs⟩
      · -- there is no such call, or it is through
        have hnew : newLookup? calls calls i = none := by
          unfold newLookup?
          split
          · assumption
          · rfl
        have hstep : g.step (.call k i catalog) =
            (.nothing, ⟨g.supply, g.members.set k (cache, calls)⟩) := by
          simp only [step, hmember, hs, hnew, Option.elim_none]
        refine sound_of_nothing hstep fun s hspec => ?_
        rcases has_of_set hspec with hspec | ⟨other, hspec⟩
        · exact hspec
        · exact ⟨(cache, calls), hmem, other, hspec⟩
      · -- the call gets hold of its slot, which has nothing new
        have hnone : call.lookup? = none := Call.lookup?_eq_none (by simp [hphase])
        have hnew : newLookup? calls (calls.set i { call with phase := .holdingSlot }) i = none :=
          newLookup?_set hcall hnone _
        have hstep : g.step (.call k i catalog) = (.nothing, ⟨g.supply, g.members.set k
            (cache.openSlot call.type, calls.set i { call with phase := .holdingSlot })⟩) := by
          simp only [step, hmember, hs, hnew, Option.elim_none]
        refine sound_of_nothing hstep fun s hspec => ?_
        rcases has_of_set hspec with hspec | ⟨other, hspec⟩
        · exact hspec
        · rw [WriterCache.installed?_openSlot] at hspec
          exact ⟨(cache, calls), hmem, other, hspec⟩
      · have hnone : call.lookup? = none := Call.lookup?_eq_none (by simp [hphase])
        have hnew : newLookup? calls (calls.set i { call with phase := .returned lookup }) i =
            some lookup := newLookup?_set hcall hnone _
        have hstep : g.step (.call k i catalog) = (.lookup lookup, ⟨supply, g.members.set k
            (after, calls.set i { call with phase := .returned lookup })⟩) := by
          simp only [step, hmember, hs, hnew, Option.elim_some]
        exact sound_of_enter hmem henter hstep

/-! ### Runs -/

theorem sound_trace (g : CacheGroup) (turns : List Turn) : ∀ t ∈ g.trace turns, t.Sound := by
  induction turns generalizing g with
  | nil =>
    intro t ht
    cases ht
  | cons turn rest ih =>
    intro t ht
    rcases List.mem_cons.1 ht with rfl | ht
    · exact g.sound_step turn
    · exact ih (g.step turn).2 t ht

/-- The numbers of a run follow each other, from the next one of the supply on. -/
theorem numbers_trace (g : CacheGroup) (turns : List Turn) :
    ∃ count, (g.trace turns).flatMap TurnTaken.numbers = List.range' g.supply.next count := by
  induction turns generalizing g with
  | nil => exact ⟨0, rfl⟩
  | cons turn rest ih =>
    obtain ⟨count, hcount⟩ := ih (g.step turn).2
    have hle : g.supply.next ≤ (g.step turn).2.supply.next := (g.sound_step turn).next_le
    refine ⟨(g.step turn).2.supply.next - g.supply.next + count, ?_⟩
    have hfirst : g.supply.next + ((g.step turn).2.supply.next - g.supply.next) =
        (g.step turn).2.supply.next := Nat.add_sub_cancel' hle
    rw [trace, List.flatMap_cons, hcount, ← List.range'_append_1, hfirst]
    rfl

end CacheGroup

namespace TurnTaken

/-- What is compiled bears the one number of its turn. -/
theorem Sound.numbers_of_created {t : TurnTaken} (h : t.Sound) {s : Specification}
    (hs : t.created? = some s) : t.numbers = [s.writerId] := by
  unfold created? at hs
  cases h.accounted with
  | nothing hresult => simp [hresult] at hs
  | number hresult => simp [hresult] at hs
  | hit hresult => simp [hresult] at hs
  | failed _ hresult => simp [hresult] at hs
  | compiled _ hresult _ hnumbers =>
    simp only [hresult] at hs
    cases hs
    exact hnumbers

/-- The numbers of what is compiled in a run are among those given out, in the same order. -/
theorem sublist_numbers {run : List TurnTaken} (h : ∀ t ∈ run, t.Sound) :
    ((run.filterMap created?).map Specification.writerId).Sublist (run.flatMap numbers) := by
  induction run with
  | nil => exact .slnil
  | cons t rest ih =>
    have hrest := ih fun u hu => h u (List.mem_cons_of_mem _ hu)
    rw [List.flatMap_cons]
    cases hs : t.created? with
    | none =>
      rw [List.filterMap_cons_none hs]
      exact hrest.trans (List.sublist_append_right _ _)
    | some s =>
      have hnumbers := (h t List.mem_cons_self).numbers_of_created hs
      rw [List.filterMap_cons_some hs, List.map_cons, hnumbers]
      exact hrest.cons_cons _

end TurnTaken

/-- What is installed after a run, or returned within it, was compiled in the run unless it was
    installed before. -/
theorem CacheGroup.created_of_returned {g : CacheGroup} {turns : List Turn} {s : Specification}
    (hs : s ∈ (g.trace turns).filterMap TurnTaken.returned?) :
    g.Has s ∨ s ∈ (g.trace turns).filterMap TurnTaken.created? := by
  induction turns generalizing g with
  | nil => cases hs
  | cons turn rest ih =>
    obtain ⟨t, ht, hreturned⟩ := List.mem_filterMap.1 hs
    have hsound := g.sound_step turn
    have hnow : ∀ {spec}, TurnTaken.created? ⟨g, turn, (g.step turn).1, (g.step turn).2⟩ = some spec →
        spec ∈ (g.trace (turn :: rest)).filterMap TurnTaken.created? := by
      intro spec hspec
      exact List.mem_filterMap.2 ⟨_, List.mem_cons_self, hspec⟩
    rcases List.mem_cons.1 ht with rfl | ht
    · exact (hsound.found s hreturned).imp id hnow
    · rcases ih (List.mem_filterMap.2 ⟨t, ht, hreturned⟩) with hhas | hcreated
      · exact (hsound.kept s hhas).imp id hnow
      · obtain ⟨u, hu, hspec⟩ := List.mem_filterMap.1 hcreated
        exact .inr (List.mem_filterMap.2 ⟨u, List.mem_cons_of_mem _ hu, hspec⟩)

theorem CacheGroup.not_has_start (next : WriterId)
    (requests : List (List (RowType × Option WriterOptions))) (s : Specification) :
    ¬ (start next requests).Has s := by
  rintro ⟨member, hmember, type, hs⟩
  obtain ⟨calls, -, rfl⟩ := List.mem_map.1 hmember
  cases hs

/-- However requests for numbers and calls on any caches are interleaved: the numbers given out
    follow each other, so that none is given out twice; a compilation uses one, whether it succeeds
    or fails, and a specification that is found uses none; and whatever calls return was compiled
    in a turn of its own, under a name that no other turn gave. -/
theorem numbers_never_reused (next : WriterId)
    (requests : List (List (RowType × Option WriterOptions))) (turns : List Turn) :
    let run := (CacheGroup.start next requests).trace turns
    (∃ count, run.flatMap TurnTaken.numbers = List.range' next count) ∧
    (run.flatMap TurnTaken.numbers).Pairwise (· < ·) ∧
    (∀ t ∈ run, t.Accounted) ∧
    ((run.filterMap TurnTaken.created?).map Specification.name).Nodup ∧
    (∀ s ∈ run.filterMap TurnTaken.returned?, s ∈ run.filterMap TurnTaken.created?) := by
  intro run
  have hsound := (CacheGroup.start next requests).sound_trace turns
  obtain ⟨count, hcount⟩ := (CacheGroup.start next requests).numbers_trace turns
  have hascending : (run.flatMap TurnTaken.numbers).Pairwise (· < ·) := by
    rw [show run.flatMap TurnTaken.numbers = _ from hcount]
    exact List.pairwise_lt_range'
  refine ⟨⟨count, hcount⟩, hascending, fun t ht => (hsound t ht).accounted, ?_, ?_⟩
  · have hnumbers := hascending.sublist (TurnTaken.sublist_numbers hsound)
    rw [List.pairwise_map] at hnumbers
    unfold List.Nodup
    rw [List.pairwise_map]
    refine hnumbers.imp fun {s t} hlt hname => ?_
    exact Nat.ne_of_lt hlt (Specification.name_eq_iff.1 hname).2
  · intro s hs
    exact (CacheGroup.created_of_returned hs).resolve_left
      (CacheGroup.not_has_start next requests s)

end Columnar
