import Columnar.Cache.Basic

/-! # Slots of a cache

    What the two atomic steps on a cache do to its slots.  Opening a slot
    changes nothing that can be looked up; the only user of a slot finds what
    is installed there, or compiles, and then installs what came out of it or
    leaves the slot empty (`WriterCache.used_of_enter`).

    No type ever gets a second slot, so the installed specifications are as many
    as the types that have one (`WriterCache.size_eq_countP`). -/

namespace Columnar

/-! ### Kinds of lookups -/

namespace Lookup

def isHit : Lookup → Bool
  | .hit _ => true
  | _ => false

def isCompiled : Lookup → Bool
  | .compiled _ => true
  | _ => false

def isFailed : Lookup → Bool
  | .failed _ => true
  | _ => false

/-- Was there an attempt to compile? -/
def isAttempt (lookup : Lookup) : Bool := lookup.isCompiled || lookup.isFailed

/-- What was installed before. -/
def found? : Lookup → Option Specification
  | .hit s => some s
  | _ => none

end Lookup

namespace WriterCache

/-- The row types that have a slot. -/
def types (cache : WriterCache) : List RowType := cache.slots.map (·.1)

theorem lookup_isSome_iff {cache : WriterCache} {type : RowType} :
    (cache.slots.lookup type).isSome ↔ type ∈ cache.types := by
  rw [List.lookup_isSome_iff, types, List.mem_map]
  constructor
  · rintro ⟨e, he, heq⟩
    exact ⟨e, he, (beq_iff_eq.1 heq).symm⟩
  · rintro ⟨e, he, heq⟩
    exact ⟨e, he, beq_iff_eq.2 heq.symm⟩

/-- A type without a slot has nothing installed. -/
theorem mem_types_of_contains {cache : WriterCache} {type : RowType}
    (h : cache.contains type) : type ∈ cache.types := by
  rw [← lookup_isSome_iff]
  unfold contains installed? at h
  cases hl : cache.slots.lookup type with
  | none => simp [hl] at h
  | some o => rfl

/-! ### Opening -/

theorem mem_types_openSlot (cache : WriterCache) (type : RowType) :
    type ∈ (cache.openSlot type).types := by
  unfold openSlot
  split
  · next h => exact lookup_isSome_iff.1 h
  · simp [types]

theorem types_subset_openSlot (cache : WriterCache) (type : RowType) :
    cache.types ⊆ (cache.openSlot type).types := by
  unfold openSlot
  split
  · exact List.Subset.refl _
  · simp [types]

/-- A type that has a slot does not get another one. -/
theorem nodup_types_openSlot {cache : WriterCache} (h : cache.types.Nodup) (type : RowType) :
    (cache.openSlot type).types.Nodup := by
  unfold openSlot
  split
  · exact h
  · next hnone =>
    rw [lookup_isSome_iff] at hnone
    have happend : (cache.types ++ [type]).Nodup := by
      rw [List.nodup_append]
      refine ⟨h, by simp, fun t ht u hu => ?_⟩
      rw [List.mem_singleton.1 hu]
      exact fun heq => hnone (heq ▸ ht)
    simpa [types] using happend

@[simp] theorem installed?_openSlot (cache : WriterCache) (type other : RowType) :
    (cache.openSlot type).installed? other = cache.installed? other := by
  unfold openSlot
  split
  · rfl
  · unfold installed?
    rw [List.lookup_append]
    -- the new slot is empty
    cases cache.slots.lookup other with
    | some o => rfl
    | none =>
      simp only [List.lookup_cons, List.lookup_nil, Option.none_or]
      split <;> rfl

@[simp] theorem size_openSlot (cache : WriterCache) (type : RowType) :
    (cache.openSlot type).size = cache.size := by
  unfold openSlot
  split
  · rfl
  · simp [size]

@[simp] theorem stats_openSlot (cache : WriterCache) (type : RowType) :
    (cache.openSlot type).stats = cache.stats := by
  unfold openSlot
  split <;> rfl

/-! ### Installing -/

theorem lookup_map_snd (slots : List (RowType × Option Specification))
    (f : RowType → Option Specification → Option Specification) (type : RowType) :
    (slots.map fun e => (e.1, f e.1 e.2)).lookup type = (slots.lookup type).map (f type) := by
  induction slots with
  | nil => rfl
  | cons e rest ih =>
    obtain ⟨first, old⟩ := e
    simp only [List.map_cons, List.lookup_cons]
    by_cases heq : type = first
    · subst heq
      simp
    · rw [beq_false_of_ne heq, ih]

@[simp] theorem types_install (cache : WriterCache) (type : RowType) (s : Specification) :
    (cache.install type s).types = cache.types := by
  simp [types, install]

theorem installed?_install_self {cache : WriterCache} {type : RowType} (h : type ∈ cache.types)
    (s : Specification) : (cache.install type s).installed? type = some s := by
  obtain ⟨o, ho⟩ := Option.isSome_iff_exists.1 (lookup_isSome_iff.2 h)
  unfold installed? install
  rw [lookup_map_snd cache.slots (fun t old => if t = type then some s else old), ho]
  simp

theorem installed?_install_ne (cache : WriterCache) {type other : RowType} (hne : other ≠ type)
    (s : Specification) : (cache.install type s).installed? other = cache.installed? other := by
  unfold installed? install
  rw [lookup_map_snd cache.slots (fun t old => if t = type then some s else old)]
  cases cache.slots.lookup other with
  | none => rfl
  | some o => simp [hne]

/-- Whatever is installed afterwards was installed before, or is what was installed now. -/
theorem installed?_install_cases {cache : WriterCache} {type other : RowType}
    {s spec : Specification} (h : (cache.install type s).installed? other = some spec) :
    cache.installed? other = some spec ∨ spec = s := by
  unfold installed? install at h
  rw [lookup_map_snd cache.slots (fun t old => if t = type then some s else old)] at h
  unfold installed?
  cases hslot : cache.slots.lookup other with
  | none =>
    rw [hslot] at h
    cases h
  | some old =>
    rw [hslot] at h
    have hnew : (if other = type then some s else old) = some spec := h
    by_cases htype : other = type
    · rw [if_pos htype] at hnew
      cases hnew
      exact .inr rfl
    · rw [if_neg htype] at hnew
      exact .inl hnew

/-! ### Counting -/

theorem countP_slots (slots : List (RowType × Option Specification))
    (h : (slots.map (·.1)).Nodup) :
    slots.countP (·.2.isSome) =
      (slots.map (·.1)).countP fun type => (slots.lookup type).join.isSome := by
  induction slots with
  | nil => rfl
  | cons e rest ih =>
    obtain ⟨hnew, hrest⟩ := List.nodup_cons.1 h
    -- looking up another type does not meet with the first slot
    have hothers : ∀ type ∈ rest.map (·.1),
        ((e :: rest).lookup type).join.isSome ↔ (rest.lookup type).join.isSome := by
      intro type htype
      have hne : type ≠ e.1 := by
        intro heq
        rw [heq] at htype
        exact hnew htype
      rw [List.lookup_cons, beq_false_of_ne hne]
    have hself : ((e :: rest).lookup e.1).join = e.2 := by
      rw [List.lookup_cons, beq_self_eq_true]
      rfl
    rw [List.countP_cons, List.map_cons, List.countP_cons, hself, ih hrest,
      List.countP_congr hothers]

/-- The specifications are counted by the types that have one. -/
theorem size_eq_countP {cache : WriterCache} (h : cache.types.Nodup) :
    cache.size = cache.types.countP cache.contains :=
  countP_slots cache.slots h

/-- The types with a specification, each of them once. -/
theorem exists_installed_types {cache : WriterCache} (h : cache.types.Nodup) :
    ∃ installed : List RowType, installed.Nodup ∧
      (∀ type, type ∈ installed ↔ cache.contains type) ∧ installed.length = cache.size := by
  refine ⟨cache.types.filter cache.contains, h.filter _, fun type => ?_, ?_⟩
  · rw [List.mem_filter]
    exact ⟨fun hmem => hmem.2, fun hc => ⟨mem_types_of_contains hc, hc⟩⟩
  · rw [size_eq_countP h, List.countP_eq_length_filter]

theorem size_install {cache : WriterCache} (h : cache.types.Nodup) {type : RowType}
    (hmem : type ∈ cache.types) (hnone : cache.installed? type = none) (s : Specification) :
    (cache.install type s).size = cache.size + 1 := by
  have hnodup : (cache.install type s).types.Nodup := by rwa [types_install]
  obtain ⟨before, after, hsplit⟩ := List.append_of_mem hmem
  -- no other type is changed, and this one stands in the list once
  have hothers : ∀ other ≠ type,
      (cache.install type s).contains other ↔ cache.contains other := by
    intro other hne
    unfold contains
    rw [installed?_install_ne cache hne]
  have honce := h
  rw [hsplit, List.nodup_append, List.nodup_cons] at honce
  obtain ⟨-, ⟨hnotAfter, -⟩, hnotBefore⟩ := honce
  have hbefore := List.countP_congr fun t (ht : t ∈ before) =>
    hothers t (hnotBefore t ht type (by simp))
  have hafter := List.countP_congr fun t (ht : t ∈ after) =>
    hothers t fun heq => hnotAfter (heq ▸ ht)
  have hself : (cache.install type s).contains type = true := by
    simp [contains, installed?_install_self hmem]
  have hold : cache.contains type = false := by simp [contains, hnone]
  rw [size_eq_countP h, size_eq_countP hnodup, types_install, hsplit, List.countP_append,
    List.countP_append, List.countP_cons, List.countP_cons, hbefore, hafter, hself, hold]
  rfl

/-! ### The only user of a slot -/

/-- What is installed is found; for an empty slot there is a compilation with the next number, which
    is used up even if the compilation fails. -/
theorem enter_cases (cache : WriterCache) (type : RowType) (catalog : Catalog) (supply : Supply) :
    (∃ s, cache.installed? type = some s ∧
      cache.enter type catalog supply = (.hit s, cache.count (.hit s), supply)) ∨
    (∃ s, cache.installed? type = none ∧ Specification.build catalog supply.next = .ok s ∧
      cache.enter type catalog supply =
        (.compiled s, (cache.install type s).count (.compiled s), (supply.ask type).number.2)) ∨
    (∃ e, cache.installed? type = none ∧ Specification.build catalog supply.next = .error e ∧
      cache.enter type catalog supply =
        (.failed e, cache.count (.failed e), (supply.ask type).number.2)) := by
  unfold enter
  cases hi : cache.installed? type with
  | some s => exact .inl ⟨s, rfl, rfl⟩
  | none =>
    simp only [Supply.number, Supply.ask]
    cases hb : Specification.build catalog supply.next with
    | ok s => exact .inr (.inl ⟨s, trivial, rfl, rfl⟩)
    | error e => exact .inr (.inr ⟨e, trivial, rfl, rfl⟩)

/-- What the only user of a slot leaves behind, having met with `lookup`. -/
structure Used (cache : WriterCache) (type : RowType) (catalog : Catalog) (supply : Supply)
    (lookup : Lookup) (after : WriterCache) (supplied : Supply) : Prop where
  types : after.types = cache.types
  others : ∀ other, other ≠ type → after.installed? other = cache.installed? other
  found : cache.installed? type = lookup.found?
  installed : after.installed? type = lookup.result.toOption
  built : lookup.isAttempt → Specification.build catalog supply.next = lookup.result
  size : after.size = cache.size + if lookup.isCompiled then 1 else 0
  stats : after.stats = cache.stats.count lookup
  supplied : supplied = if lookup.isAttempt then (supply.ask type).number.2 else supply

/-- What is installed is found, and nothing is asked for; for an empty slot the row type is asked
    for its catalog, and what compiling it gives is installed, if it gives anything. -/
theorem used_of_enter {cache : WriterCache} {type : RowType} {catalog : Catalog}
    {supply : Supply} {lookup : Lookup} {after : WriterCache} {supplied : Supply}
    (hnodup : cache.types.Nodup) (hslot : type ∈ cache.types)
    (henter : cache.enter type catalog supply = (lookup, after, supplied)) :
    cache.Used type catalog supply lookup after supplied := by
  rcases cache.enter_cases type catalog supply with ⟨s, hi, heq⟩ | ⟨s, hi, hb, heq⟩ | ⟨e, hi, hb, heq⟩
  · cases heq.symm.trans henter
    exact ⟨rfl, fun _ _ => rfl, hi, hi, nofun, rfl, rfl, rfl⟩
  · cases heq.symm.trans henter
    exact ⟨types_install _ _ _, fun other hne => installed?_install_ne cache hne s, hi,
      installed?_install_self hslot s, fun _ => hb, size_install hnodup hslot hi s, rfl, rfl⟩
  · cases heq.symm.trans henter
    exact ⟨rfl, fun _ _ => rfl, hi, hi, fun _ => hb, rfl, rfl, rfl⟩

namespace Used

variable {cache after : WriterCache} {type : RowType} {catalog : Catalog}
  {supply supplied : Supply} {lookup : Lookup}

/-- What is installed stays. -/
theorem keeps (h : cache.Used type catalog supply lookup after supplied) {other : RowType}
    {s : Specification} (hs : cache.installed? other = some s) :
    after.installed? other = some s := by
  by_cases heq : other = type
  · subst heq
    rw [h.found] at hs
    rw [h.installed]
    -- only a hit met with something
    cases lookup <;> cases hs
    rfl
  · rw [h.others other heq, hs]

/-- Nothing gets installed but what was compiled from the answer of the row type. -/
theorem installed_cases (h : cache.Used type catalog supply lookup after supplied)
    {other : RowType} {s : Specification} (hs : after.installed? other = some s) :
    cache.installed? other = some s ∨
      (other = type ∧ Specification.build catalog supply.next = .ok s ∧
        supplied = (supply.ask type).number.2) := by
  by_cases heq : other = type
  · subst heq
    rw [h.installed] at hs
    cases lookup with
    | hit found =>
      cases hs
      exact .inl h.found
    | compiled found =>
      cases hs
      exact .inr ⟨rfl, h.built rfl, h.supplied⟩
    | failed e => cases hs
  · rw [h.others other heq] at hs
    exact .inl hs

/-- Compiling installs something where nothing was; nothing else changes what is there. -/
theorem contains_eq (h : cache.Used type catalog supply lookup after supplied)
    (other : RowType) : (if after.contains other then 1 else 0) =
      (if cache.contains other then 1 else 0) + if type == other && lookup.isCompiled then 1 else 0 := by
  unfold contains
  by_cases heq : other = type
  · subst heq
    rw [h.installed, h.found, beq_self_eq_true]
    cases lookup <;> rfl
  · rw [h.others other heq, beq_false_of_ne (Ne.symm heq)]
    rfl

theorem next_le (h : cache.Used type catalog supply lookup after supplied) :
    supply.next ≤ supplied.next := by
  rw [h.supplied]
  split
  · exact Nat.le_succ _
  · exact Nat.le_refl _

end Used

end WriterCache

end Columnar
