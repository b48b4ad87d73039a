import Columnar.Proofs.Handle.Invariant

/-! # Accepted rows

    A row is appended if it conforms, that is, if every accessor that has to be
    read can be and every value fits its column.  Otherwise the error is what is
    wrong first, when the plan is walked depth first.

    The one other error is that a list or map would outgrow the range of its
    offsets (`Holds.not_hasRoom`). -/

namespace Columnar

open Operation (ConformsFields violationsOfFields additionsOfFields)

/-- With the elements of the row no column has more than offsets can count. -/
def WriterHandle.HasRoom (h : WriterHandle) (row : Record) : Prop :=
  ∀ column, h.batch.slotCount column
    + (additionsOfFields h.specification.plan row).count column ≤ maxElements

namespace Holds

variable {s : Specification} {rows : List Record} {h : WriterHandle} {row : Record}

/-- A row fails for its size only if there is no room for it. -/
theorem not_hasRoom (hs : s.WellFormed) (hh : Holds s rows h) {path : Path} {limit : Nat}
    (he : (h.append row).result = .error (.capacityExceeded path limit)) :
    limit = maxElements ∧ ¬ h.HasRoom row := by
  rcases hh.append hs row with ⟨hok, -⟩ | ⟨e, he', -, hcause⟩
  · rw [hok] at he
    cases he
  · cases he'.symm.trans he
    -- a violation is never about size, so some column has no room
    rcases hcause with hhead | ⟨⟨path, hpath⟩, column, hover⟩
    · cases Operation.isViolation_of_mem_violationsOfFields (List.mem_of_head? hhead)
    · cases hpath
      refine ⟨rfl, fun hroom => ?_⟩
      have hfits := hroom column
      rw [hh.specification] at hfits
      omega

/-- Where there is room the result of appending depends on the row alone. -/
theorem append_of_hasRoom (hs : s.WellFormed) (hh : Holds s rows h) (hroom : h.HasRoom row) :
    ((h.append row).result = .ok () ∧ ConformsFields s.plan row) ∨
    (∃ e, (h.append row).result = .error e ∧ (violationsOfFields s.plan row).head? = some e) := by
  rcases hh.append hs row with ⟨hok, hh'⟩ | ⟨e, he, -, hhead | ⟨⟨path, rfl⟩, -⟩⟩
  · exact .inl ⟨hok, hh'.conforms row (by simp)⟩
  · exact .inr ⟨e, he, hhead⟩
  · exact absurd hroom (hh.not_hasRoom hs he).2

end Holds

/-- Exactly the conforming rows are appended, and of other rows the first violation is reported,
    with the path of the column in question. -/
theorem append_ok_iff_conforms {c : Catalog} {writerId : WriterId} {s : Specification}
    (hbuild : Specification.build c writerId = .ok s) {h : WriterHandle}
    (hreach : WriterHandle.Reachable s h) {row : Record} (hroom : h.HasRoom row) :
    ((h.append row).result = .ok () ↔ ConformsFields s.plan row) ∧
    (∀ e, (h.append row).result = .error e ↔
      (violationsOfFields s.plan row).head? = some e) ∧
    s.entries.map PlanEntry.target =
      Column.targetsOfFields ⟨s.root.name, []⟩ s.root.children := by
  have hs := Specification.build_wellFormed hbuild
  obtain ⟨rows, hh⟩ := hreach.holds hs
  have hnone := Operation.conformsFields_iff s.plan row
  refine ⟨?_, fun e => ?_, hs.plans.targets_entries 0⟩
  · rcases hh.append_of_hasRoom hs hroom with ⟨hok, hconf⟩ | ⟨e, he, hhead⟩
    · exact ⟨fun _ => hconf, fun _ => hok⟩
    · refine ⟨fun hok => ?_, fun hconf => ?_⟩
      · rw [hok] at he
        cases he
      · rw [hnone.1 hconf] at hhead
        cases hhead
  · rcases hh.append_of_hasRoom hs hroom with ⟨hok, hconf⟩ | ⟨e', he', hhead'⟩
    · rw [hok, hnone.1 hconf]
      simp
    · rw [he', hhead']
      simp

/-- Of an order with two wrong tags the first one is reported. -/
theorem orders_first_violation :
    ordersHandle.HasRoom (order 8 [.boolean true, .string "old", .long 1]) ∧
      (ordersHandle.append (order 8 [.boolean true, .string "old", .long 1])).result =
        .error (.typeMismatch ⟨"Order", ["tags", "element"]⟩ "string" "boolean") := by
  have hroom : ordersHandle.HasRoom (order 8 [.boolean true, .string "old", .long 1]) := by
    intro column
    have hempty : ordersHandle.batch.slotCount column = 0 := by
      match column with
      | 0 | 1 | 2 | 3 | 4 | 5 => rfl
      | n + 6 => rfl
    rw [hempty]
    exact Nat.le_trans (Nat.add_le_add_left List.count_le_length 0) (by decide)
  obtain ⟨-, herror, -⟩ := append_ok_iff_conforms build_orders (.create create_orders) hroom
  exact ⟨hroom, (herror _).2 rfl⟩

end Columnar
