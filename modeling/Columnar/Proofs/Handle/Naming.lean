import Columnar.Proofs.Handle.Calls
import Columnar.Proofs.Plan.Paths
import Columnar.Proofs.Row.Subjects

/-! # The columns that errors name

    Errors and capacity hints name columns by their paths.  If no field has a
    point in its name, the text of such a path stands for one operation of the
    plan, the one that the error or the hint is about (`paths_name_columns`). -/

namespace Columnar

variable {s : Specification}

/-- An append only fails with an error about something that the row presents. -/
theorem explained_of_append_error (hs : s.WellFormed) {h : WriterHandle} (hreach : h.Reachable s)
    {row : Record} {e : AppendError} (he : (h.append row).result = .error e) :
    Explained s.plan row e := by
  obtain ⟨rows, hholds⟩ := hreach.holds hs
  obtain rfl : h.specification = s := hreach.specification_eq
  have hmismatch := hholds.isMismatch_of_append_error hs he
  cases hstaged : (h.staging row).1 with
  | ok staged =>
    rw [hholds.append_of_staged hs hstaged] at he
    cases he
  | error e' =>
    obtain ⟨hresult, stopped, hstops, -⟩ := WriterHandle.calls_of_staging_error hstaged
    cases he.symm.trans hresult
    obtain ⟨before, last, after, hwalk, -, -, hfailure⟩ := hstops
    have hlast : last ∈ Operation.walkFields h.specification.plan row := by
      rw [hwalk]
      simp
    exact Operation.concerns_of_mem_walkFields _ (fun _ _ => .row) hlast hfailure hmismatch

/-- Appending many rows only fails with an error about something that one of them presents. -/
theorem explained_of_appendAll_error (hs : s.WellFormed) {h : WriterHandle}
    (hreach : h.Reachable s) {rows : List Record} {e : AppendError}
    (he : (h.appendAll rows).result = .error e) : ∃ row ∈ rows, Explained s.plan row e := by
  obtain ⟨before, row, after, rfl, -, hrow, -⟩ := WriterHandle.appendAll_error he
  have hreach' : (h.appendAll before).handle.Reachable s := hreach.step (.appendAll before)
  exact ⟨row, by simp, explained_of_append_error hs hreach' hrow⟩

/-- If operations have different paths, then an error's path is that of the operation it is about. -/
theorem Explained.names {row : Record} {e : AppendError} (h : Explained s.plan row e)
    (hnodup : (s.operations.map (·.2.path.text)).Nodup) :
    ∃ source op reading, Presents s.plan row source op reading ∧ e.Concerns op reading ∧
      s.Names e.path.text (source, op) := by
  obtain ⟨source, op, reading, hpresents, hconcerns⟩ := h
  refine ⟨source, op, reading, hpresents, hconcerns, ?_⟩
  rw [hconcerns.path_eq]
  exact filter_eq_singleton hnodup hpresents.mem_preorderFields

/-- For every catalog whose fields have no point in their names, whatever the name of its row type,
    the operations of its writer have paths of different texts.  The path in a hint is that of one
    operation, the one for its list, and the path in an error of any append is that of one
    operation, to which a row presents what the error is about. -/
theorem paths_name_columns {c : Catalog} {writerId : WriterId}
    (hbuild : Specification.build c writerId = .ok s)
    (hnames : ∀ d ∈ c.types, ∀ f ∈ d.fields, '.' ∉ f.name.toList) :
    (s.operations.map (·.2.path.text)).Nodup ∧
    (∀ hint ∈ s.hints, ∃ source element,
      s.Names hint.path.text (source, .list ⟨hint.list, hint.path⟩ element) ∧
      element.column = hint.element) ∧
    (∀ (h : WriterHandle) (row : Record) (e : AppendError), h.Reachable s →
      (h.append row).result = .error e →
      ∃ source op reading, Presents s.plan row source op reading ∧ e.Concerns op reading ∧
        s.Names e.path.text (source, op)) ∧
    ∀ (h : WriterHandle) (rows : List Record) (e : AppendError), h.Reachable s →
      (h.appendAll rows).result = .error e →
      ∃ row ∈ rows, ∃ source op reading, Presents s.plan row source op reading ∧
        e.Concerns op reading ∧ s.Names e.path.text (source, op) := by
  have hs := Specification.build_wellFormed hbuild
  obtain ⟨root, hcompile, hsynthesize⟩ := Specification.exists_of_build hbuild
  have hnodup := nodup_texts hcompile hnames hsynthesize
  refine ⟨hnodup, ?_, ?_, ?_⟩
  · intro hint hhint
    obtain ⟨source, element, hmem, helement⟩ := exists_of_hint_of_synthesize hsynthesize hhint
    exact ⟨source, element, filter_eq_singleton hnodup hmem, helement⟩
  · intro h row e hreach he
    exact (explained_of_append_error hs hreach he).names hnodup
  · intro h rows e hreach he
    obtain ⟨row, hrow, hexplained⟩ := explained_of_appendAll_error hs hreach he
    exact ⟨row, hrow, hexplained.names hnodup⟩

/-- The path of the hint for orders, and those of errors about a tag that is no text: in one row,
    and in the second of two rows. -/
theorem orders_named :
    (∀ d ∈ orders.types, ∀ f ∈ d.fields, '.' ∉ f.name.toList) ∧
    (ordersSpecification.operations.map (·.2.path.text)).Nodup ∧
    (∃ source element, ordersSpecification.Names "Order.tags"
      (source, .list ⟨4, ⟨"Order", ["tags"]⟩⟩ element) ∧ element.column = 5) ∧
    (ordersHandle.append (order 1 [.long 7])).result =
      .error (.typeMismatch ⟨"Order", ["tags", "element"]⟩ "string" "bigint") ∧
    (∃ source op reading,
      Presents ordersSpecification.plan (order 1 [.long 7]) source op reading ∧
      AppendError.Concerns (.typeMismatch ⟨"Order", ["tags", "element"]⟩ "string" "bigint")
        op reading ∧
      ordersSpecification.Names "Order.tags.element" (source, op)) ∧
    ∃ row ∈ [order 1 [], order 2 [.long 7]], ∃ source op reading,
      Presents ordersSpecification.plan row source op reading ∧
      AppendError.Concerns (.typeMismatch ⟨"Order", ["tags", "element"]⟩ "string" "bigint")
        op reading ∧
      ordersSpecification.Names "Order.tags.element" (source, op) := by
  have hnames : ∀ d ∈ orders.types, ∀ f ∈ d.fields, '.' ∉ f.name.toList := by decide +kernel
  have htags : (⟨"Order", ["tags"]⟩ : Path).text = "Order.tags" := by decide +kernel
  have helement : (⟨"Order", ["tags", "element"]⟩ : Path).text = "Order.tags.element" := by
    decide +kernel
  have hone : (ordersHandle.append (order 1 [.long 7])).result =
      .error (.typeMismatch ⟨"Order", ["tags", "element"]⟩ "string" "bigint") := by
    with_unfolding_all rfl
  have hmany : (ordersHandle.appendAll [order 1 [], order 2 [.long 7]]).result =
      .error (.typeMismatch ⟨"Order", ["tags", "element"]⟩ "string" "bigint") := by
    with_unfolding_all rfl
  obtain ⟨hnodup, hhints, happend, happendAll⟩ := paths_name_columns build_orders hnames
  have hhint := hhints ⟨4, 5, 1, ⟨"Order", ["tags"]⟩⟩ List.mem_cons_self
  have herror := happend ordersHandle _ _ (.create create_orders) hone
  have herror' := happendAll ordersHandle _ _ (.create create_orders) hmany
  rw [← htags, ← helement]
  exact ⟨hnames, hnodup, hhint, hone, herror, herror'⟩

end Columnar
