import Mathlib.Algebra.Group.Int.Defs
import Mathlib.Algebra.Group.Nat.Defs
import Columnar.Proofs.Calendar
import Columnar.Proofs.Schema.Expansion
import Columnar.Proofs.Schema.Subtree
import Columnar.Row.Scalar

/-! # Exact conversions

    Dates, timestamps and decimals are stored as numbers in words of a fixed
    size: days in 32 bits, microseconds in 64, unscaled decimals in 128.  The
    numbers are those of the calendar and of the value itself, since none of the
    ranges is left, neither by a result nor on the way to it. -/

namespace Columnar

/-! ### Dates and timestamps -/

theorem convert_date (path : Path) (d : Date) : ∃ days : Int32,
    convert path .date (.date d) = .ok (.date32 days) ∧ days.toInt = d.epochDay := by
  refine ⟨Int32.ofInt d.epochDay, rfl, ?_⟩
  have hday := d.dayNumber_mem
  rw [Date.epochDay_eq]
  apply Int32.toInt_ofInt_of_le
  · omega
  · omega

theorem convert_timestamp (path : Path) (t : Timestamp) : ∃ micros : Int64,
    convert path .timestamp (.timestamp t) = .ok (.timestampMicros micros) ∧
      micros.toInt = t.epochMicros := by
  refine ⟨Int64.ofInt t.epochMicros, rfl, ?_⟩
  have hseconds := t.epochSeconds_mem
  have hnanos := t.nanos_lt
  rw [Timestamp.epochMicros_eq]
  apply Int64.toInt_ofInt_of_le
  · omega
  · omega

/-! ### Decimals -/

/-- A decimal is kept as it is if it has no more digits than its column, and refused otherwise. -/
theorem convert_decimal_eq_ok_iff {path : Path} {precision : UInt8} {scale : Int8} {n : Int}
    {s : Scalar} : convert path (.decimal precision scale) (.decimal n) = .ok s ↔
      s = .decimal128 n ∧ n.natAbs < 10 ^ precision.toNat := by
  show (if n.natAbs < 10 ^ precision.toNat then Except.ok (Scalar.decimal128 n)
    else .error (AppendError.decimalOverflow path n precision)) = .ok s ↔ _
  by_cases hfits : n.natAbs < 10 ^ precision.toNat
  · rw [if_pos hfits]
    constructor
    · intro h
      cases h
      exact ⟨rfl, hfits⟩
    · rintro ⟨rfl, -⟩
      rfl
  · rw [if_neg hfits]
    constructor
    · intro h
      cases h
    · rintro ⟨-, hlt⟩
      exact absurd hlt hfits

/-- The columns of a compiled tree have kinds that are possible. -/
theorem valid_of_compile {c : Catalog} {root : Column} (h : compile c = .ok root)
    {head : ColumnHead} {kind : PrimitiveKind} (hmem : .primitive head kind ∈ root.preorder) :
    kind.Valid := by
  obtain ⟨-, -, hregular⟩ := compile_regular h
  exact hregular.of_mem_preorder hmem

/-- The limit of a decimal column is a number of 128 bits. -/
theorem pow_precision_lt {precision : UInt8} {scale : Int8}
    (h : (PrimitiveKind.decimal precision scale).Valid) : 10 ^ precision.toNat < 2 ^ 128 := by
  have hvalid : validDecimal precision scale = true := h
  unfold validDecimal at hvalid
  have hle : precision.toNat ≤ 38 := by
    simp only [Bool.and_eq_true, decide_eq_true_eq] at hvalid
    exact UInt8.le_iff_toNat_le.1 hvalid.1.1.2
  calc 10 ^ precision.toNat ≤ 10 ^ 38 := Nat.pow_le_pow_right (by decide) hle
    _ < 2 ^ 128 := by decide

/-! ### All three -/

/-- What is stored for dates counts the days of the calendar from 1970-01-01; what is stored for
    timestamps is the last microsecond that has begun, and its whole seconds do not leave the range
    on the way; what is stored for decimals is the value, if it is below the limit of the column. -/
theorem conversions_exact :
    (∀ d : Date, -2 ^ 31 ≤ d.dayNumber ∧ d.dayNumber < 2 ^ 31 ∧
      ∀ path, ∃ days : Int32, convert path .date (.date d) = .ok (.date32 days) ∧
        days.toInt = d.epochDay ∧ d.epochDay = d.dayNumber - 719163) ∧
    (∀ d : Date, d.year = 1970 → d.month = 1 → d.day = 1 → d.epochDay = 0) ∧
    (∀ d e : Date, d.next? = some e → d.Before e ∧ e.epochDay = d.epochDay + 1) ∧
    (∀ d : Date, d.next? = none ↔ d.year = maxYear ∧ d.month = 12 ∧ d.day = 31) ∧
    (∀ d e : Date, (d.Before e ↔ d.epochDay < e.epochDay) ∧ (d.epochDay = e.epochDay ↔ d = e)) ∧
    (∀ t : Timestamp,
      -2 ^ 63 ≤ t.epochSeconds * 1000000 ∧ t.epochSeconds * 1000000 < 2 ^ 63 ∧
      ∀ path, ∃ micros : Int64,
        convert path .timestamp (.timestamp t) = .ok (.timestampMicros micros) ∧
        micros.toInt = t.epochSeconds * 1000000 + (t.nanos / 1000 : Nat) ∧
        micros.toInt * 1000 ≤ t.epochNanos ∧ t.epochNanos < (micros.toInt + 1) * 1000) ∧
    (∀ t u : Timestamp, t.nanos < 1000000000 → u.nanos < 1000000000 → t.NotAfter u →
      ∀ path, ∃ m n : Int64,
        convert path .timestamp (.timestamp t) = .ok (.timestampMicros m) ∧
        convert path .timestamp (.timestamp u) = .ok (.timestampMicros n) ∧ m.toInt ≤ n.toInt) ∧
    ∀ c root, compile c = .ok root → ∀ head precision scale,
      .primitive head (.decimal precision scale) ∈ root.preorder →
      10 ^ precision.toNat < 2 ^ 128 ∧
      ∀ n : Int, -2 ^ 127 ≤ n → n < 2 ^ 127 → n.natAbs < 2 ^ 128 ∧
        ∀ path s, convert path (.decimal precision scale) (.decimal n) = .ok s ↔
          s = .decimal128 n ∧ n.natAbs < 10 ^ precision.toNat := by
  refine ⟨fun d => ?_, fun d hyear hmonth hday => ?_, fun d e h => ?_,
    fun d => Date.next?_eq_none_iff, fun d e => ⟨Date.before_iff, Date.epochDay_inj⟩, fun t => ?_,
    fun t u ht hu h path => ?_, ?_⟩
  · have hday := d.dayNumber_mem
    refine ⟨by omega, by omega, fun path => ?_⟩
    obtain ⟨days, hdays, heq⟩ := convert_date path d
    exact ⟨days, hdays, heq, d.epochDay_eq⟩
  · unfold Date.epochDay
    rw [hyear, hmonth, hday]
    rfl
  · have hday := Date.epochDay_of_next? h
    refine ⟨Date.before_iff.2 ?_, hday⟩
    omega
  · have hseconds := t.epochSeconds_mem
    refine ⟨by omega, by omega, fun path => ?_⟩
    obtain ⟨micros, hmicros, heq⟩ := convert_timestamp path t
    refine ⟨micros, hmicros, heq.trans t.epochMicros_eq, ?_⟩
    rw [heq]
    exact t.epochMicros_floor
  · obtain ⟨m, hm, hmicros⟩ := convert_timestamp path t
    obtain ⟨n, hn, hmicros'⟩ := convert_timestamp path u
    refine ⟨m, n, hm, hn, ?_⟩
    rw [hmicros, hmicros']
    exact Timestamp.epochMicros_le ht h
  · intro c root hcompile head precision scale hmem
    refine ⟨pow_precision_lt (valid_of_compile hcompile hmem), fun n hlow hhigh => ?_⟩
    exact ⟨by omega, fun path s => convert_decimal_eq_ok_iff⟩

/-- Payments with an amount of the most digits. -/
def payments : Catalog :=
  .ofList "Payment" [
    { name := "Payment", fields := [{ name := "amount", type := .primitive "decimal" }] }]

def paymentsRoot : Column :=
  .struct ⟨0, "Payment", none⟩ "Payment" [.primitive ⟨1, "amount", "amount"⟩ (.decimal 38 10)]

theorem compile_payments : compile payments = .ok paymentsRoot := by
  have hpayment : payments.describe "Payment" = some
      { name := "Payment", fields := [{ name := "amount", type := .primitive "decimal" }] } := by
    decide +kernel
  have hroot : payments.root = "Payment" := by decide +kernel
  have hdecimal : KindTag.parse? "decimal" = some .decimal := by decide +kernel
  unfold compile
  rw [hroot, hpayment]
  refine expandStruct_eq_ok (by simp) hpayment ?_
  apply expandFields_cons_eq_ok (by simp)
  · exact expandType_decimal_eq_ok (TypeRef.tag_of_parse? hdecimal rfl) (by decide)
  · exact expandFields_nil_eq_ok

/-- The last instant before 1970, and the first one of it. -/
def eve : Timestamp :=
  ⟨⟨1969, 12, 31, by decide, by decide⟩, 23, 59, 59, 999999999, by decide, by decide, by decide,
    by decide⟩

def newYear : Timestamp :=
  ⟨⟨1970, 1, 1, by decide, by decide⟩, 0, 0, 0, 0, by decide, by decide, by decide, by decide⟩

/-- In a year that is divisible by 100 the last of February is the 28th; the last microsecond before
    1970 is number -1; and the least number of 128 bits has too many digits for any column. -/
theorem payments_conversions :
    (∃ d e, Date.ofCivil? 1900 2 28 = some d ∧ Date.ofCivil? 1900 3 1 = some e ∧
      d.next? = some e ∧ e.epochDay = d.epochDay + 1) ∧
    (eve.NotAfter newYear ∧ ∀ path, ∃ m n : Int64,
      convert path .timestamp (.timestamp eve) = .ok (.timestampMicros m) ∧
      convert path .timestamp (.timestamp newYear) = .ok (.timestampMicros n) ∧
      m.toInt ≤ n.toInt ∧ m.toInt = -1) ∧
    compile payments = .ok paymentsRoot ∧
    ∀ path s, convert path (.decimal 38 10) (.decimal (-2 ^ 127)) ≠ .ok s := by
  obtain ⟨-, -, hnext, -, -, hmicros, hordered, hdecimal⟩ := conversions_exact
  refine ⟨⟨⟨1900, 2, 28, by decide, by decide⟩, ⟨1900, 3, 1, by decide, by decide⟩, rfl, rfl, rfl,
    (hnext _ _ rfl).2⟩, ?_, compile_payments, fun path s hs => ?_⟩
  · have hnotAfter : eve.NotAfter newYear := .inl (.inl (by decide))
    refine ⟨hnotAfter, fun path => ?_⟩
    obtain ⟨m, n, hm, hn, hle⟩ := hordered eve newYear (by decide) (by decide) hnotAfter path
    refine ⟨m, n, hm, hn, hle, ?_⟩
    -- the microsecond that is stored is the one with the last nanosecond
    obtain ⟨-, -, hstored⟩ := hmicros eve
    obtain ⟨m', hm', -, hlow, hhigh⟩ := hstored path
    have heq : m = m' := Scalar.timestampMicros.inj (Except.ok.inj (hm.symm.trans hm'))
    have hnanos : eve.epochNanos = -1 := rfl
    rw [hnanos, ← heq] at hlow hhigh
    omega
  · have hmem : .primitive ⟨1, "amount", "amount"⟩ (.decimal 38 10) ∈ paymentsRoot.preorder := by
      simp [paymentsRoot, Column.preorder, Column.preorderChildren]
    obtain ⟨-, hexact⟩ := hdecimal payments paymentsRoot compile_payments _ 38 10 hmem
    obtain ⟨-, hiff⟩ := hexact (-2 ^ 127) (by decide) (by decide)
    exact absurd ((hiff path s).1 hs).2 (by decide)

end Columnar
