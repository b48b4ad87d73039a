import Columnar.Json.Reader
import Columnar.Json.Printer
import Columnar.Proofs.Text.Separated
import Mathlib.Data.List.TakeWhile

/-! # Integers in JSON

    An integer of up to 64 bits is read back from its digits
    (`word?_toString`).  What takes an argument is that such an integer is in
    the range of numbers, which is told from doubles. -/

namespace Columnar.Json

open Text (hexDigit? valueInBase toDigits_all_isDigit toList_toString)

/-! ### Digits -/

/-- A digit counts the same as hexadecimal one. -/
theorem hexDigit?_of_isDigit {c : Char} (hc : c.isDigit = true) :
    hexDigit? c = some (c.toNat - '0'.toNat) := by
  have hrange : '0' ≤ c ∧ c ≤ '9' := by
    simpa [Char.isDigit, Char.le_def] using hc
  exact if_pos hrange

/-- Digits behind a coefficient. -/
def digitsBehind (coefficient : Nat) (ds : List Char) : Nat :=
  ds.foldl (fun n d => n * 10 + (hexDigit? d).getD 0) coefficient

theorem le_digitsBehind (coefficient : Nat) (ds : List Char) :
    coefficient ≤ digitsBehind coefficient ds := by
  induction ds generalizing coefficient with
  | nil => exact Nat.le_refl _
  | cons d rest ih =>
    have hstep : coefficient ≤ coefficient * 10 + (hexDigit? d).getD 0 := by omega
    exact Nat.le_trans hstep (ih _)

/-- The digits of a number stand for it. -/
theorem digitsBehind_toDigits (n : Nat) : digitsBehind 0 (Nat.toDigits 10 n) = n := by
  have hsame : ∀ (ds : List Char) (k : Nat), (∀ d ∈ ds, d.isDigit = true) →
      digitsBehind k ds = Nat.ofDigitChars 10 ds k := by
    intro ds
    induction ds with
    | nil => intro k _; rfl
    | cons d rest ih =>
      intro k hds
      have hd := hexDigit?_of_isDigit (hds d (by simp))
      have hrest := ih (k * 10 + (hexDigit? d).getD 0) fun x hx => hds x (by simp [hx])
      rw [hd, Option.getD_some, Nat.mul_comm k 10] at hrest
      show digitsBehind (k * 10 + (hexDigit? d).getD 0) rest = _
      rw [hd, Option.getD_some, Nat.mul_comm k 10, hrest]
      rfl
  rw [hsame _ 0 fun d hd => Nat.isDigit_of_mem_toDigits (by decide) (by decide) hd]
  exact Nat.ofDigitChars_toDigits (by decide) (by decide)

/-- Only zero is written with a zero in front. -/
theorem head?_toDigits {n : Nat} (hn : n ≠ 0) : (Nat.toDigits 10 n).head? ≠ some '0' := by
  induction n using Nat.strongRecOn with
  | ind n ih =>
    rw [Nat.toDigits_eq_if (by decide)]
    split
    · next hlt =>
      have hdigit : ∀ k < 10, k ≠ 0 → k.digitChar ≠ '0' := by decide
      simpa using hdigit n hlt hn
    · next hle =>
      have hhead := ih (n / 10) (by omega) (by omega)
      obtain ⟨d, rest, hdigits⟩ := List.exists_cons_of_ne_nil
        (Nat.toDigits_ne_nil (n := n / 10) (b := 10))
      rw [hdigits] at hhead ⊢
      exact hhead

/-! ### The range -/

theorem takeDigits_eq {coefficient : Nat} {ds : List Char}
    (h : digitsBehind coefficient ds ≤ maxCoefficient) :
    takeDigits coefficient ds = (digitsBehind coefficient ds, []) := by
  induction ds generalizing coefficient with
  | nil => rfl
  | cons d rest ih =>
    have hnext := Nat.le_trans (le_digitsBehind _ rest) h
    rw [takeDigits, if_pos hnext]
    exact ih h

/-- Rounding makes a number at most twice as great. -/
theorem nearest_le {n : Nat} (hn : n ≠ 0) : Double.nearest n ≤ 2 * n := by
  have hunit : 1 <<< (Nat.log2 n - 52) ≤ n := by
    rw [Nat.shiftLeft_eq, Nat.one_mul]
    exact Nat.le_trans (Nat.pow_le_pow_right (by decide) (Nat.sub_le _ _)) (Nat.log2_self_le hn)
  unfold Double.nearest
  simp only
  generalize 1 <<< (Nat.log2 n - 52) = unit at hunit
  have hquotient : n / unit * unit ≤ n := Nat.div_mul_le_self n unit
  split
  · rw [Nat.add_mul, Nat.one_mul]
    omega
  · omega

/-- A coefficient without an exponent is in range. -/
theorem inRange_of_le {n : Nat} (h : n ≤ maxCoefficient) : Magnitude.inRange ⟨n, 0⟩ = true := by
  by_cases hn : n = 0
  · simp [Magnitude.inRange, hn]
  · have hone : Double.nearest (Nat.pow 10 0) = 1 := by decide +kernel
    have hoverflow : 2 * maxCoefficient < Double.overflow := by decide +kernel
    have hnearest := nearest_le hn
    have hlt : Double.nearest n * Double.nearest (Nat.pow 10 0) < Double.overflow := by
      rw [hone, Nat.mul_one]
      omega
    unfold Magnitude.inRange
    rw [if_neg (by simpa using hn), if_neg (by simp)]
    exact decide_eq_true hlt

/-! ### Reading -/

section Reading

variable {n : Nat}

theorem ofDigits_toDigits (h : n ≤ maxCoefficient) :
    Magnitude.ofDigits (Nat.toDigits 10 n) [] 0 = ⟨n, 0⟩ := by
  have hfits : digitsBehind 0 (Nat.toDigits 10 n) ≤ maxCoefficient := by
    rwa [digitsBehind_toDigits]
  have htake := takeDigits_eq hfits
  rw [digitsBehind_toDigits] at htake
  simp [Magnitude.ofDigits, htake, takeDigits]

/-- An integer is read from its sign and its digits. -/
theorem number?_of_digits (negative : Bool) (h : n ≤ maxCoefficient) (hzero : negative → n ≠ 0) :
    number? (if negative then '-' :: Nat.toDigits 10 n else Nat.toDigits 10 n) =
      some (.integer (if negative then -n else n)) := by
  have hdigits := toDigits_all_isDigit n
  have hne : Nat.toDigits 10 n ≠ [] := Nat.toDigits_ne_nil
  have htake := List.takeWhile_eq_self_iff.2 hdigits
  have hdrop := List.dropWhile_eq_nil_iff.2 hdigits
  have hvalue : valueInBase 10 (Nat.toDigits 10 n) = n := digitsBehind_toDigits n
  -- a zero in front would have nothing behind it
  have hfront : ((Nat.toDigits 10 n).isEmpty || ((Nat.toDigits 10 n).head? == some '0' &&
      (Nat.toDigits 10 n).length > 1)) = false := by
    by_cases hn : n = 0
    · subst hn
      rfl
    · have hhead := head?_toDigits hn
      simp [hne, hhead]
  have hinteger : (negative && decide (n = 0)) = false := by
    cases negative with
    | true => simpa using hzero rfl
    | false => rfl
  have hfraction : fractionAndExponent? [] = some ([], 0) := rfl
  unfold number?
  split
  next sign unsigned hsplit =>
    have hsign : (sign, unsigned) = (negative, Nat.toDigits 10 n) := by
      rw [← hsplit]
      cases negative with
      | true => rfl
      | false =>
        obtain ⟨d, rest, hd⟩ := List.exists_cons_of_ne_nil hne
        have hminus : d ≠ '-' := by
          rintro rfl
          have hdigit := hdigits '-' (by simp [hd])
          exact absurd hdigit (by decide)
        simp [hd, hminus]
    cases hsign
    simp only [htake, hdrop, hfront, hfraction, hvalue, hinteger, Option.map_some,
      ofDigits_toDigits h, inRange_of_le h]
    rfl

/-- The three words that are no numbers begin with a letter. -/
theorem word?_eq_number? {c : Char} {rest : List Char} (hc : c.isDigit = true ∨ c = '-') :
    word? (c :: rest) = number? (c :: rest) := by
  have hletter : c ≠ 'n' ∧ c ≠ 't' ∧ c ≠ 'f' := by
    refine ⟨?_, ?_, ?_⟩ <;> (rintro rfl; revert hc; decide)
  obtain ⟨hn, ht, hf⟩ := hletter
  simp [word?, hn, ht, hf]

theorem exists_cons_toString (n : Int) :
    ∃ c rest, (toString n).toList = c :: rest ∧ (c.isDigit = true ∨ c = '-') := by
  rw [toList_toString]
  split
  · exact ⟨'-', _, rfl, .inr rfl⟩
  · obtain ⟨d, rest, hd⟩ := List.exists_cons_of_ne_nil
      (Nat.toDigits_ne_nil (n := n.natAbs) (b := 10))
    exact ⟨d, rest, hd, .inl (toDigits_all_isDigit n.natAbs d (by simp [hd]))⟩

/-- An integer of 64 bits is read back from its text. -/
theorem word?_toString {n : Int} (h : n.natAbs ≤ maxCoefficient) :
    word? (toString n).toList = some (.integer n) := by
  obtain ⟨c, rest, hn, hc⟩ := exists_cons_toString n
  rw [hn, word?_eq_number? hc, ← hn, toList_toString]
  by_cases hneg : n < 0
  · have habs : -(n.natAbs : Int) = n := by omega
    have hnumber : number? ('-' :: Nat.toDigits 10 n.natAbs) = some (.integer (-n.natAbs)) :=
      number?_of_digits true h fun _ => by omega
    rw [if_pos hneg, hnumber, habs]
  · have habs : (n.natAbs : Int) = n := by omega
    have hnumber : number? (Nat.toDigits 10 n.natAbs) = some (.integer n.natAbs) :=
      number?_of_digits false h (by simp)
    rw [if_neg hneg, hnumber, habs]

end Reading

end Columnar.Json
