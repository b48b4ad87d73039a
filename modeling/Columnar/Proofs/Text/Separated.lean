import Mathlib.Data.List.TakeWhile

/-! # Separated texts

    Many texts are parts one after the other with a character in between that
    none of the parts has.  Such a text can be taken apart again, so its parts
    are determined by the text: words by the blanks behind them, lines by
    their ends, a number by the last character before it that is no digit. -/

namespace Columnar.Text

/-! ### Numbers -/

theorem toDigits_all_isDigit (n : Nat) : ∀ c ∈ Nat.toDigits 10 n, c.isDigit = true :=
  fun _ hc => Nat.isDigit_of_mem_toDigits (by decide) (by decide) hc

theorem toDigits_inj {m n : Nat} (h : Nat.toDigits 10 m = Nat.toDigits 10 n) : m = n := by
  have hvalue := congrArg (fun ds => Nat.ofDigitChars 10 ds 0) h
  simpa only [Nat.ofDigitChars_ten_toDigits] using hvalue

/-- The text of an integer is a sign and digits. -/
theorem toList_toString (n : Int) :
    (toString n).toList =
      if n < 0 then '-' :: Nat.toDigits 10 n.natAbs else Nat.toDigits 10 n.natAbs := by
  cases n with
  | ofNat m =>
    show (Nat.repr m).toList = _
    rw [Nat.repr, String.toList_ofList, if_neg (by simp)]
    rfl
  | negSucc m =>
    show ("-" ++ Nat.repr (m + 1)).toList = _
    rw [String.toList_append, Nat.repr, String.toList_ofList, String.toList_ofList,
      if_pos (Int.negSucc_lt_zero m)]
    rfl

theorem toString_inj {m n : Int} (h : toString m = toString n) : m = n := by
  -- digits have no sign in front
  have hsign : ∀ k l : Nat, '-' :: Nat.toDigits 10 k ≠ Nat.toDigits 10 l := by
    intro k l heq
    have hminus := toDigits_all_isDigit l '-' (heq ▸ List.mem_cons_self)
    exact absurd hminus (by decide)
  have hlist := congrArg String.toList h
  rw [toList_toString, toList_toString] at hlist
  by_cases hm : m < 0 <;> by_cases hn : n < 0
  · rw [if_pos hm, if_pos hn] at hlist
    have habs := toDigits_inj (List.tail_eq_of_cons_eq hlist)
    omega
  · rw [if_pos hm, if_neg hn] at hlist
    exact absurd hlist (hsign _ _)
  · rw [if_neg hm, if_pos hn] at hlist
    exact absurd hlist.symm (hsign _ _)
  · rw [if_neg hm, if_neg hn] at hlist
    have habs := toDigits_inj hlist
    omega

theorem not_mem_toDigits {n : Nat} {c : Char} (hc : c.isDigit = false) :
    c ∉ Nat.toDigits 10 n := by
  intro h
  rw [toDigits_all_isDigit n c h] at hc
  cases hc

theorem not_mem_repr {n : Nat} {c : Char} (hc : c.isDigit = false) : c ∉ n.repr.toList := by
  rw [Nat.toList_repr]
  exact not_mem_toDigits hc

theorem of_mem_toString {n : Int} {c : Char} (h : c ∈ (toString n).toList) :
    c = '-' ∨ c.isDigit = true := by
  have hdigits := toDigits_all_isDigit n.natAbs c
  rw [toList_toString] at h
  split at h
  · exact (List.mem_cons.1 h).imp_right hdigits
  · exact .inr (hdigits h)

theorem not_mem_toString {n : Int} {c : Char} (hminus : c ≠ '-') (hdigit : c.isDigit = false) :
    c ∉ (toString n).toList := by
  intro h
  rcases of_mem_toString h with heq | hc
  · exact hminus heq
  · rw [hc] at hdigit
    cases hdigit

/-! ### Words -/

section Words

variable {c : Char} {xs ys rest rest' : List Char}

/-- A word is told from what stands behind it by a character in between that it does not have. -/
theorem append_cons_inj (hxs : c ∉ xs) (hys : c ∉ ys) (h : xs ++ c :: rest = ys ++ c :: rest') :
    xs = ys ∧ rest = rest' := by
  induction xs generalizing ys with
  | nil =>
    cases ys with
    | nil => exact ⟨rfl, List.tail_eq_of_cons_eq h⟩
    | cons y ys =>
      have hy : c = y := List.head_eq_of_cons_eq h
      exact absurd (by simp [hy]) hys
  | cons x xs ih =>
    cases ys with
    | nil =>
      have hx : x = c := List.head_eq_of_cons_eq h
      exact absurd (by simp [hx]) hxs
    | cons y ys =>
      rw [List.mem_cons, not_or] at hxs hys
      obtain ⟨hxy, htail⟩ := List.cons.inj h
      obtain ⟨hwords, hrest⟩ := ih hxs.2 hys.2 htail
      exact ⟨by rw [hxy, hwords], hrest⟩

/-- A run of digits is told from what stands before it by a character in between that is no
    digit. -/
theorem append_digits_inj {ds es : List Char} (hc : c.isDigit = false)
    (hds : ∀ d ∈ ds, d.isDigit = true) (hes : ∀ d ∈ es, d.isDigit = true)
    (h : xs ++ c :: ds = ys ++ c :: es) : xs = ys ∧ ds = es := by
  have hnot : ∀ fs : List Char, (∀ d ∈ fs, d.isDigit = true) → c ∉ fs.reverse := by
    intro fs hfs hmem
    rw [hfs c (List.mem_reverse.1 hmem)] at hc
    cases hc
  -- read backwards the digits are a word
  have hback : ds.reverse ++ c :: xs.reverse = es.reverse ++ c :: ys.reverse := by
    simpa using congrArg List.reverse h
  obtain ⟨hdigits, hfront⟩ := append_cons_inj (hnot ds hds) (hnot es hes) hback
  exact ⟨List.reverse_inj.1 hfront, List.reverse_inj.1 hdigits⟩

/-- A number is told from what stands before it. -/
theorem append_repr_inj {m n : Nat} (hc : c.isDigit = false)
    (h : xs ++ c :: m.repr.toList = ys ++ c :: n.repr.toList) : xs = ys ∧ m = n := by
  rw [Nat.toList_repr, Nat.toList_repr] at h
  obtain ⟨hfront, hdigits⟩ :=
    append_digits_inj hc (toDigits_all_isDigit m) (toDigits_all_isDigit n) h
  exact ⟨hfront, toDigits_inj hdigits⟩

/-- A name of one word has no blank, and it ends no line. -/
def IsWord (name : String) : Prop :=
  ' ' ∉ name.toList ∧ '\n' ∉ name.toList

instance (name : String) : Decidable (IsWord name) :=
  inferInstanceAs (Decidable (' ' ∉ name.toList ∧ '\n' ∉ name.toList))

theorem not_mem_intercalate {sep : String} {parts : List String} (hsep : c ∉ sep.toList)
    (hparts : ∀ part ∈ parts, c ∉ part.toList) : c ∉ (sep.intercalate parts).toList := by
  induction parts with
  | nil => simp
  | cons part rest ih =>
    rw [List.forall_mem_cons] at hparts
    cases rest with
    | nil =>
      rw [String.intercalate_singleton]
      exact hparts.1
    | cons next rest =>
      rw [String.intercalate_cons_cons, String.toList_append, String.toList_append,
        List.mem_append, List.mem_append, not_or, not_or]
      exact ⟨⟨hparts.1, hsep⟩, ih hparts.2⟩

end Words

/-! ### Lines -/

/-- The lines of a text are determined by it. -/
theorem lines_inj {c : Char} {lines lines' : List (List Char)} (h : ∀ line ∈ lines, c ∉ line)
    (h' : ∀ line ∈ lines', c ∉ line)
    (heq : lines.flatMap (· ++ [c]) = lines'.flatMap (· ++ [c])) : lines = lines' := by
  induction lines generalizing lines' with
  | nil =>
    cases lines' with
    | nil => rfl
    | cons line lines' => simp at heq
  | cons line lines ih =>
    cases lines' with
    | nil => simp at heq
    | cons line' lines' =>
      rw [List.flatMap_cons, List.flatMap_cons, List.append_assoc, List.append_assoc,
        List.singleton_append, List.singleton_append] at heq
      obtain ⟨hline, hlines⟩ := append_cons_inj (h line (by simp)) (h' line' (by simp)) heq
      rw [hline, ih (fun l hl => h l (by simp [hl])) (fun l hl => h' l (by simp [hl])) hlines]

/-- A separator at the end is one at the beginning, if each part has one before it. -/
theorem flatMap_cons_append (c : Char) (parts : List (List Char)) :
    parts.flatMap (c :: ·) ++ [c] = c :: parts.flatMap (· ++ [c]) := by
  induction parts with
  | nil => rfl
  | cons part rest ih =>
    rw [List.flatMap_cons, List.flatMap_cons, List.append_assoc, ih]
    simp

/-- So are the parts that stand behind a separator each. -/
theorem parts_inj {c : Char} {parts parts' : List (List Char)} (h : ∀ part ∈ parts, c ∉ part)
    (h' : ∀ part ∈ parts', c ∉ part)
    (heq : parts.flatMap (c :: ·) = parts'.flatMap (c :: ·)) : parts = parts' := by
  have hlines : c :: parts.flatMap (· ++ [c]) = c :: parts'.flatMap (· ++ [c]) := by
    rw [← flatMap_cons_append, ← flatMap_cons_append, heq]
  exact lines_inj h h' (List.tail_eq_of_cons_eq hlines)

end Columnar.Text
