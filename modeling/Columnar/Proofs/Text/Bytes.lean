import Mathlib.Tactic.SplitIfs

/-! # Texts as bytes

    Texts are ordered character by character, by the numbers of the characters.
    UTF-8 is made such that the bytes of two texts are in the same order
    (`bytes_lt_iff`): the first byte of a character tells how many follow and
    has its highest bits, and each of those that follow has the next six. -/

namespace Columnar.Text

/-- The bytes of a text in UTF-8. -/
def bytes (s : String) : List UInt8 := s.toUTF8.data.toList

theorem bytes_eq_flatMap (s : String) : bytes s = s.toList.flatMap String.utf8EncodeChar := by
  have hencode : s.toUTF8 = s.toList.utf8Encode := by
    rw [String.utf8Encode_toList, String.toUTF8_eq_toByteArray]
  unfold bytes
  rw [hencode, List.utf8Encode, List.data_toByteArray]

/-! ### Characters -/

/-- The first byte of the character with that number. -/
def firstByte (v : Nat) : Nat :=
  if v ≤ 0x7f then v
  else if v ≤ 0x7ff then v / 64 % 0x20 + 0xc0
  else if v ≤ 0xffff then v / 4096 % 0x10 + 0xe0
  else v / 262144 % 0x08 + 0xf0

/-- The bytes behind the first one. -/
def laterBytes (v : Nat) : List UInt8 :=
  if v ≤ 0x7f then []
  else if v ≤ 0x7ff then [.ofNat (v % 0x40 + 0x80)]
  else if v ≤ 0xffff then [.ofNat (v / 64 % 0x40 + 0x80), .ofNat (v % 0x40 + 0x80)]
  else [.ofNat (v / 4096 % 0x40 + 0x80), .ofNat (v / 64 % 0x40 + 0x80), .ofNat (v % 0x40 + 0x80)]

theorem utf8EncodeChar_eq (c : Char) :
    String.utf8EncodeChar c = .ofNat (firstByte c.val.toNat) :: laterBytes c.val.toNat := by
  unfold String.utf8EncodeChar firstByte laterBytes
  simp only
  split_ifs <;> rfl

section Bytes

variable {v w : Nat} {xs ys : List UInt8}

/-- Bytes decide the order, unless they are equal and what is behind them decides. -/
theorem byte_cons_lt {m n : Nat} (hn : n < 256) (hle : m ≤ n) (hrest : m = n → xs < ys) :
    UInt8.ofNat m :: xs < UInt8.ofNat n :: ys := by
  rw [List.cons_lt_cons_iff]
  by_cases heq : m = n
  · exact .inr ⟨by rw [heq], hrest heq⟩
  · left
    rw [UInt8.lt_iff_toNat_lt, UInt8.toNat_ofNat', UInt8.toNat_ofNat']
    omega

theorem firstByte_lt (v : Nat) : firstByte v < 256 := by
  unfold firstByte
  split_ifs <;> omega

/-- Characters of more bytes have a greater first byte. -/
theorem firstByte_le (h : v < w) (hw : w < 0x110000) : firstByte v ≤ firstByte w := by
  unfold firstByte
  split_ifs <;> omega

/-- Characters with one first byte have the same number of bytes. -/
theorem laterBytes_append_lt (h : v < w) (hw : w < 0x110000) (hfirst : firstByte v = firstByte w) :
    laterBytes v ++ xs < laterBytes w ++ ys := by
  unfold firstByte at hfirst
  unfold laterBytes
  split_ifs at hfirst ⊢
  -- characters of one byte are told apart by it, and those of different lengths by the first one
  all_goals try omega
  -- one byte behind the first, two, or three
  · apply byte_cons_lt (by omega) (by omega)
    intro
    omega
  · apply byte_cons_lt (by omega) (by omega)
    intro hsecond
    apply byte_cons_lt (by omega) (by omega)
    intro
    omega
  · apply byte_cons_lt (by omega) (by omega)
    intro hsecond
    apply byte_cons_lt (by omega) (by omega)
    intro hthird
    apply byte_cons_lt (by omega) (by omega)
    intro
    omega

end Bytes

theorem val_toNat_lt (c : Char) : c.val.toNat < 0x110000 := by
  rcases c.valid with h | ⟨-, h⟩
  · show c.val.toNat < _
    omega
  · exact h

/-- The lesser of two characters has the lesser bytes, whatever stands behind them. -/
theorem utf8EncodeChar_append_lt {c d : Char} (h : c < d) (xs ys : List UInt8) :
    String.utf8EncodeChar c ++ xs < String.utf8EncodeChar d ++ ys := by
  have hlt : c.val.toNat < d.val.toNat := h
  rw [utf8EncodeChar_eq, utf8EncodeChar_eq]
  apply byte_cons_lt (firstByte_lt _) (firstByte_le hlt (val_toNat_lt d))
  exact laterBytes_append_lt hlt (val_toNat_lt d)

/-! ### Texts -/

theorem flatMap_utf8EncodeChar_lt {cs ds : List Char} (h : cs < ds) :
    cs.flatMap String.utf8EncodeChar < ds.flatMap String.utf8EncodeChar := by
  induction cs generalizing ds with
  | nil =>
    cases ds with
    | nil => exact absurd h (List.not_lt_nil [])
    | cons d ds =>
      rw [List.flatMap_nil, List.flatMap_cons, utf8EncodeChar_eq, List.cons_append]
      exact List.nil_lt_cons _ _
  | cons c cs ih =>
    cases ds with
    | nil => exact absurd h (List.not_lt_nil _)
    | cons d ds =>
      rw [List.flatMap_cons, List.flatMap_cons]
      rcases List.cons_lt_cons_iff.1 h with hlt | ⟨rfl, hrest⟩
      · exact utf8EncodeChar_append_lt hlt _ _
      · exact List.append_left_lt (ih hrest)

/-- Texts are in the order of their bytes. -/
theorem bytes_lt_iff {s t : String} : bytes s < bytes t ↔ s < t := by
  have hmono : ∀ {s t : String}, s < t → bytes s < bytes t := by
    intro s t h
    rw [bytes_eq_flatMap, bytes_eq_flatMap]
    exact flatMap_utf8EncodeChar_lt h
  constructor
  · intro h
    -- otherwise the bytes would be equal, or in the other order
    by_cases heq : s = t
    · subst heq
      exact absurd h (List.lt_irrefl _)
    · apply String.not_le.1
      intro hle
      have hlt : t < s := String.not_le.1 fun hle' => heq (String.le_antisymm hle' hle)
      exact List.lt_asymm h (hmono hlt)
  · exact hmono

example : bytes "z" < bytes "é" ∧ bytes "é" < bytes "あ" := by decide +kernel

end Columnar.Text
