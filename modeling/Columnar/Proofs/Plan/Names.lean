import Columnar.Plan.Basic
import Columnar.Proofs.Text.Separated

/-! # Names of writers, accessors and columns

    The name of a writer and the text of an accessor end with a number, which
    can be told from the name before it whatever characters that has.  The text
    of a path does not tell where a name ends, but that of a child does if the
    text of its parent is known. -/

namespace Columnar

open Text (append_repr_inj IsWord not_mem_intercalate not_mem_repr)

/-- Types and numbers can be told from the name of a writer, even if types have the marks of names
    in theirs. -/
theorem Specification.name_eq_iff {s t : Specification} :
    s.name = t.name ↔ s.rootType = t.rootType ∧ s.writerId = t.writerId := by
  constructor
  · intro h
    -- the number stands behind a bar
    have hname : ∀ u : Specification, u.name.toList =
        (u.rootType.toList ++ "$RowWriter".toList) ++ '_' :: u.writerId.repr.toList := by
      intro u
      show (u.rootType ++ "$RowWriter_" ++ Nat.repr u.writerId).toList = _
      simp
    have hlist := congrArg String.toList h
    rw [hname s, hname t] at hlist
    obtain ⟨htype, hnumber⟩ := append_repr_inj (by decide) hlist
    exact ⟨String.toList_inj.1 (List.append_cancel_right htype), hnumber⟩
  · rintro ⟨htype, hnumber⟩
    unfold name
    rw [htype, hnumber]

namespace Accessor

theorem toList_text (a : Accessor) :
    a.text.toList = a.name.toList ++ '#' :: a.index.repr.toList := by
  show (a.name ++ "#" ++ Nat.repr a.index).toList = _
  simp

theorem text_inj {a b : Accessor} (h : a.text = b.text) : a = b := by
  have hlist := congrArg String.toList h
  rw [toList_text, toList_text] at hlist
  obtain ⟨hname, hindex⟩ := append_repr_inj (by decide) hlist
  cases a
  cases b
  rw [String.toList_inj] at hname
  subst hname hindex
  rfl

theorem isWord_text {a : Accessor} (h : IsWord a.name) : IsWord a.text := by
  have hnot : ∀ c : Char, c.isDigit = false → c ≠ '#' → c ∉ a.name.toList → c ∉ a.text.toList := by
    intro c hdigit hmark hname
    rw [toList_text, List.mem_append, List.mem_cons, not_or, not_or]
    exact ⟨hname, hmark, not_mem_repr hdigit⟩
  exact ⟨hnot ' ' (by decide) (by decide) h.1, hnot '\n' (by decide) (by decide) h.2⟩

end Accessor

/-! ### Paths -/

namespace Path

theorem text_root (name : String) : (⟨name, []⟩ : Path).text = name :=
  String.intercalate_singleton

theorem text_child (p : Path) (name : String) : (p.child name).text = p.text ++ "." ++ name := by
  show ".".intercalate ((p.root :: p.steps) ++ [name]) = _
  rw [String.intercalate_append_of_ne_nil (by simp) (by simp), String.intercalate_singleton]
  rfl

theorem child_text_inj {p q : Path} {name name' : String} (hpq : p.text = q.text)
    (h : (p.child name).text = (q.child name').text) : name = name' := by
  rw [text_child, text_child, hpq, String.append_right_inj] at h
  exact h

/-- All names in the path are words. -/
def NamedByWords (p : Path) : Prop :=
  ∀ name ∈ p.names, IsWord name

namespace NamedByWords

theorem root {name : String} (h : IsWord name) : (⟨name, []⟩ : Path).NamedByWords := by
  show ∀ n ∈ [name], IsWord n
  rw [List.forall_mem_singleton]
  exact h

theorem child {p : Path} {name : String} (hp : p.NamedByWords) (hname : IsWord name) :
    (p.child name).NamedByWords := by
  show ∀ n ∈ p.names ++ [name], IsWord n
  rw [List.forall_mem_append, List.forall_mem_singleton]
  exact ⟨hp, hname⟩

theorem isWord_text {p : Path} (h : p.NamedByWords) : IsWord p.text :=
  ⟨not_mem_intercalate (by decide) fun name hname => (h name hname).1,
    not_mem_intercalate (by decide) fun name hname => (h name hname).2⟩

end NamedByWords

end Path

end Columnar
