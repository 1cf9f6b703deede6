import Mathlib.Algebra.Order.Monoid.Unbundled.MinMax
import Mathlib.Algebra.Order.Monoid.Defs
import Mathlib.Algebra.BigOperators.Group.List.Basic
import Mathlib.Order.Bounds.Basic

/-!
Monotone paths through a grid of costs and the recurrences that compute the
least total cost of such a path.
-/

namespace RockPaperScissors.Library.WarpingPath

abbrev Cell := Nat × Nat

inductive Step : Cell → Cell → Prop
  | down (i j : Nat) : Step (i, j) (i + 1, j)
  | diagonal (i j : Nat) : Step (i, j) (i + 1, j + 1)
  | right (i j : Nat) : Step (i, j) (i, j + 1)

/-- A path that enters the grid at a cell of `start` and moves through cells
of `inside` afterwards.  The list runs from the cell reached back to the
entry. -/
inductive IsPath (start inside : Set Cell) : List Cell → Prop
  | enter {p : Cell} : p ∈ start → IsPath start inside [p]
  | move {p q : Cell} {l : List Cell} :
      IsPath start inside (p :: l) → Step p q → q ∈ inside →
      IsPath start inside (q :: p :: l)

variable {K : Type*}

def pathCosts [AddMonoid K] (cost : Nat → Nat → K) (start inside : Set Cell)
    (target : Cell) : Set K :=
  {v | ∃ l, IsPath start inside (target :: l) ∧
    ((target :: l).map fun p => cost p.1 p.2).sum = v}

theorem mem_pathCosts_iff [AddMonoid K] {cost : Nat → Nat → K}
    {start inside : Set Cell} {q : Cell} {v : K} :
    v ∈ pathCosts cost start inside q ↔
      (q ∈ start ∧ v = cost q.1 q.2) ∨
        ∃ p, Step p q ∧ q ∈ inside ∧
          ∃ u ∈ pathCosts cost start inside p, v = cost q.1 q.2 + u := by
  constructor
  · rintro ⟨l, hpath, rfl⟩
    cases hpath with
    | enter hq => exact Or.inl ⟨hq, by simp⟩
    | @move p _ l hpath hstep hq =>
        exact Or.inr ⟨p, hstep, hq, _, ⟨l, hpath, rfl⟩, by simp⟩
  · rintro (⟨hq, rfl⟩ | ⟨p, hstep, hq, _, ⟨l, hpath, rfl⟩, rfl⟩)
    · exact ⟨[], .enter hq, by simp⟩
    · exact ⟨p :: l, .move hpath hstep hq, by simp⟩

/-- The cell a path may enter the grid at when it must begin in the corner. -/
def corner : Set Cell := {(0, 0)}

def border : Set Cell := {p | p.1 = 0 ∨ p.2 = 0}

def interior : Set Cell := {p | 1 ≤ p.1 ∧ 1 ≤ p.2}

@[simp] theorem mem_corner {p : Cell} : p ∈ corner ↔ p = (0, 0) := Iff.rfl

@[simp] theorem mem_border {p : Cell} : p ∈ border ↔ p.1 = 0 ∨ p.2 = 0 := Iff.rfl

@[simp] theorem mem_interior {p : Cell} : p ∈ interior ↔ 1 ≤ p.1 ∧ 1 ≤ p.2 := Iff.rfl

section LeastCost

variable [AddCommMonoid K] [LinearOrder K]

/-- The value kept for a cell when its three predecessors hold `up`,
`diagonal` and `left`. -/
def least3 (up diagonal left : K) : K := min (min up diagonal) left

def cornerCost (cost : Nat → Nat → K) : Nat → Nat → K
  | 0, 0 => cost 0 0
  | 0, j + 1 => cost 0 (j + 1) + cornerCost cost 0 j
  | i + 1, 0 => cost (i + 1) 0 + cornerCost cost i 0
  | i + 1, j + 1 => cost (i + 1) (j + 1) +
      least3 (cornerCost cost i (j + 1)) (cornerCost cost i j)
        (cornerCost cost (i + 1) j)

/-- Least cost of a path that may begin anywhere on the border. -/
def borderCost (cost : Nat → Nat → K) : Nat → Nat → K
  | 0, 0 => cost 0 0
  | 0, j + 1 => cost 0 (j + 1) + min 0 (borderCost cost 0 j)
  | i + 1, 0 => cost (i + 1) 0 + min 0 (borderCost cost i 0)
  | i + 1, j + 1 => cost (i + 1) (j + 1) +
      least3 (borderCost cost i (j + 1)) (borderCost cost i j)
        (borderCost cost (i + 1) j)

/-- Least cost of a path that begins on the border and leaves it at once. -/
def enteringCost (cost : Nat → Nat → K) : Nat → Nat → K
  | 0, j => cost 0 j
  | i + 1, 0 => cost (i + 1) 0
  | i + 1, j + 1 => cost (i + 1) (j + 1) +
      least3 (enteringCost cost i (j + 1)) (enteringCost cost i j)
        (enteringCost cost (i + 1) j)

/-- Turning the grid over its diagonal turns the paths with it. -/
theorem enteringCost_transpose (cost : Nat → Nat → K) (i j : Nat) :
    enteringCost (fun a b => cost b a) i j = enteringCost cost j i := by
  induction i, j using enteringCost.induct with
  | case1 j =>
      cases j <;> simp only [enteringCost]
  | case2 i => simp only [enteringCost]
  | case3 i j ihUp ihDiagonal ihLeft =>
      have hturn : ∀ u v w : K, least3 u v w = least3 w v u := by
        intro u v w
        rw [least3, least3, min_comm, ← min_assoc, min_right_comm]
      rw [enteringCost, enteringCost, ihUp, ihDiagonal, ihLeft, hturn]

/-- Only the cells above and to the left of the one asked for are read. -/
theorem enteringCost_congr {cost cost' : Nat → Nat → K} {i j : Nat}
    (h : ∀ a b, a ≤ i → b ≤ j → cost a b = cost' a b) :
    enteringCost cost i j = enteringCost cost' i j := by
  induction i, j using enteringCost.induct with
  | case1 j =>
      rw [enteringCost, enteringCost]
      exact h 0 j le_rfl le_rfl
  | case2 i =>
      rw [enteringCost, enteringCost]
      exact h (i + 1) 0 le_rfl le_rfl
  | case3 i j ihUp ihDiagonal ihLeft =>
      have hup := ihUp fun a b ha hb => h a b (by omega) hb
      have hdiagonal := ihDiagonal fun a b ha hb => h a b (by omega) (by omega)
      have hleft := ihLeft fun a b ha hb => h a b ha (by omega)
      rw [enteringCost, enteringCost, h _ _ le_rfl le_rfl, hup, hdiagonal, hleft]

theorem isLeast_of_enter {cost : Nat → Nat → K} {start inside : Set Cell}
    {q : Cell} (hstart : q ∈ start) (hnone : ∀ r, Step r q → q ∉ inside) :
    IsLeast (pathCosts cost start inside q) (cost q.1 q.2) := by
  constructor
  · exact mem_pathCosts_iff.mpr (Or.inl ⟨hstart, rfl⟩)
  · intro v hv
    rcases mem_pathCosts_iff.mp hv with ⟨-, rfl⟩ | ⟨r, hr, hinside, -⟩
    · exact le_rfl
    · exact absurd hinside (hnone r hr)

variable [IsOrderedAddMonoid K]

theorem isLeast_of_unique {cost : Nat → Nat → K} {start inside : Set Cell}
    {p q : Cell} {u : K} (hstart : q ∉ start) (hinside : q ∈ inside)
    (hstep : Step p q) (honly : ∀ r, Step r q → r = p)
    (hu : IsLeast (pathCosts cost start inside p) u) :
    IsLeast (pathCosts cost start inside q) (cost q.1 q.2 + u) := by
  constructor
  · exact mem_pathCosts_iff.mpr (Or.inr ⟨p, hstep, hinside, u, hu.1, rfl⟩)
  · intro v hv
    rcases mem_pathCosts_iff.mp hv with ⟨hq, -⟩ | ⟨r, hr, -, w, hw, rfl⟩
    · exact absurd hq hstart
    · obtain rfl := honly r hr
      exact add_le_add_right (hu.2 hw) _

theorem isLeast_of_unique_or_enter {cost : Nat → Nat → K} {start inside : Set Cell}
    {p q : Cell} {u : K} (hstart : q ∈ start) (hinside : q ∈ inside)
    (hstep : Step p q) (honly : ∀ r, Step r q → r = p)
    (hu : IsLeast (pathCosts cost start inside p) u) :
    IsLeast (pathCosts cost start inside q) (cost q.1 q.2 + min 0 u) := by
  constructor
  · rcases min_choice 0 u with h | h
    · exact mem_pathCosts_iff.mpr (Or.inl ⟨hstart, by rw [h, add_zero]⟩)
    · exact mem_pathCosts_iff.mpr (Or.inr ⟨p, hstep, hinside, u, hu.1, by rw [h]⟩)
  · intro v hv
    rcases mem_pathCosts_iff.mp hv with ⟨-, rfl⟩ | ⟨r, hr, -, w, hw, rfl⟩
    · calc cost q.1 q.2 + min 0 u ≤ cost q.1 q.2 + 0 :=
            add_le_add_right (min_le_left 0 u) _
        _ = cost q.1 q.2 := add_zero _
    · obtain rfl := honly r hr
      exact add_le_add_right ((min_le_right 0 u).trans (hu.2 hw)) _

theorem isLeast_of_three {cost : Nat → Nat → K} {start inside : Set Cell}
    {i j : Nat} {a b c : K} (hstart : (i + 1, j + 1) ∉ start)
    (hinside : (i + 1, j + 1) ∈ inside)
    (ha : IsLeast (pathCosts cost start inside (i, j + 1)) a)
    (hb : IsLeast (pathCosts cost start inside (i, j)) b)
    (hc : IsLeast (pathCosts cost start inside (i + 1, j)) c) :
    IsLeast (pathCosts cost start inside (i + 1, j + 1))
      (cost (i + 1) (j + 1) + least3 a b c) := by
  constructor
  · rcases min_choice (min a b) c with h | h
    · rcases min_choice a b with h' | h'
      · exact mem_pathCosts_iff.mpr (Or.inr ⟨_, .down i (j + 1), hinside, a, ha.1,
          by rw [least3, h, h']⟩)
      · exact mem_pathCosts_iff.mpr (Or.inr ⟨_, .diagonal i j, hinside, b, hb.1,
          by rw [least3, h, h']⟩)
    · exact mem_pathCosts_iff.mpr (Or.inr ⟨_, .right (i + 1) j, hinside, c, hc.1,
        by rw [least3, h]⟩)
  · intro v hv
    rcases mem_pathCosts_iff.mp hv with ⟨hq, -⟩ | ⟨r, hr, -, w, hw, rfl⟩
    · exact absurd hq hstart
    · apply add_le_add_right
      cases hr with
      | down => exact ((min_le_left _ _).trans (min_le_left _ _)).trans (ha.2 hw)
      | diagonal => exact ((min_le_left _ _).trans (min_le_right _ _)).trans (hb.2 hw)
      | right => exact (min_le_right _ _).trans (hc.2 hw)

theorem eq_of_step_to_row_zero {p : Cell} {j : Nat} (h : Step p (0, j + 1)) :
    p = (0, j) := by
  cases h
  rfl

theorem eq_of_step_to_column_zero {p : Cell} {i : Nat} (h : Step p (i + 1, 0)) :
    p = (i, 0) := by
  cases h
  rfl

theorem not_step_to_corner {p : Cell} (h : Step p (0, 0)) : False := by
  cases h

theorem isLeast_cornerCost (cost : Nat → Nat → K) (i j : Nat) :
    IsLeast (pathCosts cost corner Set.univ (i, j)) (cornerCost cost i j) := by
  induction i, j using cornerCost.induct with
  | case1 =>
      rw [cornerCost]
      exact isLeast_of_enter rfl fun _ h => (not_step_to_corner h).elim
  | case2 j ih =>
      rw [cornerCost]
      exact isLeast_of_unique (by simp) trivial (.right 0 j)
        (fun _ => eq_of_step_to_row_zero) ih
  | case3 i ih =>
      rw [cornerCost]
      exact isLeast_of_unique (by simp) trivial (.down i 0)
        (fun _ => eq_of_step_to_column_zero) ih
  | case4 i j ihUp ihDiagonal ihLeft =>
      rw [cornerCost]
      exact isLeast_of_three (by simp) trivial ihUp ihDiagonal ihLeft

theorem isLeast_borderCost (cost : Nat → Nat → K) (i j : Nat) :
    IsLeast (pathCosts cost border Set.univ (i, j)) (borderCost cost i j) := by
  induction i, j using borderCost.induct with
  | case1 =>
      rw [borderCost]
      exact isLeast_of_enter (by simp) fun _ h => (not_step_to_corner h).elim
  | case2 j ih =>
      rw [borderCost]
      exact isLeast_of_unique_or_enter (by simp) trivial (.right 0 j)
        (fun _ => eq_of_step_to_row_zero) ih
  | case3 i ih =>
      rw [borderCost]
      exact isLeast_of_unique_or_enter (by simp) trivial (.down i 0)
        (fun _ => eq_of_step_to_column_zero) ih
  | case4 i j ihUp ihDiagonal ihLeft =>
      rw [borderCost]
      exact isLeast_of_three (by simp) trivial ihUp ihDiagonal ihLeft

theorem isLeast_enteringCost (cost : Nat → Nat → K) (i j : Nat) :
    IsLeast (pathCosts cost border interior (i, j)) (enteringCost cost i j) := by
  induction i, j using enteringCost.induct with
  | case1 j =>
      rw [enteringCost]
      exact isLeast_of_enter (by simp) (by simp)
  | case2 i =>
      rw [enteringCost]
      exact isLeast_of_enter (by simp) (by simp)
  | case3 i j ihUp ihDiagonal ihLeft =>
      rw [enteringCost]
      exact isLeast_of_three (by simp) (by simp) ihUp ihDiagonal ihLeft

theorem corner_le_cornerCost {cost : Nat → Nat → K} (hcost : ∀ i j, 0 ≤ cost i j)
    (i j : Nat) : cost 0 0 ≤ cornerCost cost i j := by
  induction i, j using cornerCost.induct with
  | case1 => rw [cornerCost]
  | case2 j ih =>
      rw [cornerCost]
      exact le_add_of_nonneg_of_le (hcost _ _) ih
  | case3 i ih =>
      rw [cornerCost]
      exact le_add_of_nonneg_of_le (hcost _ _) ih
  | case4 i j ihUp ihDiagonal ihLeft =>
      rw [cornerCost]
      exact le_add_of_nonneg_of_le (hcost _ _) (le_min (le_min ihUp ihDiagonal) ihLeft)

theorem cornerCost_nonneg {cost : Nat → Nat → K} (hcost : ∀ i j, 0 ≤ cost i j)
    (i j : Nat) : 0 ≤ cornerCost cost i j :=
  (hcost 0 0).trans (corner_le_cornerCost hcost i j)

theorem borderCost_nonneg {cost : Nat → Nat → K} (hcost : ∀ i j, 0 ≤ cost i j)
    (i j : Nat) : 0 ≤ borderCost cost i j := by
  induction i, j using borderCost.induct with
  | case1 =>
      rw [borderCost]
      exact hcost 0 0
  | case2 j ih =>
      rw [borderCost]
      exact add_nonneg (hcost _ _) (le_min le_rfl ih)
  | case3 i ih =>
      rw [borderCost]
      exact add_nonneg (hcost _ _) (le_min le_rfl ih)
  | case4 i j ihUp ihDiagonal ihLeft =>
      rw [borderCost]
      exact add_nonneg (hcost _ _) (le_min (le_min ihUp ihDiagonal) ihLeft)

theorem cornerCost_diagonal_eq_zero {cost : Nat → Nat → K}
    (hcost : ∀ i j, 0 ≤ cost i j) (hdiagonal : ∀ i, cost i i = 0) (n : Nat) :
    cornerCost cost n n = 0 := by
  induction n with
  | zero => rw [cornerCost, hdiagonal]
  | succ n ih =>
      apply le_antisymm _ (cornerCost_nonneg hcost _ _)
      rw [cornerCost, hdiagonal, zero_add, ← ih]
      exact (min_le_left _ _).trans (min_le_right _ _)

end LeastCost

end RockPaperScissors.Library.WarpingPath
