import RockPaperScissors.Library.CountedLoop
import RockPaperScissors.Library.WarpingPath
import Mathlib.Algebra.BigOperators.Intervals
import Mathlib.Algebra.Order.Field.Basic
import Mathlib.Tactic.Linarith
import Mathlib.Tactic.NormNum
import Mathlib.Tactic.Ring

/-!
The matcher of `main.c`: the distance table of `compare_mfcc_buffers`, its
three loops and the cell it returns, in exact arithmetic.
-/

namespace RockPaperScissors.MfccMatcher

open RockPaperScissors.Library.CountedLoop
open RockPaperScissors.Library.WarpingPath

def numMfcc : Nat := 13

def numFramesMfcc : Nat := 22

abbrev DistanceTable (K : Type*) := Nat → Nat → K

section Table

variable {K : Type*}

/-- The assignment `distances_frames[i][j] = v`. -/
def store (d : DistanceTable K) (i j : Nat) (v : K) : DistanceTable K :=
  Function.update d i (Function.update (d i) j v)

theorem store_apply (d : DistanceTable K) (i j : Nat) (v : K) (a b : Nat) :
    store d i j v a b = if a = i ∧ b = j then v else d a b := by
  by_cases ha : a = i
  · subst a
    by_cases hb : b = j <;> simp [store, hb]
  · simp [store, ha]

@[simp] theorem store_same (d : DistanceTable K) (i j : Nat) (v : K) :
    store d i j v i j = v := by
  simp [store_apply]

@[simp] theorem store_store (d : DistanceTable K) (i j : Nat) (u v : K) :
    store (store d i j u) i j v = store d i j v := by
  funext a b
  simp only [store_apply]
  split <;> rfl

/-- A double loop that stores `f i j` at the cell `s` rows and columns past
`(i, j)` fills exactly the shifted square. -/
theorem forLoop_store_square (f : Nat → Nat → K) (s : Nat)
    {body : Nat → Nat → DistanceTable K → DistanceTable K}
    (hbody : ∀ i j d, body i j d = store d (i + s) (j + s) (f i j))
    {lo hi : Nat} (hle : lo ≤ hi) (d : DistanceTable K) (a b : Nat) :
    forLoop lo hi (fun i d => forLoop lo hi (fun j d => body i j d) d) d a b =
      if lo + s ≤ a ∧ a < hi + s ∧ lo + s ≤ b ∧ b < hi + s then f (a - s) (b - s)
      else d a b := by
  have hrow : ∀ i t, forLoop lo hi (fun j d => body i j d) t =
      fun a b => if a = i + s ∧ lo + s ≤ b ∧ b < hi + s then f i (b - s)
        else t a b := by
    intro i t
    refine forLoop_induction (P := fun j u => u = fun a b =>
      if a = i + s ∧ lo + s ≤ b ∧ b < j + s then f i (b - s) else t a b) hle ?_ ?_
    · funext a b
      rw [if_neg (by omega)]
    · rintro j _ hlo - rfl
      funext a b
      rw [hbody, store_apply]
      by_cases hcell : a = i + s ∧ b = j + s
      · obtain ⟨rfl, rfl⟩ := hcell
        rw [if_pos ⟨rfl, rfl⟩, if_pos (by omega), Nat.add_sub_cancel]
      · rw [if_neg hcell]
        exact if_congr (by omega) rfl rfl
  suffices h : forLoop lo hi (fun i d => forLoop lo hi (fun j d => body i j d) d) d =
      fun a b => if lo + s ≤ a ∧ a < hi + s ∧ lo + s ≤ b ∧ b < hi + s then
        f (a - s) (b - s) else d a b by
    rw [h]
  refine forLoop_induction (P := fun i u => u = fun a b =>
    if lo + s ≤ a ∧ a < i + s ∧ lo + s ≤ b ∧ b < hi + s then f (a - s) (b - s)
    else d a b) hle ?_ ?_
  · funext a b
    rw [if_neg (by omega)]
  · rintro i _ hlo - rfl
    rw [hrow]
    funext a b
    by_cases hcell : a = i + s ∧ lo + s ≤ b ∧ b < hi + s
    · obtain ⟨rfl, hlow, hhigh⟩ := hcell
      rw [if_pos ⟨rfl, hlow, hhigh⟩, if_pos (by omega), Nat.add_sub_cancel]
    · rw [if_neg hcell]
      exact if_congr (by omega) rfl rfl

end Table

section Code

variable {K : Type*} [Field K] [LinearOrder K]

def infinity : K := 9999999

def fillInfinity (n : Nat) (d : DistanceTable K) : DistanceTable K :=
  forLoop 0 n (fun i d => forLoop 0 n (fun j d => store d i j infinity) d) d

/-- The body of the second loop.  Frames `i` and `j` are compared and the
result is stored one row and one column further. -/
def storeFrameDistance (sqrt : K → K) (input data : Nat → K) (i j : Nat)
    (d : DistanceTable K) : DistanceTable K :=
  let d := store d (i + 1) (j + 1) 0
  let d := forLoop 0 numMfcc (fun k d => store d (i + 1) (j + 1)
    (d (i + 1) (j + 1) + (input (i * numMfcc + k) - data (j * numMfcc + k)) ^ 2)) d
  store d (i + 1) (j + 1) (sqrt (d (i + 1) (j + 1)))

/-- The second loop: the distance between all pairs of the MFCC features. -/
def storeFrameDistances (sqrt : K → K) (n : Nat) (input data : Nat → K)
    (d : DistanceTable K) : DistanceTable K :=
  forLoop 1 n (fun i d =>
    forLoop 1 n (fun j d => storeFrameDistance sqrt input data i j d) d) d

def accumulateCell (i j : Nat) (d : DistanceTable K) : DistanceTable K :=
  let shortest := d (i - 1) j
  let shortest := if d (i - 1) (j - 1) < shortest then d (i - 1) (j - 1) else shortest
  let shortest := if d i (j - 1) < shortest then d i (j - 1) else shortest
  store d i j (d i j + shortest)

/-- The third loop: the shortest distance from one side to the other. -/
def accumulate (n : Nat) (d : DistanceTable K) : DistanceTable K :=
  forLoop 1 (n + 1) (fun i d => forLoop 1 (n + 1) (fun j d => accumulateCell i j d) d) d

/-- `compare_mfcc_buffers` with `num_frames_mfcc = n`; `stack` is what the
array `distances_frames` holds before the first store. -/
def compareMfccBuffers (sqrt : K → K) (n : Nat) (stack : DistanceTable K)
    (input data : Nat → K) : K :=
  let d := fillInfinity n stack
  let d := store d 0 0 0
  let d := storeFrameDistances sqrt n input data d
  let d := accumulate n d
  d (n - 1) (n - 1)

end Code

section FirstLoops

variable {K : Type*} [Field K]

def frameDistance (sqrt : K → K) (input data : Nat → K) (i j : Nat) : K :=
  sqrt (∑ k ∈ Finset.range numMfcc,
    (input (i * numMfcc + k) - data (j * numMfcc + k)) ^ 2)

def initialTable (sqrt : K → K) (n : Nat) (stack : DistanceTable K)
    (input data : Nat → K) : DistanceTable K :=
  storeFrameDistances sqrt n input data (store (fillInfinity n stack) 0 0 0)

theorem fillInfinity_apply (n : Nat) (d : DistanceTable K) (a b : Nat) :
    fillInfinity n d a b = if a < n ∧ b < n then infinity else d a b := by
  have hbody : ∀ i j (d : DistanceTable K),
      store d i j infinity = store d (i + 0) (j + 0) infinity := fun _ _ _ => rfl
  have h := forLoop_store_square (fun _ _ => infinity) 0 hbody (Nat.zero_le n) d a b
  simpa [fillInfinity] using h

theorem forLoop_add_to_cell (g : Nat → K) (m i j : Nat) (d : DistanceTable K) :
    forLoop 0 m (fun k d => store d i j (d i j + g k)) (store d i j 0) =
      store d i j (∑ k ∈ Finset.range m, g k) := by
  refine forLoop_induction
    (P := fun k u => u = store d i j (∑ k ∈ Finset.range k, g k))
    (Nat.zero_le m) (by simp) ?_
  rintro k _ - - rfl
  simp [Finset.sum_range_succ]

theorem storeFrameDistance_eq (sqrt : K → K) (input data : Nat → K) (i j : Nat)
    (d : DistanceTable K) :
    storeFrameDistance sqrt input data i j d =
      store d (i + 1) (j + 1) (frameDistance sqrt input data i j) := by
  have hsum := forLoop_add_to_cell
    (fun k => (input (i * numMfcc + k) - data (j * numMfcc + k)) ^ 2)
    numMfcc (i + 1) (j + 1) d
  simp only [storeFrameDistance, hsum, store_same, store_store, frameDistance]

theorem storeFrameDistances_apply (sqrt : K → K) {n : Nat} (hn : 1 ≤ n)
    (input data : Nat → K) (d : DistanceTable K) (a b : Nat) :
    storeFrameDistances sqrt n input data d a b =
      if 2 ≤ a ∧ a < n + 1 ∧ 2 ≤ b ∧ b < n + 1 then
        frameDistance sqrt input data (a - 1) (b - 1)
      else d a b :=
  forLoop_store_square (frameDistance sqrt input data) 1
    (storeFrameDistance_eq sqrt input data) hn d a b

theorem initialTable_apply (sqrt : K → K) {n : Nat} (hn : 1 ≤ n)
    (stack : DistanceTable K) (input data : Nat → K) (a b : Nat) :
    initialTable sqrt n stack input data a b =
      if 2 ≤ a ∧ a < n + 1 ∧ 2 ≤ b ∧ b < n + 1 then
        frameDistance sqrt input data (a - 1) (b - 1)
      else if a = 0 ∧ b = 0 then 0
      else if a < n ∧ b < n then infinity
      else stack a b := by
  rw [initialTable, storeFrameDistances_apply sqrt hn, store_apply, fillInfinity_apply]

/-- The cells of row and column `n` that hold whatever was on the stack are
read by the third loop but lie outside the square that reaches the result. -/
theorem initialTable_stack (sqrt : K → K) {n : Nat} (hn : 1 ≤ n)
    (stack stack' : DistanceTable K) (input data : Nat → K) {a b : Nat}
    (ha : a < n) (hb : b < n) :
    initialTable sqrt n stack input data a b = initialTable sqrt n stack' input data a b := by
  have hclean : a < n ∧ b < n := ⟨ha, hb⟩
  rw [initialTable_apply sqrt hn, initialTable_apply sqrt hn, if_pos hclean,
    if_pos hclean]

theorem frameDistance_comm (sqrt : K → K) (input data : Nat → K) (i j : Nat) :
    frameDistance sqrt input data i j = frameDistance sqrt data input j i := by
  have hsquare : ∀ u v : K, (u - v) ^ 2 = (v - u) ^ 2 := by
    intro u v
    ring
  simp only [frameDistance]
  congr 1
  apply Finset.sum_congr rfl
  intro k _
  exact hsquare _ _

/-- The tables for the two orders of the arguments are transposes of each
other in the square that the result depends on. -/
theorem initialTable_transpose (sqrt : K → K) {n : Nat} (hn : 1 ≤ n)
    (stack stack' : DistanceTable K) (input data : Nat → K) {a b : Nat}
    (ha : a < n) (hb : b < n) :
    initialTable sqrt n stack input data a b =
      initialTable sqrt n stack' data input b a := by
  rw [initialTable_apply sqrt hn, initialTable_apply sqrt hn,
    frameDistance_comm sqrt input data (a - 1) (b - 1)]
  apply if_congr (by omega) rfl
  apply if_congr (by omega) rfl
  rw [if_pos ⟨ha, hb⟩, if_pos ⟨hb, ha⟩]

end FirstLoops

section ThirdLoop

variable {K : Type*} [Field K] [LinearOrder K]

theorem accumulateCell_eq (i j : Nat) (d : DistanceTable K) :
    accumulateCell i j d =
      store d i j (d i j + least3 (d (i - 1) j) (d (i - 1) (j - 1)) (d i (j - 1))) := by
  have hmin : ∀ u v : K, (if v < u then v else u) = min u v := by
    intro u v
    rw [min_comm, min_def_lt]
  simp only [accumulateCell, least3, hmin]

/-- The table between two passes of the third loop: rows above `i` and, in
row `i`, columns before `j` already hold accumulated costs. -/
def partlyAccumulated (n : Nat) (d : DistanceTable K) (i j : Nat) : DistanceTable K :=
  fun a b => if b < n + 1 ∧ (a < i ∨ (a = i ∧ b < j)) then enteringCost d a b
    else d a b

theorem accumulateCell_partlyAccumulated {n i j : Nat} (hi : 1 ≤ i) (hj : 1 ≤ j)
    (hjn : j < n + 1) (d : DistanceTable K) :
    accumulateCell i j (partlyAccumulated n d i j) =
      partlyAccumulated n d i (j + 1) := by
  obtain ⟨i, rfl⟩ := Nat.exists_eq_add_of_le' hi
  obtain ⟨j, rfl⟩ := Nat.exists_eq_add_of_le' hj
  have hcell : partlyAccumulated n d (i + 1) (j + 1) (i + 1) (j + 1) =
      d (i + 1) (j + 1) := if_neg (by omega)
  have hup : partlyAccumulated n d (i + 1) (j + 1) i (j + 1) =
      enteringCost d i (j + 1) := if_pos (by omega)
  have hdiagonal : partlyAccumulated n d (i + 1) (j + 1) i j =
      enteringCost d i j := if_pos (by omega)
  have hleft : partlyAccumulated n d (i + 1) (j + 1) (i + 1) j =
      enteringCost d (i + 1) j := if_pos (by omega)
  rw [accumulateCell_eq]
  simp only [Nat.add_sub_cancel, hcell, hup, hdiagonal, hleft]
  rw [← enteringCost]
  funext a b
  rw [store_apply]
  by_cases hab : a = i + 1 ∧ b = j + 1
  · obtain ⟨rfl, rfl⟩ := hab
    rw [if_pos ⟨rfl, rfl⟩, partlyAccumulated, if_pos (by omega)]
  · rw [if_neg hab]
    exact if_congr (by omega) rfl rfl

theorem forLoop_accumulateCell {n i : Nat} (hi : 1 ≤ i) (d : DistanceTable K) :
    forLoop 1 (n + 1) (fun j d => accumulateCell i j d) (partlyAccumulated n d i 1) =
      partlyAccumulated n d (i + 1) 1 := by
  have hend : partlyAccumulated n d i (n + 1) = partlyAccumulated n d (i + 1) 1 := by
    funext a b
    by_cases hb : b = 0 ∧ a = i + 1
    · obtain ⟨rfl, rfl⟩ := hb
      simp [partlyAccumulated, enteringCost]
    · exact if_congr (by omega) rfl rfl
  rw [← hend]
  refine forLoop_induction (P := fun j u => u = partlyAccumulated n d i j)
    (by omega) rfl ?_
  rintro j _ hlo hhi rfl
  exact accumulateCell_partlyAccumulated hi hlo hhi d

theorem accumulate_apply (n : Nat) (d : DistanceTable K) (a b : Nat) :
    accumulate n d a b = if a < n + 1 ∧ b < n + 1 then enteringCost d a b else d a b := by
  have hstart : d = partlyAccumulated n d 1 1 := by
    funext a b
    by_cases h : b < n + 1 ∧ (a < 1 ∨ (a = 1 ∧ b < 1))
    · rw [partlyAccumulated, if_pos h]
      rcases h.2 with ha | ⟨rfl, hb⟩
      · obtain rfl : a = 0 := by omega
        rw [enteringCost]
      · obtain rfl : b = 0 := by omega
        rw [enteringCost]
    · rw [partlyAccumulated, if_neg h]
  have hloop : accumulate n d = partlyAccumulated n d (n + 1) 1 := by
    refine forLoop_induction (P := fun i u => u = partlyAccumulated n d i 1)
      (by omega) hstart ?_
    rintro i _ hlo - rfl
    exact forLoop_accumulateCell hlo d
  rw [hloop]
  by_cases hb : b = 0 ∧ a = n + 1
  · obtain ⟨rfl, rfl⟩ := hb
    simp [partlyAccumulated, enteringCost]
  · exact if_congr (by omega) rfl rfl

theorem accumulate_row_zero (n : Nat) (d : DistanceTable K) (b : Nat) :
    accumulate n d 0 b = d 0 b := by
  rw [accumulate_apply, enteringCost, ite_self]

theorem accumulate_column_zero (n : Nat) (d : DistanceTable K) (a : Nat) :
    accumulate n d a 0 = d a 0 := by
  rw [accumulate_apply]
  cases a with
  | zero => rw [enteringCost, ite_self]
  | succ a => rw [enteringCost, ite_self]

/-- The third loop refines the least path cost, although it overwrites the
costs it reads. -/
theorem accumulate_isLeast [IsStrictOrderedRing K] (n : Nat) (cost : DistanceTable K) :
    (∀ i j, 1 ≤ i → i ≤ n → 1 ≤ j → j ≤ n →
      IsLeast (pathCosts cost border interior (i, j)) (accumulate n cost i j)) ∧
    (∀ j, j ≤ n → accumulate n cost 0 j = cost 0 j) ∧
    (∀ i, i ≤ n → accumulate n cost i 0 = cost i 0) := by
  refine ⟨?_, ?_, ?_⟩
  · intro i j _ hi _ hj
    rw [accumulate_apply, if_pos (by omega)]
    exact isLeast_enteringCost cost i j
  · intro j _
    exact accumulate_row_zero n cost j
  · intro i _
    exact accumulate_column_zero n cost i

theorem accumulate_isLeast_ones :
    IsLeast (pathCosts (fun _ _ => (1 : ℚ)) border interior (2, 2))
        (accumulate 2 (fun _ _ => (1 : ℚ)) 2 2) ∧
      accumulate 2 (fun _ _ => (1 : ℚ)) 2 2 = 3 := by
  refine ⟨(accumulate_isLeast 2 _).1 2 2 (by decide) (by decide) (by decide)
    (by decide), ?_⟩
  rw [accumulate_apply]
  norm_num [enteringCost, least3]

theorem compareMfccBuffers_eq_enteringCost (sqrt : K → K) {n : Nat} (hn : 1 ≤ n)
    (stack : DistanceTable K) (input data : Nat → K) :
    compareMfccBuffers sqrt n stack input data =
      enteringCost (initialTable sqrt n stack input data) (n - 1) (n - 1) := by
  change accumulate n (initialTable sqrt n stack input data) (n - 1) (n - 1) = _
  rw [accumulate_apply, if_pos (by omega)]

/-- What is returned is the least cost of a path through the table of the first
two loops that begins on its border and leaves it at once. -/
theorem isLeast_compareMfccBuffers [IsStrictOrderedRing K] (sqrt : K → K) {n : Nat} (hn : 1 ≤ n)
    (stack : DistanceTable K) (input data : Nat → K) :
    IsLeast (pathCosts (initialTable sqrt n stack input data) border interior (n - 1, n - 1))
      (compareMfccBuffers sqrt n stack input data) := by
  rw [compareMfccBuffers_eq_enteringCost sqrt hn]
  exact isLeast_enteringCost _ _ _

theorem compareMfccBuffers_stack (sqrt : K → K) {n : Nat} (hn : 1 ≤ n)
    (stack stack' : DistanceTable K) (input data : Nat → K) :
    compareMfccBuffers sqrt n stack input data =
      compareMfccBuffers sqrt n stack' input data := by
  rw [compareMfccBuffers_eq_enteringCost sqrt hn, compareMfccBuffers_eq_enteringCost sqrt hn]
  apply enteringCost_congr
  intro a b ha hb
  exact initialTable_stack sqrt hn stack stack' input data (by omega) (by omega)

theorem compareMfccBuffers_stack_filled :
    compareMfccBuffers id numFramesMfcc (fun _ _ => (0 : ℚ)) (fun k => k) (fun _ => 0) =
      compareMfccBuffers id numFramesMfcc (fun a b => (a : ℚ) - b) (fun k => k)
        (fun _ => 0) :=
  compareMfccBuffers_stack id (by decide) _ _ _ _

theorem compareMfccBuffers_swap (sqrt : K → K) {n : Nat} (hn : 1 ≤ n)
    (stack stack' : DistanceTable K) (input data : Nat → K) :
    compareMfccBuffers sqrt n stack input data =
      compareMfccBuffers sqrt n stack' data input := by
  rw [compareMfccBuffers_eq_enteringCost sqrt hn, compareMfccBuffers_eq_enteringCost sqrt hn,
    ← enteringCost_transpose]
  apply enteringCost_congr
  intro a b ha hb
  exact initialTable_transpose sqrt hn stack stack' input data (by omega) (by omega)

end ThirdLoop

end RockPaperScissors.MfccMatcher
