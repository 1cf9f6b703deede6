import RockPaperScissors.MfccMatcher
import Mathlib.Analysis.InnerProductSpace.PiL2

namespace RockPaperScissors.DynamicTimeWarping

open RockPaperScissors.Library.WarpingPath
open RockPaperScissors.MfccMatcher

section Sentinel

variable {K : Type*} [Field K]

/-- A table of costs behind two rows and two columns of sentinels, as far as
row and column `n`. -/
structure IsPadded (n : Nat) (sentinel : K) (cost T : Nat → Nat → K) : Prop where
  corner : T 0 0 = 0
  row_zero : ∀ j, j + 1 < n → T 0 (j + 1) = sentinel
  column_zero : ∀ i, i + 1 < n → T (i + 1) 0 = sentinel
  row_one : ∀ j, j + 1 < n → T 1 (j + 1) = sentinel
  column_one : ∀ i, i + 1 < n → T (i + 1) 1 = sentinel
  inner : ∀ i j, i + 2 < n → j + 2 < n → T (i + 2) (j + 2) = cost i j

theorem initialTable_isPadded (sqrt : K → K) {n : Nat} (hn : 1 ≤ n)
    (stack : DistanceTable K) (input data : Nat → K) :
    IsPadded n infinity (fun i j => frameDistance sqrt input data (i + 1) (j + 1))
      (initialTable sqrt n stack input data) where
  corner := by
    rw [initialTable_apply sqrt hn, if_neg (by omega), if_pos ⟨rfl, rfl⟩]
  row_zero j hj := by
    rw [initialTable_apply sqrt hn, if_neg (by omega), if_neg (by omega),
      if_pos (by omega)]
  column_zero i hi := by
    rw [initialTable_apply sqrt hn, if_neg (by omega), if_neg (by omega),
      if_pos (by omega)]
  row_one j hj := by
    rw [initialTable_apply sqrt hn, if_neg (by omega), if_neg (by omega),
      if_pos (by omega)]
  column_one i hi := by
    rw [initialTable_apply sqrt hn, if_neg (by omega), if_neg (by omega),
      if_pos (by omega)]
  inner i j hi hj := by
    rw [initialTable_apply sqrt hn, if_pos (by omega)]
    rfl

variable [LinearOrder K] [IsStrictOrderedRing K]

theorem min_sentinel (s a b c d : K) :
    min (s + min a (s + b)) (s + min c (s + d)) =
      s + min (min a c) (s + min b d) := by
  rw [min_add_add_left, min_min_min_comm, min_add_add_left]

theorem least3_sentinel (s a b c a' b' c' : K) :
    least3 (s + min a (s + a')) (s + min b (s + b')) (s + min c (s + c')) =
      s + min (least3 a b c) (s + least3 a' b' c') := by
  simp only [least3, min_sentinel]

theorem add_sentinel (s x a b : K) :
    x + (s + min a (s + b)) = s + min (x + a) (s + (x + b)) := by
  rw [show s + (x + b) = x + (s + b) by ring, min_add_add_left]
  ring

theorem min_double_sentinel (s a b : K) :
    min (s + s) (s + min a (s + b)) = s + min a (s + min 0 b) := by
  rw [min_add_add_left, ← min_add_add_left s 0 b, add_zero, min_left_comm]

namespace IsPadded

variable {n : Nat} {s : K} {cost T : Nat → Nat → K}

theorem enteringCost_row_one (h : IsPadded n s cost T) (hs : 0 ≤ s) {j : Nat}
    (hj : j + 1 < n) : s ≤ enteringCost T 1 (j + 1) ∧
      (1 ≤ j → enteringCost T 1 (j + 1) = s + s) := by
  induction j with
  | zero =>
      have hcell : enteringCost T 1 1 = s := by
        simp only [enteringCost, least3, h.row_one 0 hj, h.row_zero 0 hj, h.corner,
          h.column_zero 0 hj]
        simp [hs]
      exact ⟨hcell.ge, by omega⟩
  | succ j ih =>
      have hbefore : s ≤ enteringCost T 1 (j + 1) := (ih (by omega)).1
      have hcell : enteringCost T 1 (j + 2) = s + s := by
        rw [enteringCost, least3, h.row_one (j + 1) hj, enteringCost, enteringCost,
          h.row_zero (j + 1) hj, h.row_zero j (by omega), min_self,
          min_eq_left hbefore]
      exact ⟨by rw [hcell]; exact le_add_of_nonneg_right hs, fun _ => hcell⟩

theorem enteringCost_column_one (h : IsPadded n s cost T) (hs : 0 ≤ s) {i : Nat}
    (hi : i + 1 < n) : s ≤ enteringCost T (i + 1) 1 ∧
      (1 ≤ i → enteringCost T (i + 1) 1 = s + s) := by
  induction i with
  | zero => exact ⟨(h.enteringCost_row_one hs hi).1, by omega⟩
  | succ i ih =>
      have hbefore : s ≤ enteringCost T (i + 1) 1 := (ih (by omega)).1
      have hcell : enteringCost T (i + 2) 1 = s + s := by
        rw [enteringCost, least3, h.column_one (i + 1) hi, enteringCost,
          enteringCost, h.column_zero (i + 1) hi, h.column_zero i (by omega),
          min_eq_right hbefore, min_self]
      exact ⟨by rw [hcell]; exact le_add_of_nonneg_right hs, fun _ => hcell⟩

/-- A path through the padding pays one sentinel when it enters the inner grid
at its corner and two when it enters anywhere else on the inner border. -/
theorem enteringCost_eq (h : IsPadded n s cost T) (hs : 0 ≤ s) (i j : Nat)
    (hi : i + 2 < n) (hj : j + 2 < n) :
    enteringCost T (i + 2) (j + 2) =
      s + min (cornerCost cost i j) (s + borderCost cost i j) := by
  induction i, j using cornerCost.induct with
  | case1 =>
      have hcorner : enteringCost T 1 1 = s := by
        simp only [enteringCost, least3, h.row_one 0 (by omega), h.row_zero 0 (by omega),
          h.corner, h.column_zero 0 (by omega)]
        simp [hs]
      rw [enteringCost, h.inner 0 0 hi hj, cornerCost, borderCost, hcorner,
        (h.enteringCost_row_one hs (by omega)).2 le_rfl,
        (h.enteringCost_column_one hs (by omega)).2 le_rfl, least3,
        min_eq_right (le_add_of_nonneg_right hs),
        min_eq_left (le_add_of_nonneg_right hs), min_eq_left (le_add_of_nonneg_left hs),
        add_comm]
  | case2 j ih =>
      rw [enteringCost, h.inner 0 (j + 1) hi hj, cornerCost, borderCost,
        (h.enteringCost_row_one hs (by omega)).2 (by omega),
        (h.enteringCost_row_one hs (by omega)).2 (by omega),
        ih hi (by omega), least3, min_self, min_double_sentinel, add_sentinel]
  | case3 i ih =>
      rw [enteringCost, h.inner (i + 1) 0 hi hj, cornerCost, borderCost,
        (h.enteringCost_column_one hs (by omega)).2 (by omega),
        (h.enteringCost_column_one hs (by omega)).2 (by omega),
        ih (by omega) hj, least3, min_assoc, min_self, min_comm, min_double_sentinel,
        add_sentinel]
  | case4 i j ihUp ihDiagonal ihLeft =>
      rw [enteringCost, h.inner (i + 1) (j + 1) hi hj, cornerCost, borderCost,
        ihUp (by omega) hj, ihDiagonal (by omega) (by omega), ihLeft hi (by omega),
        least3_sentinel, add_sentinel]

end IsPadded

/-- What `compare_mfcc_buffers` returns: frame 0 and frame `n - 1` of both
buffers never enter the table cells the result depends on. -/
theorem compareMfccBuffers_eq (sqrt : K → K) (n : Nat) (stack : DistanceTable K)
    (input data : Nat → K) :
    compareMfccBuffers sqrt (n + 3) stack input data =
      infinity +
        min (cornerCost (fun i j => frameDistance sqrt input data (i + 1) (j + 1)) n n)
          (infinity +
            borderCost (fun i j => frameDistance sqrt input data (i + 1) (j + 1)) n n) := by
  have hinfinity : (0 : K) ≤ infinity := by norm_num [infinity]
  rw [compareMfccBuffers_eq_enteringCost sqrt (by omega)]
  exact (initialTable_isPadded sqrt (by omega) stack input data).enteringCost_eq
    hinfinity n n (by omega) (by omega)

end Sentinel

section Specification

noncomputable def frame (buffer : Nat → ℝ) (i : Nat) : EuclideanSpace ℝ (Fin numMfcc) :=
  WithLp.toLp _ fun k => buffer (i * numMfcc + k)

noncomputable def frameDist (input data : Nat → ℝ) (i j : Nat) : ℝ :=
  dist (frame input i) (frame data j)

theorem frameDistance_sqrt (input data : Nat → ℝ) (i j : Nat) :
    frameDistance Real.sqrt input data i j = frameDist input data i j := by
  rw [frameDist, EuclideanSpace.dist_eq, frameDistance, Finset.sum_range]
  simp [frame, Real.dist_eq, sq_abs]

/-- Dynamic time warping over all frames: the least sum of frame distances
along a monotone path from the pair of first frames to the pair of last ones. -/
noncomputable def dtw (input data : Nat → ℝ) : ℝ :=
  sInf (pathCosts (frameDist input data) corner Set.univ
    (numFramesMfcc - 1, numFramesMfcc - 1))

noncomputable def laterFrameDist (input data : Nat → ℝ) (i j : Nat) : ℝ :=
  frameDist input data (i + 1) (j + 1)

/-- Dynamic time warping without the first and the last frame. -/
noncomputable def innerDtw (input data : Nat → ℝ) : ℝ :=
  sInf (pathCosts (laterFrameDist input data) corner Set.univ
    (numFramesMfcc - 3, numFramesMfcc - 3))

noncomputable def innerBorderDtw (input data : Nat → ℝ) : ℝ :=
  sInf (pathCosts (laterFrameDist input data) border Set.univ
    (numFramesMfcc - 3, numFramesMfcc - 3))

theorem dtw_eq_cornerCost (input data : Nat → ℝ) :
    dtw input data = cornerCost (frameDist input data) 21 21 :=
  (isLeast_cornerCost _ _ _).csInf_eq

theorem innerDtw_eq_cornerCost (input data : Nat → ℝ) :
    innerDtw input data = cornerCost (laterFrameDist input data) 19 19 :=
  (isLeast_cornerCost _ _ _).csInf_eq

theorem innerBorderDtw_eq_borderCost (input data : Nat → ℝ) :
    innerBorderDtw input data = borderCost (laterFrameDist input data) 19 19 :=
  (isLeast_borderCost _ _ _).csInf_eq

theorem isLeast_dtw (input data : Nat → ℝ) :
    IsLeast (pathCosts (frameDist input data) corner Set.univ
      (numFramesMfcc - 1, numFramesMfcc - 1)) (dtw input data) := by
  rw [dtw_eq_cornerCost]
  exact isLeast_cornerCost _ _ _

theorem compareMfccBuffers_eq_innerDtw (stack : DistanceTable ℝ) (input data : Nat → ℝ) :
    compareMfccBuffers Real.sqrt numFramesMfcc stack input data =
      infinity + min (innerDtw input data) (infinity + innerBorderDtw input data) := by
  have h := compareMfccBuffers_eq Real.sqrt 19 stack input data
  simp only [frameDistance_sqrt] at h
  rw [innerDtw_eq_cornerCost, innerBorderDtw_eq_borderCost]
  exact h

theorem frameDist_nonneg (input data : Nat → ℝ) (i j : Nat) :
    0 ≤ frameDist input data i j :=
  dist_nonneg

theorem frameDist_self (buffer : Nat → ℝ) (i : Nat) : frameDist buffer buffer i i = 0 :=
  dist_self _

theorem dtw_self (buffer : Nat → ℝ) : dtw buffer buffer = 0 := by
  rw [dtw_eq_cornerCost]
  exact cornerCost_diagonal_eq_zero (frameDist_nonneg _ _) (frameDist_self _) 21

theorem innerDtw_self (buffer : Nat → ℝ) : innerDtw buffer buffer = 0 := by
  rw [innerDtw_eq_cornerCost]
  apply cornerCost_diagonal_eq_zero
  · intro i j
    exact frameDist_nonneg _ _ _ _
  · intro i
    exact frameDist_self _ _

theorem innerBorderDtw_nonneg (input data : Nat → ℝ) : 0 ≤ innerBorderDtw input data := by
  rw [innerBorderDtw_eq_borderCost]
  exact borderCost_nonneg (fun i j => frameDist_nonneg _ _ _ _) 19 19

theorem infinity_nonneg : (0 : ℝ) ≤ infinity := by
  norm_num [infinity]

theorem compareMfccBuffers_self (stack : DistanceTable ℝ) (buffer : Nat → ℝ) :
    compareMfccBuffers Real.sqrt numFramesMfcc stack buffer buffer = infinity := by
  have hborder : 0 ≤ infinity + innerBorderDtw buffer buffer :=
    add_nonneg infinity_nonneg (innerBorderDtw_nonneg buffer buffer)
  rw [compareMfccBuffers_eq_innerDtw, innerDtw_self, min_eq_left hborder, add_zero]

theorem innerDtw_nonneg (input data : Nat → ℝ) : 0 ≤ innerDtw input data := by
  rw [innerDtw_eq_cornerCost]
  apply cornerCost_nonneg
  intro i j
  exact frameDist_nonneg _ _ _ _

theorem infinity_le_compareMfccBuffers (stack : DistanceTable ℝ) (input data : Nat → ℝ) :
    infinity ≤ compareMfccBuffers Real.sqrt numFramesMfcc stack input data := by
  have hborder : 0 ≤ infinity + innerBorderDtw input data :=
    add_nonneg infinity_nonneg (innerBorderDtw_nonneg input data)
  rw [compareMfccBuffers_eq_innerDtw]
  exact le_add_of_nonneg_right (le_min (innerDtw_nonneg input data) hborder)

/-- The matcher is a dissimilarity, whatever the stack holds at each call. -/
theorem compareMfccBuffers_dissimilarity (stack stack' : DistanceTable ℝ)
    (x y : Nat → ℝ) :
    compareMfccBuffers Real.sqrt numFramesMfcc stack x y =
        compareMfccBuffers Real.sqrt numFramesMfcc stack' y x ∧
      compareMfccBuffers Real.sqrt numFramesMfcc stack x x ≤
        compareMfccBuffers Real.sqrt numFramesMfcc stack' x y := by
  constructor
  · exact compareMfccBuffers_swap Real.sqrt (by decide) stack stack' x y
  · rw [compareMfccBuffers_self]
    exact infinity_le_compareMfccBuffers stack' x y

/-- The only constant that can separate the result from dynamic time warping
is the sentinel, and it does so on exactly the buffers on which the frames the
code leaves out make no difference. -/
theorem compareMfccBuffers_eq_dtw_iff (c : ℝ) (stack : DistanceTable ℝ)
    (input data : Nat → ℝ) :
    (compareMfccBuffers Real.sqrt numFramesMfcc stack input input =
        c + dtw input input ↔ c = infinity) ∧
      (compareMfccBuffers Real.sqrt numFramesMfcc stack input data =
          infinity + dtw input data ↔
        min (innerDtw input data) (infinity + innerBorderDtw input data) =
          dtw input data) := by
  constructor
  · rw [compareMfccBuffers_self, dtw_self, add_zero]
    exact eq_comm
  · rw [compareMfccBuffers_eq_innerDtw]
    exact add_right_inj infinity

def impulse : Nat → ℝ := Pi.single 0 1

theorem laterFrameDist_impulse (i j : Nat) : laterFrameDist 0 impulse i j = 0 := by
  rw [laterFrameDist, ← frameDistance_sqrt, frameDistance]
  simp [impulse, numMfcc]

theorem one_le_dtw_impulse : 1 ≤ dtw 0 impulse := by
  have hfirst : frameDist 0 impulse 0 0 = 1 := by
    rw [← frameDistance_sqrt, frameDistance]
    simp [impulse, numMfcc, Finset.sum_range_succ]
  rw [dtw_eq_cornerCost, ← hfirst]
  exact corner_le_cornerCost (frameDist_nonneg _ _) 21 21

theorem not_exists_compareMfccBuffers_eq_dtw :
    ¬ ∃ c : ℝ, ∀ (stack : DistanceTable ℝ) (input data : Nat → ℝ),
      compareMfccBuffers Real.sqrt numFramesMfcc stack input data =
        c + dtw input data := by
  rintro ⟨c, h⟩
  have hinner : innerDtw 0 impulse = 0 := by
    rw [innerDtw_eq_cornerCost]
    apply cornerCost_diagonal_eq_zero
    · intro i j
      exact frameDist_nonneg _ _ _ _
    · intro i
      exact laterFrameDist_impulse i i
  have hborder : 0 ≤ infinity + innerBorderDtw 0 impulse :=
    add_nonneg infinity_nonneg (innerBorderDtw_nonneg 0 impulse)
  have hsilence := h 0 0 0
  have himpulse := h 0 0 impulse
  rw [compareMfccBuffers_self, dtw_self] at hsilence
  rw [compareMfccBuffers_eq_innerDtw, hinner, min_eq_left hborder] at himpulse
  linarith [one_le_dtw_impulse]

end Specification

end RockPaperScissors.DynamicTimeWarping
