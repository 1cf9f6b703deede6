import RockPaperScissors.MelFilterBank

namespace RockPaperScissors.MelCepstrum

open RockPaperScissors.CalculateMfcc
open RockPaperScissors.Library.CountedLoop
open RockPaperScissors.MelCoefficients
open RockPaperScissors.MelFilterBank

section Cosines

theorem forLoop_add_eq_sum (f : Nat → ℝ) (n : Nat) :
    forLoop 1 (n + 1) (fun l sum => sum + f l) 0 = ∑ l ∈ Finset.range n, f (l + 1) := by
  refine forLoop_induction (P := fun l sum => sum = ∑ j ∈ Finset.range (l - 1), f (j + 1))
    (by omega) (by simp) ?_
  rintro l _ hl _ rfl
  obtain ⟨l, rfl⟩ := Nat.exists_eq_add_of_le' hl
  rw [Nat.add_sub_cancel, Nat.add_sub_cancel, Finset.sum_range_succ]

/-- Twice the sine of half an angle makes the cosines at odd multiples of it
telescope. -/
theorem sin_half_mul_sum_cos (θ : ℝ) (n : Nat) :
    2 * Real.sin (θ / 2) * ∑ l ∈ Finset.range n, Real.cos (θ * (((l + 1 : Nat) : ℝ) - 1 / 2)) =
      Real.sin (θ * n) := by
  induction n with
  | zero => simp
  | succ n ih =>
      have hupper : θ * ((n + 1 : Nat) : ℝ) =
          θ * (((n + 1 : Nat) : ℝ) - 1 / 2) + θ / 2 := by ring
      have hlower : θ * (n : ℝ) = θ * (((n + 1 : Nat) : ℝ) - 1 / 2) - θ / 2 := by
        push_cast
        ring
      rw [Finset.sum_range_succ, mul_add, ih, hupper, hlower, Real.sin_add, Real.sin_sub]
      ring

theorem sum_cos_eq_zero {m n : Nat} (hm : 0 < m) (hn : m < n) :
    ∑ l ∈ Finset.range n, Real.cos ((m * Real.pi) / n * (((l + 1 : Nat) : ℝ) - 1 / 2)) = 0 := by
  have hpos : (0 : ℝ) < n := Nat.cast_pos.mpr (by omega)
  have htelescope := sin_half_mul_sum_cos (m * Real.pi / n) n
  have hend : m * Real.pi / n * n = m * Real.pi := div_mul_cancel₀ _ hpos.ne'
  rw [hend, Real.sin_nat_mul_pi] at htelescope
  have hsin : 0 < Real.sin (m * Real.pi / n / 2) := by
    apply Real.sin_pos_of_pos_of_lt_pi
    · have := Real.pi_pos
      have : (0 : ℝ) < m := Nat.cast_pos.mpr hm
      positivity
    · have hratio : m * Real.pi / n < Real.pi := by
        rw [div_lt_iff₀ hpos, mul_comm]
        exact mul_lt_mul_of_pos_left (Nat.cast_lt.mpr hn) Real.pi_pos
      have := Real.pi_pos
      linarith
  rcases mul_eq_zero.mp htelescope with hzero | hzero
  · linarith
  · exact hzero

end Cosines

section Loudness

theorem innerSum_eq_sum (s : Nat → ℝ) (samplingRate binSize l : Nat) :
    innerSum realMath s samplingRate binSize l = ∑ k ∈ Finset.range (binSize - 1),
      |s k * getFilterParameter realMath samplingRate binSize k l| := by
  refine forLoop_induction (P := fun k sum => sum = ∑ j ∈ Finset.range k,
    |s j * getFilterParameter realMath samplingRate binSize j l|) (Nat.zero_le _) (by simp) ?_
  rintro k _ - - rfl
  rw [Finset.sum_range_succ]

theorem innerSum_scale {c : ℝ} (hc : 0 < c) (s : Nat → ℝ) (samplingRate binSize l : Nat) :
    innerSum realMath (fun k => c * s k) samplingRate binSize l =
      c * innerSum realMath s samplingRate binSize l := by
  rw [innerSum_eq_sum, innerSum_eq_sum, Finset.mul_sum]
  apply Finset.sum_congr rfl
  intro k _
  rw [mul_assoc, abs_mul, abs_of_pos hc]

theorem innerSum_pos {s : Nat → ℝ} {samplingRate binSize k l : Nat} (hk : k < binSize - 1)
    (hs : s k ≠ 0) (hfilter : 0 < getFilterParameter realMath samplingRate binSize k l) :
    0 < innerSum realMath s samplingRate binSize l := by
  rw [innerSum_eq_sum]
  refine Finset.sum_pos' (fun k _ => abs_nonneg _) ⟨k, Finset.mem_range.mpr hk, ?_⟩
  exact abs_pos.mpr (mul_ne_zero hs hfilter.ne')

theorem getCoefficient_eq_sum (s : Nat → ℝ) (samplingRate binSize : Nat) {numFilters m : Nat}
    (hm : m < numFilters)
    (hopen : ∀ l, 1 ≤ l → l ≤ numFilters → 0 < innerSum realMath s samplingRate binSize l) :
    getCoefficient realMath s samplingRate numFilters binSize m =
      normalizationFactor realMath numFilters m * ∑ l ∈ Finset.range numFilters,
        Real.log (innerSum realMath s samplingRate binSize (l + 1)) *
          Real.cos ((m * Real.pi) / numFilters * (((l + 1 : Nat) : ℝ) - 1 / 2)) := by
  rw [getCoefficient, if_neg (by omega), ← forLoop_add_eq_sum fun l =>
    Real.log (innerSum realMath s samplingRate binSize l) *
      Real.cos ((m * Real.pi) / numFilters * ((l : ℝ) - 1 / 2))]
  refine congrArg _ (forLoop_congr _ ?_)
  intro l sum hpos hl
  simp only [if_pos (hopen l hpos (by omega))]
  rfl

theorem normalizationFactor_zero_mul (numFilters : Nat) :
    normalizationFactor realMath numFilters 0 * numFilters = Real.sqrt numFilters := by
  have hroot : normalizationFactor realMath numFilters 0 = Real.sqrt (1 / numFilters) := if_pos rfl
  rw [hroot, one_div, Real.sqrt_inv]
  rcases Nat.eq_zero_or_pos numFilters with rfl | hpos
  · simp
  · have hsqrt : 0 < Real.sqrt numFilters := Real.sqrt_pos.mpr (Nat.cast_pos.mpr hpos)
    rw [inv_mul_eq_iff_eq_mul₀ hsqrt.ne']
    exact (Real.mul_self_sqrt (Nat.cast_nonneg _)).symm

/-- A spectrum that is `c` times as loud has the same coefficients apart from the
first, if every filter lets something through. -/
theorem getCoefficient_scale {c : ℝ} (hc : 0 < c) {s : Nat → ℝ}
    {samplingRate numFilters binSize : Nat}
    (hopen : ∀ l, 1 ≤ l → l ≤ numFilters → 0 < innerSum realMath s samplingRate binSize l)
    (m : Nat) :
    getCoefficient realMath (fun k => c * s k) samplingRate numFilters binSize m =
      getCoefficient realMath s samplingRate numFilters binSize m +
        if m = 0 then Real.sqrt numFilters * Real.log c else 0 := by
  rcases Nat.lt_or_ge m numFilters with hm | hm
  · have hopen' : ∀ l, 1 ≤ l → l ≤ numFilters →
        0 < innerSum realMath (fun k => c * s k) samplingRate binSize l := by
      intro l hpos hl
      rw [innerSum_scale hc]
      exact mul_pos hc (hopen l hpos hl)
    have hlog : ∀ l ∈ Finset.range numFilters,
        Real.log (innerSum realMath (fun k => c * s k) samplingRate binSize (l + 1)) =
          Real.log c + Real.log (innerSum realMath s samplingRate binSize (l + 1)) := by
      intro l hl
      have hlt := Finset.mem_range.mp hl
      rw [innerSum_scale hc, Real.log_mul hc.ne' (hopen (l + 1) (by omega) (by omega)).ne']
    rw [getCoefficient_eq_sum _ _ _ hm hopen', getCoefficient_eq_sum _ _ _ hm hopen,
      Finset.sum_congr rfl fun l hl => by rw [hlog l hl, add_mul], Finset.sum_add_distrib,
      ← Finset.mul_sum, mul_add, add_comm]
    congr 1
    rcases Nat.eq_zero_or_pos m with rfl | hpos
    · rw [if_pos rfl, ← normalizationFactor_zero_mul]
      simp only [Nat.cast_zero, zero_mul, zero_div, Real.cos_zero, Finset.sum_const,
        Finset.card_range, nsmul_eq_mul, mul_one]
      ring
    · rw [if_neg (by omega), sum_cos_eq_zero hpos hm, mul_zero, mul_zero]
  · rw [getCoefficient_of_numFilters_le realMath _ _ _ hm,
      getCoefficient_of_numFilters_le realMath _ _ _ hm, zero_add]
    rcases Nat.eq_zero_or_pos m with rfl | hpos
    · obtain rfl : numFilters = 0 := by omega
      simp
    · rw [if_neg (by omega)]

theorem getCoefficient_scale_line :
    getCoefficient realMath (fun k => 3 * if k = 1 then 1 else 0) 8192 1 128 0 =
      getCoefficient realMath (fun k => if k = 1 then 1 else 0) 8192 1 128 0 +
        if 0 = 0 then Real.sqrt (1 : Nat) * Real.log 3 else 0 := by
  refine getCoefficient_scale (by norm_num) ?_ 0
  intro l hpos hl
  obtain rfl : l = 1 := by omega
  have hbin : binFrequency 8192 128 1 = 64 := by norm_num [binFrequency]
  refine innerSum_pos (k := 1) (by decide) (by norm_num) ?_
  rw [getFilterParameter_eq_triangle _ _ _ le_rfl, hbin]
  refine mul_pos ((triangle_pos_iff le_rfl _).mpr ⟨?_, ?_⟩) (magnitudeFactor_pos le_rfl (by decide))
  · rw [centerFrequency_linear (by decide)]
    norm_num
  · rw [centerFrequency_linear (by decide)]
    norm_num

end Loudness

end RockPaperScissors.MelCepstrum
