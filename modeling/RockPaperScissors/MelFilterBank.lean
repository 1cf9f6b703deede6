import RockPaperScissors.CalculateMfcc

namespace RockPaperScissors.MelFilterBank

open RockPaperScissors.CalculateMfcc
open RockPaperScissors.Library.CountedLoop
open RockPaperScissors.MelCoefficients

section CenterFrequencies

theorem centerFrequency_linear {l : Nat} (hl : l ≤ 14) :
    getCenterFrequency realMath l = 200 * l / 3 := by
  rcases Nat.eq_zero_or_pos l with rfl | hpos
  · simp [getCenterFrequency]
  · rw [getCenterFrequency, if_neg (by omega), if_pos ⟨hpos, hl⟩]

theorem centerFrequency_exponential {l : Nat} (hl : 15 ≤ l) :
    getCenterFrequency realMath l =
      (10711703 / 10000000 : ℝ) ^ (l - 14 : Nat) * (10734 / 10) := by
  rw [getCenterFrequency, if_neg (by omega), if_neg (by omega)]
  have hexponent : (l : ℝ) - 14 = ((l - 14 : Nat) : ℝ) := by
    rw [Nat.cast_sub (by omega)]
    norm_num
  rw [hexponent]
  simp only [realMath, Real.rpow_natCast]

theorem centerFrequency_strictMono : StrictMono (getCenterFrequency realMath) := by
  apply strictMono_nat_of_lt_succ
  intro l
  rcases Nat.lt_trichotomy l 14 with hlt | rfl | hgt
  · rw [centerFrequency_linear (by omega), centerFrequency_linear (by omega)]
    push_cast
    linarith
  · rw [centerFrequency_linear (by omega), centerFrequency_exponential (by omega)]
    norm_num
  · have hsplit : l + 1 - 14 = l - 14 + 1 := by omega
    rw [centerFrequency_exponential (by omega), centerFrequency_exponential (by omega), hsplit,
      pow_succ]
    have hpow : (0 : ℝ) < (10711703 / 10000000) ^ (l - 14) := by positivity
    nlinarith

theorem centerFrequency_zero : getCenterFrequency realMath 0 = 0 := by
  simp [getCenterFrequency]

theorem magnitudeFactor_pos {l : Nat} (hpos : 1 ≤ l) (hl : l ≤ 48) :
    0 < getMagnitudeFactor realMath l := by
  rw [getMagnitudeFactor]
  split_ifs with hlinear hexponential
  · norm_num
  · have hlt := centerFrequency_strictMono (show l - 1 < l + 1 by omega)
    exact div_pos two_pos (sub_pos.mpr hlt)
  · omega

end CenterFrequencies

section Filters

/-- The frequency of a bin, as the code rounds it. -/
def binFrequency (samplingRate binSize k : Nat) : ℝ :=
  ((k * samplingRate % 2 ^ 32 / binSize : Nat) : ℝ)

theorem binFrequency_nonneg (samplingRate binSize k : Nat) :
    0 ≤ binFrequency samplingRate binSize k :=
  Nat.cast_nonneg _

/-- What a filter is for: a triangle over the neighbouring bands with its peak at
its own. -/
noncomputable def triangle (l : Nat) (f : ℝ) : ℝ :=
  let prev := getCenterFrequency realMath (l - 1)
  let this := getCenterFrequency realMath l
  let next := getCenterFrequency realMath (l + 1)
  max 0 (min ((f - prev) / (this - prev)) ((next - f) / (next - this)))

variable (samplingRate binSize k : Nat)

theorem max_min_slopes {prev this next f : ℝ} (hprev : prev < this) (hnext : this < next) :
    max 0 (min ((f - prev) / (this - prev)) ((next - f) / (next - this))) =
      if f < prev then 0
      else if f < this then (f - prev) / (this - prev)
      else if f < next then (next - f) / (next - this)
      else 0 := by
  have hrise : 0 < this - prev := sub_pos.mpr hprev
  have hfall : 0 < next - this := sub_pos.mpr hnext
  split_ifs with hbelow hleft hright
  · apply max_eq_left
    exact (min_le_left _ _).trans (div_nonpos_of_nonpos_of_nonneg (by linarith) hrise.le)
  · have hone : (f - prev) / (this - prev) ≤ 1 := (div_le_one hrise).mpr (by linarith)
    have hone' : 1 ≤ (next - f) / (next - this) := (one_le_div hfall).mpr (by linarith)
    rw [min_eq_left (hone.trans hone')]
    exact max_eq_right (div_nonneg (by linarith) hrise.le)
  · have hone : 1 ≤ (f - prev) / (this - prev) := (one_le_div hrise).mpr (by linarith)
    have hone' : (next - f) / (next - this) ≤ 1 := (div_le_one hfall).mpr (by linarith)
    rw [min_eq_right (hone'.trans hone)]
    exact max_eq_right (div_nonneg (by linarith) hfall.le)
  · apply max_eq_left
    exact (min_le_right _ _).trans (div_nonpos_of_nonpos_of_nonneg (by linarith) hfall.le)

theorem getFilterParameter_eq_triangle {l : Nat} (hl : 1 ≤ l) :
    getFilterParameter realMath samplingRate binSize k l =
      triangle l (binFrequency samplingRate binSize k) * getMagnitudeFactor realMath l := by
  have hprev := centerFrequency_strictMono (show l - 1 < l by omega)
  have hnext := centerFrequency_strictMono (Nat.lt_succ_self l)
  have hnonneg := binFrequency_nonneg samplingRate binSize k
  rw [triangle, max_min_slopes hprev hnext, getFilterParameter, binFrequency]
  rw [binFrequency] at hnonneg
  generalize ((k * samplingRate % 2 ^ 32 / binSize : Nat) : ℝ) = f at hnonneg ⊢
  by_cases hbelow : f < getCenterFrequency realMath (l - 1)
  · rw [if_pos ⟨hnonneg, hbelow⟩, if_pos hbelow, zero_mul]
  · rw [if_neg (fun h => hbelow h.2), if_neg hbelow]
    by_cases hleft : f < getCenterFrequency realMath l
    · rw [if_pos ⟨not_lt.mp hbelow, hleft⟩, if_pos hleft]
    · rw [if_neg (fun h => hleft h.2), if_neg hleft]
      by_cases hright : f < getCenterFrequency realMath (l + 1)
      · rw [if_pos ⟨not_lt.mp hleft, hright⟩, if_pos hright, ← neg_div_neg_eq, neg_sub, neg_sub]
      · rw [if_neg (fun h => hright h.2), if_neg hright, zero_mul]

theorem triangle_nonneg (l : Nat) (f : ℝ) : 0 ≤ triangle l f :=
  le_max_left _ _

/-- A filter is open strictly between the neighbouring bands. -/
theorem triangle_pos_iff {l : Nat} (hl : 1 ≤ l) (f : ℝ) :
    0 < triangle l f ↔
      getCenterFrequency realMath (l - 1) < f ∧ f < getCenterFrequency realMath (l + 1) := by
  have hprev := centerFrequency_strictMono (show l - 1 < l by omega)
  have hnext := centerFrequency_strictMono (Nat.lt_succ_self l)
  have hrise := sub_pos.mpr hprev
  have hfall := sub_pos.mpr hnext
  simp only [triangle, lt_max_iff, lt_irrefl, false_or, lt_min_iff, div_pos_iff_of_pos_right hrise,
    div_pos_iff_of_pos_right hfall, sub_pos]

theorem triangle_le_one {l : Nat} (hl : 1 ≤ l) (f : ℝ) : triangle l f ≤ 1 := by
  have hrise := sub_pos.mpr (centerFrequency_strictMono (show l - 1 < l by omega))
  have hfall := sub_pos.mpr (centerFrequency_strictMono (Nat.lt_succ_self l))
  refine max_le zero_le_one ?_
  rcases le_total f (getCenterFrequency realMath l) with hle | hle
  · exact (min_le_left _ _).trans ((div_le_one hrise).mpr (by linarith))
  · exact (min_le_right _ _).trans ((div_le_one hfall).mpr (by linarith))

/-- A filter weighs the frequencies strictly between its neighbours and no others,
none of them more than its magnitude factor. -/
theorem getFilterParameter_support (_hsize : 0 < binSize) {l : Nat} (hl : 1 ≤ l)
    (hband : l ≤ 48) :
    0 ≤ getFilterParameter realMath samplingRate binSize k l ∧
      getFilterParameter realMath samplingRate binSize k l ≤ getMagnitudeFactor realMath l ∧
      (0 < getFilterParameter realMath samplingRate binSize k l ↔
        getCenterFrequency realMath (l - 1) < binFrequency samplingRate binSize k ∧
          binFrequency samplingRate binSize k < getCenterFrequency realMath (l + 1)) := by
  have hfactor := magnitudeFactor_pos hl hband
  rw [getFilterParameter_eq_triangle samplingRate binSize k hl]
  refine ⟨mul_nonneg (triangle_nonneg _ _) hfactor.le, ?_, ?_⟩
  · exact mul_le_of_le_one_left hfactor.le (triangle_le_one hl _)
  · rw [mul_pos_iff_of_pos_right hfactor, triangle_pos_iff hl]

theorem getFilterParameter_support_first :
    0 ≤ getFilterParameter realMath 8192 1024 7 1 ∧
      getFilterParameter realMath 8192 1024 7 1 ≤ getMagnitudeFactor realMath 1 ∧
      (0 < getFilterParameter realMath 8192 1024 7 1 ↔
        getCenterFrequency realMath (1 - 1) < binFrequency 8192 1024 7 ∧
          binFrequency 8192 1024 7 < getCenterFrequency realMath (1 + 1)) :=
  getFilterParameter_support 8192 1024 7 (by decide) (by decide) (by decide)

end Filters

section Weights

theorem triangle_rising {l : Nat} (hl : 1 ≤ l) {f : ℝ}
    (hprev : getCenterFrequency realMath (l - 1) ≤ f) (hthis : f ≤ getCenterFrequency realMath l) :
    triangle l f = (f - getCenterFrequency realMath (l - 1)) /
      (getCenterFrequency realMath l - getCenterFrequency realMath (l - 1)) := by
  have hrise := sub_pos.mpr (centerFrequency_strictMono (show l - 1 < l by omega))
  have hfall := sub_pos.mpr (centerFrequency_strictMono (Nat.lt_succ_self l))
  have hone := (div_le_one hrise).mpr (sub_le_sub_right hthis (getCenterFrequency realMath (l - 1)))
  have hone' := (one_le_div hfall).mpr (sub_le_sub_left hthis (getCenterFrequency realMath (l + 1)))
  rw [triangle, min_eq_left (hone.trans hone')]
  exact max_eq_right (div_nonneg (sub_nonneg.mpr hprev) hrise.le)

theorem triangle_falling {l : Nat} (hl : 1 ≤ l) {f : ℝ}
    (hthis : getCenterFrequency realMath l ≤ f) (hnext : f ≤ getCenterFrequency realMath (l + 1)) :
    triangle l f = (getCenterFrequency realMath (l + 1) - f) /
      (getCenterFrequency realMath (l + 1) - getCenterFrequency realMath l) := by
  have hrise := sub_pos.mpr (centerFrequency_strictMono (show l - 1 < l by omega))
  have hfall := sub_pos.mpr (centerFrequency_strictMono (Nat.lt_succ_self l))
  have hone := (one_le_div hrise).mpr (sub_le_sub_right hthis (getCenterFrequency realMath (l - 1)))
  have hone' := (div_le_one hfall).mpr (sub_le_sub_left hthis (getCenterFrequency realMath (l + 1)))
  rw [triangle, min_eq_right (hone'.trans hone)]
  exact max_eq_right (div_nonneg (sub_nonneg.mpr hnext) hfall.le)

theorem triangle_eq_zero {l : Nat} (hl : 1 ≤ l) {f : ℝ}
    (h : f ≤ getCenterFrequency realMath (l - 1) ∨ getCenterFrequency realMath (l + 1) ≤ f) :
    triangle l f = 0 := by
  apply le_antisymm _ (triangle_nonneg l f)
  by_contra hpos
  obtain ⟨hprev, hnext⟩ := (triangle_pos_iff hl f).mp (not_le.mp hpos)
  rcases h with h | h <;> linarith

/-- Neighbouring filters of the linear bands add up to one. -/
theorem sum_triangle {L : Nat} (hL : 1 ≤ L) (hlinear : L ≤ 14) {f : ℝ}
    (hfirst : getCenterFrequency realMath 1 ≤ f) (hlast : f ≤ getCenterFrequency realMath L) :
    ∑ l ∈ Finset.range L, triangle (l + 1) f = 1 := by
  induction L, hL using Nat.le_induction with
  | base =>
      have hpeak : f = getCenterFrequency realMath 1 := le_antisymm hlast hfirst
      have hrise := sub_pos.mpr (centerFrequency_strictMono (show 0 < 1 by decide))
      rw [Finset.sum_range_one, triangle_rising le_rfl (by rw [hpeak]; linarith) hpeak.le, hpeak]
      exact div_self hrise.ne'
  | succ L hL ih =>
      rw [Finset.sum_range_succ]
      rcases le_or_gt f (getCenterFrequency realMath L) with hle | hgt
      · rw [ih (by omega) hle, triangle_eq_zero (by omega) (.inl hle), add_zero]
      · obtain ⟨L, rfl⟩ := Nat.exists_eq_add_of_le' hL
        have hzero : ∑ l ∈ Finset.range L, triangle (l + 1) f = 0 := by
          apply Finset.sum_eq_zero
          intro l hl
          apply triangle_eq_zero (by omega)
          refine .inr (le_trans ?_ hgt.le)
          have hlt := Finset.mem_range.mp hl
          exact centerFrequency_strictMono.monotone (by omega)
        rw [Finset.sum_range_succ, hzero, zero_add, triangle_falling (by omega) hgt.le hlast,
          triangle_rising (by omega) hgt.le hlast, Nat.add_sub_cancel, ← add_div]
        have hwidth := sub_pos.mpr (centerFrequency_strictMono (Nat.lt_succ_self (L + 1)))
        rw [div_eq_one_iff_eq hwidth.ne']
        ring

/-- Between the first and the last band, every bin is given the same weight in
all filters together. -/
theorem sum_getFilterParameter {L : Nat} (hL : 1 ≤ L) (hlinear : L ≤ 14)
    {samplingRate binSize k : Nat}
    (hfirst : getCenterFrequency realMath 1 ≤ binFrequency samplingRate binSize k)
    (hlast : binFrequency samplingRate binSize k ≤ getCenterFrequency realMath L) :
    ∑ l ∈ Finset.range L, getFilterParameter realMath samplingRate binSize k (l + 1) =
      15 / 1000 := by
  calc ∑ l ∈ Finset.range L, getFilterParameter realMath samplingRate binSize k (l + 1)
      = ∑ l ∈ Finset.range L, triangle (l + 1) (binFrequency samplingRate binSize k) *
          (15 / 1000) := by
        apply Finset.sum_congr rfl
        intro l hl
        have hlt := Finset.mem_range.mp hl
        rw [getFilterParameter_eq_triangle _ _ _ (by omega), getMagnitudeFactor,
          if_pos (by omega)]
    _ = 15 / 1000 := by
        rw [← Finset.sum_mul, sum_triangle hL hlinear hfirst hlast, one_mul]

theorem sum_getFilterParameter_hundred :
    ∑ l ∈ Finset.range 12, getFilterParameter realMath 8192 1024 50 (l + 1) = 15 / 1000 := by
  have hbin : binFrequency 8192 1024 50 = 400 := by norm_num [binFrequency]
  apply sum_getFilterParameter (by decide) (by decide)
  · rw [hbin, centerFrequency_linear (by decide)]
    norm_num
  · rw [hbin, centerFrequency_linear (by decide)]
    norm_num

end Weights

section Passband

theorem innerSum_congr_passband {s s' : Nat → ℝ} {samplingRate binSize numFilters l : Nat}
    (hpos : 1 ≤ l) (hl : l ≤ numFilters)
    (h : ∀ k, k + 1 < binSize → 0 < binFrequency samplingRate binSize k →
      binFrequency samplingRate binSize k < getCenterFrequency realMath (numFilters + 1) →
        |s k| = |s' k|) :
    innerSum realMath s samplingRate binSize l = innerSum realMath s' samplingRate binSize l := by
  apply forLoop_congr
  intro k sum _ hk
  rw [getFilterParameter_eq_triangle _ _ _ hpos]
  rcases (triangle_nonneg l (binFrequency samplingRate binSize k)).eq_or_lt with hzero | hopen
  · rw [← hzero, zero_mul, mul_zero, mul_zero]
  · obtain ⟨hprev, hnext⟩ := (triangle_pos_iff hpos _).mp hopen
    have hzero : 0 ≤ getCenterFrequency realMath (l - 1) := by
      rw [← centerFrequency_zero]
      exact centerFrequency_strictMono.monotone (Nat.zero_le _)
    have hlast := centerFrequency_strictMono.monotone (show l + 1 ≤ numFilters + 1 by omega)
    rw [abs_mul (s k), abs_mul (s' k), h k (by omega) (hzero.trans_lt hprev)
      (hnext.trans_le hlast)]

theorem getCoefficient_congr_passband {s s' : Nat → ℝ} {samplingRate binSize numFilters : Nat}
    (h : ∀ k, k + 1 < binSize → 0 < binFrequency samplingRate binSize k →
      binFrequency samplingRate binSize k < getCenterFrequency realMath (numFilters + 1) →
        |s k| = |s' k|) (m : Nat) :
    getCoefficient realMath s samplingRate numFilters binSize m =
      getCoefficient realMath s' samplingRate numFilters binSize m := by
  simp only [getCoefficient]
  congr 2
  apply forLoop_congr
  intro l outerSum hpos hl
  rw [innerSum_congr_passband hpos (by omega) h]

theorem binFrequency_program {k : Nat} (hk : k < fftSize) :
    binFrequency 8192 fftSize k = 8 * k := by
  have hfits : k * 8192 % 2 ^ 32 / fftSize = 8 * k := by
    rw [fftSize] at hk ⊢
    omega
  rw [binFrequency, hfits]
  push_cast
  rfl

/-- Two signals have the same coefficients when their spectra agree in the bins 1
to 108, in every frame. -/
theorem calculateMfcc_passband (kissFft : KissFft ℝ) {inputBuffer inputBuffer' : Nat → ℝ}
    {signalLength : Nat}
    (h : ∀ frameNum k, frameNum < (numFrames signalLength).toNat → 1 ≤ k → k ≤ 108 →
      magnitudeSpectrum realMath kissFft inputBuffer frameNum k =
        magnitudeSpectrum realMath kissFft inputBuffer' frameNum k)
    (mfccBuffer : Nat → ℝ) :
    calculateMfcc realMath kissFft (getCoefficient realMath) inputBuffer signalLength
        mfccBuffer =
      calculateMfcc realMath kissFft (getCoefficient realMath) inputBuffer' signalLength
        mfccBuffer := by
  apply forLoop_congr
  intro frameNum mfccBuffer _ hframe
  apply forLoop_congr
  intro m mfccBuffer _ _
  have hcoefficient : getCoefficient realMath
      (magnitudeSpectrum realMath kissFft inputBuffer frameNum) 8192 numFilters fftSize m =
      getCoefficient realMath
        (magnitudeSpectrum realMath kissFft inputBuffer' frameNum) 8192 numFilters fftSize m := by
    refine getCoefficient_congr_passband ?_ m
    intro k hk hpos hlast
    rw [binFrequency_program (by omega)] at hpos hlast
    rw [numFilters, centerFrequency_linear (by decide)] at hlast
    have hone : 1 ≤ k := by
      by_contra hzero
      rw [Nat.lt_one_iff.mp (not_le.mp hzero)] at hpos
      simp at hpos
    have hbound : k ≤ 108 := by
      have hlt : (k : ℝ) < 109 := by
        push_cast at hlast
        linarith
      have := Nat.cast_lt.mp (show (k : ℝ) < (109 : Nat) by exact_mod_cast hlt)
      omega
    rw [h frameNum k hframe hone hbound]
  rw [hcoefficient]

theorem calculateMfcc_passband_ramp :
    calculateMfcc realMath (discreteFourier fftSize) (getCoefficient realMath)
        (fun i => -1 * (i : ℝ)) 2048 (fun _ => 0) =
      calculateMfcc realMath (discreteFourier fftSize) (getCoefficient realMath)
        (fun i => (i : ℝ)) 2048 (fun _ => 0) := by
  apply calculateMfcc_passband
  intro frameNum k _ _ _
  rw [magnitudeSpectrum_of_sign realMath (isLinearMap_discreteFourier fftSize)
    (show (-1 : ℝ) * -1 = 1 by norm_num) (fun i _ => rfl)]

end Passband

end RockPaperScissors.MelFilterBank
