import RockPaperScissors.ReferenceStores
import Mathlib.Data.Set.Card

namespace RockPaperScissors.FrameSplitting

open RockPaperScissors.CalculateMfcc
open RockPaperScissors.Library.CountedLoop
open RockPaperScissors.MelCoefficients
open RockPaperScissors.MfccMatcher
open RockPaperScissors.ReferenceStores

section Code

variable {K : Type*} [Field K] (libm : MathLibrary K) (kissFft : KissFft K)
variable (getCoefficient : (Nat → K) → Nat → Nat → Nat → Nat → K)

/-- What a call does to the two buffers of its caller: each `memcpy` with its
first index and its number of elements, each assignment with its index and its
value. -/
structure Accesses (K : Type*) where
  copies : List (Nat × Nat)
  stores : List (Nat × K)

/-- The loops of `calculate_mfcc` with a record of their accesses in place of
the memory. -/
def calculateMfccAccesses (inputBuffer : Nat → K) (signalLength : Nat) : Accesses K :=
  forLoop 0 (numFrames signalLength).toNat (fun frameNum accesses =>
    forLoop 0 numMfcc (fun m accesses =>
      { accesses with
        stores := accesses.stores ++ [(frameNum * numMfcc + m,
          getCoefficient (magnitudeSpectrum libm kissFft inputBuffer frameNum) 8192
            numFilters fftSize m)] })
      { accesses with copies := accesses.copies ++ [(frameNum * fftShift, fftSize)] })
    { copies := [], stores := [] }

end Code

section Spec

/-- A signal of `signalLength` elements, its frames and a buffer that `main`
allocates for their coefficients. -/
structure SplitsExactly {K : Type*} (signalLength : Nat) (accesses : Accesses K) : Prop where
  copies_within : ∀ copy ∈ accesses.copies, ∀ i, i < copy.2 → copy.1 + i < signalLength
  copies_all : accesses.copies.length =
    Set.ncard {f : Nat | f * fftShift + fftSize ≤ signalLength}
  stores_once : ∀ k, k < numMfcc * accesses.copies.length →
    (accesses.stores.map Prod.fst).count k = 1
  stores_within : ∀ store ∈ accesses.stores, store.1 < signalLength / fftShift * numMfcc

end Spec

section Loops

variable {K : Type*} [Field K] (libm : MathLibrary K) (kissFft : KissFft K)
variable (getCoefficient : (Nat → K) → Nat → Nat → Nat → Nat → K)
variable (inputBuffer : Nat → K)

def coefficientStores (n : Nat) : List (Nat × K) :=
  (List.range n).map fun k => (k, coefficientAt libm kissFft getCoefficient inputBuffer k)

theorem coefficientStores_succ (n : Nat) :
    coefficientStores libm kissFft getCoefficient inputBuffer (n + 1) =
      coefficientStores libm kissFft getCoefficient inputBuffer n ++
        [(n, coefficientAt libm kissFft getCoefficient inputBuffer n)] := by
  rw [coefficientStores, List.range_succ, List.map_append]
  rfl

theorem map_fst_coefficientStores (n : Nat) :
    (coefficientStores libm kissFft getCoefficient inputBuffer n).map Prod.fst =
      List.range n := by
  rw [coefficientStores, List.map_map]
  exact List.map_id _

theorem calculateMfccAccesses_eq (signalLength : Nat) :
    calculateMfccAccesses libm kissFft getCoefficient inputBuffer signalLength =
      { copies := (List.range (numFrames signalLength).toNat).map fun f =>
          (f * fftShift, fftSize)
        stores := coefficientStores libm kissFft getCoefficient inputBuffer
          ((numFrames signalLength).toNat * numMfcc) } := by
  refine forLoop_induction (P := fun frameNum (accesses : Accesses K) => accesses =
    { copies := (List.range frameNum).map fun f => (f * fftShift, fftSize)
      stores := coefficientStores libm kissFft getCoefficient inputBuffer
        (frameNum * numMfcc) }) (Nat.zero_le _) ?_ ?_
  · rw [Nat.zero_mul]
    rfl
  · rintro frameNum _ - - rfl
    rw [Nat.succ_mul, List.range_succ, List.map_append]
    refine forLoop_induction (P := fun m (accesses : Accesses K) => accesses =
      { copies := (List.range frameNum).map (fun f => (f * fftShift, fftSize)) ++
          [(frameNum * fftShift, fftSize)]
        stores := coefficientStores libm kissFft getCoefficient inputBuffer
          (frameNum * numMfcc + m) }) (Nat.zero_le _) rfl ?_
    rintro m _ - hm rfl
    rw [← Nat.add_assoc, coefficientStores_succ,
      coefficientAt_cell libm kissFft getCoefficient inputBuffer frameNum hm]

theorem performStores_coefficientStores (mfccBuffer : Nat → K) (n k : Nat) :
    performStores mfccBuffer (coefficientStores libm kissFft getCoefficient inputBuffer n) k =
      if k < n then coefficientAt libm kissFft getCoefficient inputBuffer k
      else mfccBuffer k := by
  induction n with
  | zero => rfl
  | succ n ih =>
      rw [coefficientStores_succ, performStores_append]
      change Function.update _ _ _ k = _
      rcases eq_or_ne k n with rfl | hne
      · rw [Function.update_self, if_pos (Nat.lt_succ_self k)]
      · rw [Function.update_of_ne hne, ih]
        exact if_congr (by omega) rfl rfl

/-- The loops do nothing to the buffer of the coefficients but perform their
assignments. -/
theorem calculateMfcc_eq_performStores (signalLength : Nat) (mfccBuffer : Nat → K) :
    calculateMfcc libm kissFft getCoefficient inputBuffer signalLength mfccBuffer =
      performStores mfccBuffer
        (calculateMfccAccesses libm kissFft getCoefficient inputBuffer signalLength).stores := by
  funext k
  rw [calculateMfcc_apply, calculateMfccAccesses_eq, performStores_coefficientStores]

end Loops

section Reads

variable {K : Type*} [Field K] (libm : MathLibrary K) (kissFft : KissFft K)
variable {inputBuffer inputBuffer' : Nat → K}

theorem magnitudeSpectrum_congr {frameNum : Nat}
    (h : ∀ i, i < fftSize →
      inputBuffer (frameNum * fftShift + i) = inputBuffer' (frameNum * fftShift + i)) :
    magnitudeSpectrum libm kissFft inputBuffer frameNum =
      magnitudeSpectrum libm kissFft inputBuffer' frameNum := by
  have hfft : fft kissFft
      (hammingWindow libm (fun i => inputBuffer (frameNum * fftShift + i)) fftSize) =
        fft kissFft
          (hammingWindow libm (fun i => inputBuffer' (frameNum * fftShift + i)) fftSize) := by
    rw [fft, fft]
    congr 1
    funext i
    simp only [hammingWindow, h i i.isLt]
  simp only [magnitudeSpectrum, hfft]

/-- The elements that are copied are the only ones of the signal that the
coefficients depend on. -/
theorem calculateMfcc_congr (getCoefficient : (Nat → K) → Nat → Nat → Nat → Nat → K)
    {signalLength : Nat} (mfccBuffer : Nat → K)
    (h : ∀ copy ∈ (calculateMfccAccesses libm kissFft getCoefficient inputBuffer
        signalLength).copies,
      ∀ i, i < copy.2 → inputBuffer (copy.1 + i) = inputBuffer' (copy.1 + i)) :
    calculateMfcc libm kissFft getCoefficient inputBuffer signalLength mfccBuffer =
      calculateMfcc libm kissFft getCoefficient inputBuffer' signalLength mfccBuffer := by
  rw [calculateMfccAccesses_eq] at h
  apply forLoop_congr
  intro frameNum t _ hframe
  have hcopy := h _ (List.mem_map_of_mem (List.mem_range.mpr hframe))
  rw [magnitudeSpectrum_congr libm kissFft hcopy]

end Reads

section Frames

theorem toNat_numFrames_of_le {signalLength : Nat} (h : fftSize ≤ signalLength) :
    (numFrames signalLength).toNat = (signalLength - fftSize) / fftShift + 1 := by
  rw [numFrames, ← Nat.cast_sub h, ← Int.ofNat_tdiv]
  exact Int.toNat_natCast _

/-- Division of a negative number truncates towards zero, so that the last
512 lengths below that of a frame count as one frame. -/
theorem toNat_numFrames_of_lt {signalLength : Nat} (h : signalLength < fftSize) :
    (numFrames signalLength).toNat = if fftShift < signalLength then 1 else 0 := by
  have hneg : (signalLength : Int) - fftSize = -((fftSize - signalLength : Nat) : Int) := by
    rw [Nat.cast_sub h.le, neg_sub]
  rw [numFrames, hneg, Int.neg_tdiv, ← Int.ofNat_tdiv]
  by_cases hshift : fftShift < signalLength
  · rw [if_pos hshift]
    simp only [fftSize, fftShift] at h hshift ⊢
    omega
  · rw [if_neg hshift]
    simp only [fftSize, fftShift] at h hshift ⊢
    omega

theorem ncard_fitting_of_le {signalLength : Nat} (h : fftSize ≤ signalLength) :
    Set.ncard {f : Nat | f * fftShift + fftSize ≤ signalLength} =
      (signalLength - fftSize) / fftShift + 1 := by
  have hset : {f : Nat | f * fftShift + fftSize ≤ signalLength} =
      Finset.range ((signalLength - fftSize) / fftShift + 1) := by
    ext f
    rw [Set.mem_ofPred_eq, Finset.coe_range, Set.mem_Iio, Nat.lt_succ_iff,
      Nat.le_div_iff_mul_le (by decide), Nat.le_sub_iff_add_le h]
  rw [hset, Set.ncard_coe_finset, Finset.card_range]

theorem ncard_fitting_of_lt {signalLength : Nat} (h : signalLength < fftSize) :
    Set.ncard {f : Nat | f * fftShift + fftSize ≤ signalLength} = 0 := by
  have hset : {f : Nat | f * fftShift + fftSize ≤ signalLength} = ∅ := by
    apply Set.eq_empty_of_forall_notMem
    intro f hf
    exact absurd ((Nat.le_add_left _ _).trans hf) h.not_ge
  rw [hset, Set.ncard_empty]

/-- The loop takes as many frames as there are, unless a signal shorter than a
frame is longer than a shift. -/
theorem toNat_numFrames_eq_ncard_iff (signalLength : Nat) :
    (numFrames signalLength).toNat =
        Set.ncard {f : Nat | f * fftShift + fftSize ≤ signalLength} ↔
      signalLength ≤ fftShift ∨ fftSize ≤ signalLength := by
  rcases Nat.lt_or_ge signalLength fftSize with hlt | hge
  · rw [toNat_numFrames_of_lt hlt, ncard_fitting_of_lt hlt, or_iff_left hlt.not_ge]
    by_cases h : fftShift < signalLength
    · rw [if_pos h]
      exact iff_of_false one_ne_zero h.not_ge
    · rw [if_neg h]
      exact iff_of_true rfl (Nat.le_of_not_gt h)
  · rw [toNat_numFrames_of_le hge, ncard_fitting_of_le hge]
    exact iff_of_true rfl (Or.inr hge)

end Frames

section Splitting

variable {K : Type*} [Field K] (libm : MathLibrary K) (kissFft : KissFft K)
variable (getCoefficient : (Nat → K) → Nat → Nat → Nat → Nat → K)
variable (inputBuffer : Nat → K)

theorem toNat_numFrames_le (signalLength : Nat) :
    (numFrames signalLength).toNat ≤ signalLength / fftShift := by
  rcases Nat.lt_or_ge signalLength fftSize with hlt | hge
  · rw [toNat_numFrames_of_lt hlt]
    split_ifs with h
    · exact (Nat.one_le_div_iff (by decide)).mpr h.le
    · exact Nat.zero_le _
  · rw [toNat_numFrames_of_le hge]
    simp only [fftSize, fftShift] at hge ⊢
    omega

theorem copies_within {signalLength frameNum : Nat}
    (h : signalLength ≤ fftShift ∨ fftSize ≤ signalLength)
    (hframe : frameNum < (numFrames signalLength).toNat) {i : Nat} (hi : i < fftSize) :
    frameNum * fftShift + i < signalLength := by
  rcases Nat.lt_or_ge signalLength fftSize with hlt | hge
  · rw [toNat_numFrames_of_lt hlt, if_neg (h.resolve_right hlt.not_ge).not_gt] at hframe
    exact absurd hframe (Nat.not_lt_zero _)
  · rw [toNat_numFrames_of_le hge] at hframe
    simp only [fftSize, fftShift] at hge hframe hi ⊢
    omega

/-- A signal is split exactly if it is a frame long or else at most a shift. -/
theorem splitsExactly_iff (signalLength : Nat) :
    SplitsExactly signalLength
        (calculateMfccAccesses libm kissFft getCoefficient inputBuffer signalLength) ↔
      signalLength ≤ fftShift ∨ fftSize ≤ signalLength := by
  rw [calculateMfccAccesses_eq]
  constructor
  · intro hsplits
    have hall := hsplits.copies_all
    rw [List.length_map, List.length_range] at hall
    exact (toNat_numFrames_eq_ncard_iff signalLength).mp hall
  · intro h
    constructor
    · rintro copy hcopy i hi
      obtain ⟨frameNum, hframe, rfl⟩ := List.mem_map.mp hcopy
      exact copies_within h (List.mem_range.mp hframe) hi
    · rw [List.length_map, List.length_range]
      exact (toNat_numFrames_eq_ncard_iff signalLength).mpr h
    · intro k hk
      rw [List.length_map, List.length_range, Nat.mul_comm] at hk
      rw [map_fst_coefficientStores]
      exact List.count_eq_one_of_mem List.nodup_range (List.mem_range.mpr hk)
    · intro store hstore
      have hindex := List.mem_map_of_mem (f := Prod.fst) hstore
      rw [map_fst_coefficientStores, List.mem_range] at hindex
      exact hindex.trans_le (Nat.mul_le_mul_right _ (toNat_numFrames_le signalLength))

theorem not_splitsExactly_shortSignal :
    ¬ SplitsExactly 1023 (calculateMfccAccesses realMath (discreteFourier fftSize)
      (MelCoefficients.getCoefficient realMath) (fun _ => 0) 1023) := by
  rw [calculateMfccAccesses_eq]
  intro hsplits
  have hread := hsplits.copies_within (0, fftSize) (by decide) 1023 (by decide)
  exact absurd hread (by decide)

end Splitting

end RockPaperScissors.FrameSplitting
