import RockPaperScissors.CalculateMfcc
import RockPaperScissors.FrameSplitting
import RockPaperScissors.KissFftRoundTrip

namespace RockPaperScissors.FrameTransform

open RockPaperScissors.CalculateMfcc
open RockPaperScissors.KissFft
open RockPaperScissors.KissFftButterflies
open RockPaperScissors.KissFftRoundTrip
open RockPaperScissors.KissFftTransform
open RockPaperScissors.Library.CountedLoop
open RockPaperScissors.Library.DiscreteFourier
open RockPaperScissors.MelCoefficients
open RockPaperScissors.MfccMatcher
open RockPaperScissors.RecordLoop

section Code

variable {K : Type*} [Field K]

/-- Where `fft` keeps its buffers and what the memory holds when it is called. -/
structure Frame (K : Type*) where
  mem : Memory K
  kissInputBuffer : Nat
  outputBuffer : Nat
  tmpbuf : Nat

/-- `fft` after the configuration is allocated: the input is copied, transformed
and left in the output buffer. -/
def kissFftOf (config : KissFftState K) (frame : Frame K) : CalculateMfcc.KissFft K :=
  fun input k =>
    let mem := forLoop 0 fftSize (fun i mem =>
      if h : i < fftSize then
        Function.update mem (frame.kissInputBuffer + i) ⟨(input ⟨i, h⟩).1, (input ⟨i, h⟩).2⟩
      else mem) frame.mem
    let output := kissFft mem config frame.kissInputBuffer frame.outputBuffer frame.tmpbuf
    ((output (frame.outputBuffer + k)).r, (output (frame.outputBuffer + k)).i)

end Code

section Exact

theorem kissFftOf_input {K : Type*} (frame : Frame K) (input : Fin fftSize → K × K)
    (j : Fin fftSize) :
    forLoop 0 fftSize (fun i (mem : Memory K) =>
      if h : i < fftSize then
        Function.update mem (frame.kissInputBuffer + i) ⟨(input ⟨i, h⟩).1, (input ⟨i, h⟩).2⟩
      else mem) frame.mem (frame.kissInputBuffer + j) = ⟨(input j).1, (input j).2⟩ := by
  suffices hfilled : ∀ j : Fin fftSize, (j : Nat) < fftSize →
      forLoop 0 fftSize (fun i (mem : Memory K) =>
        if h : i < fftSize then
          Function.update mem (frame.kissInputBuffer + i) ⟨(input ⟨i, h⟩).1, (input ⟨i, h⟩).2⟩
        else mem) frame.mem (frame.kissInputBuffer + j) = ⟨(input j).1, (input j).2⟩ by
    exact hfilled j j.isLt
  refine forLoop_induction (P := fun filled (mem : Memory K) =>
    ∀ j : Fin fftSize, (j : Nat) < filled →
      mem (frame.kissInputBuffer + j) = ⟨(input j).1, (input j).2⟩) (Nat.zero_le _) ?_ ?_
  · intro j hj
    exact absurd hj (Nat.not_lt_zero j)
  · intro i mem _ hi ih j hj
    rw [dif_pos hi]
    rcases Nat.lt_succ_iff_lt_or_eq.mp hj with hlt | rfl
    · rw [Function.update_of_ne (by omega)]
      exact ih j hlt
    · exact Function.update_self _ _ _

theorem discreteFourier_eq_sum (size : Nat) (input : Fin size → ℝ × ℝ) (k : Nat) :
    (⟨(discreteFourier size input k).1, (discreteFourier size input k).2⟩ : ℂ) =
      ∑ j : Fin size, (⟨(input j).1, (input j).2⟩ : ℂ) *
        Complex.exp (-1 * (2 * Real.pi * Complex.I * j * k / size)) := by
  have hangle : ∀ j : Fin size, (-1 * (2 * Real.pi * Complex.I * (j : Nat) * k / size) : ℂ) =
      ((-((2 : Nat) * Real.pi * (j : Nat) * k / size) : ℝ) : ℂ) * Complex.I := by
    intro j
    push_cast
    ring
  simp only [hangle]
  apply Complex.ext
  · simp only [discreteFourier, Complex.re_sum, Complex.mul_re, Complex.exp_ofReal_mul_I_re,
      Complex.exp_ofReal_mul_I_im, Real.cos_neg, Real.sin_neg]
    apply Finset.sum_congr rfl
    intro j _
    ring
  · simp only [discreteFourier, Complex.im_sum, Complex.mul_im, Complex.exp_ofReal_mul_I_re,
      Complex.exp_ofReal_mul_I_im, Real.cos_neg, Real.sin_neg]
    apply Finset.sum_congr rfl
    intro j _
    ring

variable {malloc : Nat → Option (KissFftState ℝ)} {config : KissFftState ℝ}

/-- The buffers of `fft`: two arrays of its frame and its caller's, or, if it is
called in place, one and a temporary one. -/
def Frame.Valid {K : Type*} (frame : Frame K) : Prop :=
  Usable fftSize frame.kissInputBuffer frame.outputBuffer 1 frame.tmpbuf

/-- The transform of the program is the discrete Fourier transform, in all the
values that fit its output buffer. -/
theorem kissFftOf_eq_discreteFourier
    (h : kissFftAlloc realTrigonometry malloc fftSize 0 none none = (some config, none))
    {frame : Frame ℝ} (hframe : frame.Valid) (input : Fin fftSize → ℝ × ℝ) {k : Nat}
    (hk : k < fftSize) :
    kissFftOf config frame input k = discreteFourier fftSize input k := by
  have hsize : 1 ≤ fftSize := by decide
  have hsum := (kissFftStride_transform hsize h (forLoop 0 fftSize (fun i mem =>
    if h : i < fftSize then
      Function.update mem (frame.kissInputBuffer + i) ⟨(input ⟨i, h⟩).1, (input ⟨i, h⟩).2⟩
    else mem) frame.mem) hframe).1 k hk
  have hcomplex : (⟨(kissFftOf config frame input k).1, (kissFftOf config frame input k).2⟩ : ℂ) =
      ⟨(discreteFourier fftSize input k).1, (discreteFourier fftSize input k).2⟩ := by
    rw [discreteFourier_eq_sum]
    refine hsum.trans ?_
    rw [transform, Finset.sum_range]
    apply Finset.sum_congr rfl
    intro j _
    rw [root_pow_mul, if_neg (by decide), strided, Nat.mul_one, kissFftOf_input]
    rfl
  rw [Complex.mk.injEq] at hcomplex
  exact Prod.ext hcomplex.1 hcomplex.2

end Exact

section Pipeline

variable {malloc : Nat → Option (KissFftState ℝ)} {config : KissFftState ℝ} {frame : Frame ℝ}

theorem magnitudeSpectrum_kissFft
    (h : kissFftAlloc realTrigonometry malloc fftSize 0 none none = (some config, none))
    (hframe : frame.Valid) (libm : MathLibrary ℝ) (inputBuffer : Nat → ℝ) (frameNum : Nat)
    {k : Nat} (hk : k < fftSize) :
    magnitudeSpectrum libm (kissFftOf config frame) inputBuffer frameNum k =
      magnitudeSpectrum libm (discreteFourier fftSize) inputBuffer frameNum k := by
  simp only [magnitudeSpectrum, fft, kissFftOf_eq_discreteFourier h hframe _ hk]

theorem calculateMfcc_kissFft
    (h : kissFftAlloc realTrigonometry malloc fftSize 0 none none = (some config, none))
    (hframe : frame.Valid) (libm : MathLibrary ℝ) (inputBuffer : Nat → ℝ) (signalLength : Nat)
    (mfccBuffer : Nat → ℝ) :
    calculateMfcc libm (kissFftOf config frame) (getCoefficient libm) inputBuffer signalLength
        mfccBuffer =
      calculateMfcc libm (discreteFourier fftSize) (getCoefficient libm) inputBuffer
        signalLength mfccBuffer := by
  apply forLoop_congr
  intro frameNum mfccBuffer _ _
  apply forLoop_congr
  intro m mfccBuffer _ _
  have hcoefficient : getCoefficient libm
      (magnitudeSpectrum libm (kissFftOf config frame) inputBuffer frameNum) 8192 numFilters
        fftSize m =
      getCoefficient libm
        (magnitudeSpectrum libm (discreteFourier fftSize) inputBuffer frameNum) 8192 numFilters
          fftSize m := by
    apply getCoefficient_congr
    intro k hk
    rw [magnitudeSpectrum_kissFft h hframe libm inputBuffer frameNum (by omega)]
  rw [hcoefficient]

/-- What an analysis stores and shows with the transform it is built with is what
it would with the transform of the textbook. -/
theorem recognise_kissFft
    (h : kissFftAlloc realTrigonometry malloc fftSize 0 none none = (some config, none))
    (hframe : frame.Valid) (libm : MathLibrary ℝ) {σ : Type*} (drv : ReferenceFile.SdCardDriver σ)
    (strtof : List UInt8 → ℝ) (memory : CalculateMfcc.Memory ℝ σ) (leftBuffer : Nat → ℝ) :
    recognise libm (kissFftOf config frame) (getCoefficient libm) drv strtof memory leftBuffer =
      recognise libm (discreteFourier fftSize) (getCoefficient libm) drv strtof memory
        leftBuffer := by
  simp only [recognise, calculateMfcc_kissFft h hframe]

noncomputable def stackFrame : Frame ℝ where
  mem _ := ⟨0, 0⟩
  kissInputBuffer := 0
  outputBuffer := fftSize
  tmpbuf := 0

theorem stackFrame_valid : stackFrame.Valid :=
  usable_of_le (by decide) (by rw [stackFrame, Nat.zero_add]) 0

theorem recognise_kissFft_silence :
    recognise realMath (kissFftOf (freshState fftSize 0) stackFrame) (getCoefficient realMath)
        (ReferenceFile.scriptedDriver (-1)) (fun _ => 0) clearedMemory (fun _ => 32768) =
      recognise realMath (discreteFourier fftSize) (getCoefficient realMath)
        (ReferenceFile.scriptedDriver (-1)) (fun _ => 0) clearedMemory (fun _ => 32768) :=
  recognise_kissFft (kissFftAlloc_fresh fftSize 0) stackFrame_valid realMath _ _ _ _

end Pipeline

section Spectrum

variable {malloc : Nat → Option (KissFftState ℝ)} {config : KissFftState ℝ} {frame : Frame ℝ}

theorem star_root {n : Nat} (hn : 1 ≤ n) (inverse : Int) :
    star (root n inverse) = (root n inverse)⁻¹ := by
  have hnorm := Complex.norm_eq_one_of_pow_eq_one (root_primitive hn inverse).pow_eq_one
    (by omega)
  exact (Complex.inv_eq_conj hnorm).symm

noncomputable def windowedFrame (libm : MathLibrary ℝ) (inputBuffer : Nat → ℝ)
    (frameNum i : Nat) : ℝ :=
  hammingWindow libm (fun i => inputBuffer (frameNum * fftShift + i)) fftSize i

theorem kissFftOf_eq_transform
    (h : kissFftAlloc realTrigonometry malloc fftSize 0 none none = (some config, none))
    (hframe : frame.Valid) (x : Nat → ℝ) {k : Nat} (hk : k < fftSize) :
    (⟨(fft (kissFftOf config frame) x k).1, (fft (kissFftOf config frame) x k).2⟩ : ℂ) =
      transform (root fftSize 0) fftSize (fun j => (x j : ℂ)) k := by
  rw [fft, kissFftOf_eq_discreteFourier h hframe _ hk, discreteFourier_eq_sum, transform,
    Finset.sum_range]
  apply Finset.sum_congr rfl
  intro j _
  rw [root_pow_mul, if_neg (by decide)]
  rfl

theorem magnitudeSpectrum_eq_norm
    (h : kissFftAlloc realTrigonometry malloc fftSize 0 none none = (some config, none))
    (hframe : frame.Valid) (inputBuffer : Nat → ℝ) (frameNum : Nat) {k : Nat}
    (hk : k < fftSize) :
    magnitudeSpectrum realMath (kissFftOf config frame) inputBuffer frameNum k =
      ‖transform (root fftSize 0) fftSize
        (fun j => (windowedFrame realMath inputBuffer frameNum j : ℂ)) k‖ := by
  have htransform := kissFftOf_eq_transform h hframe
    (windowedFrame realMath inputBuffer frameNum) hk
  rw [← htransform, Complex.norm_def, Complex.normSq_mk]
  rfl

/-- The magnitudes of a frame are mirrored in the middle of the spectrum, and
their squares add up to the energy of the windowed samples. -/
theorem magnitudeSpectrum_mirror_energy
    (h : kissFftAlloc realTrigonometry malloc fftSize 0 none none = (some config, none))
    (hframe : frame.Valid) (inputBuffer : Nat → ℝ) (frameNum : Nat) :
    (∀ k, 0 < k → k < fftSize →
      magnitudeSpectrum realMath (kissFftOf config frame) inputBuffer frameNum (fftSize - k) =
        magnitudeSpectrum realMath (kissFftOf config frame) inputBuffer frameNum k) ∧
    ∑ k ∈ Finset.range fftSize,
        magnitudeSpectrum realMath (kissFftOf config frame) inputBuffer frameNum k ^ 2 =
      fftSize * ∑ i ∈ Finset.range fftSize,
        hammingWindow realMath (fun i => inputBuffer (frameNum * fftShift + i)) fftSize i ^ 2 := by
  have hsize : 1 ≤ fftSize := by decide
  have hstar := star_root hsize 0
  have hprimitive := root_primitive hsize 0
  set x : Nat → ℂ := fun j => (windowedFrame realMath inputBuffer frameNum j : ℂ) with hx
  have hreal : ∀ j, star (x j) = x j := fun j => Complex.conj_ofReal _
  constructor
  · intro k hpos hk
    rw [magnitudeSpectrum_eq_norm h hframe _ _ hk,
      magnitudeSpectrum_eq_norm h hframe _ _ (by omega),
      transform_mirror hstar hprimitive.pow_eq_one (fun j _ => hreal j) hk.le, norm_star]
  · have hsquare : ∀ z : ℂ, ((‖z‖ ^ 2 : ℝ) : ℂ) = z * star z := by
      intro z
      rw [← Complex.normSq_eq_norm_sq]
      exact (Complex.mul_conj z).symm
    have hspectrum : ((∑ k ∈ Finset.range fftSize, magnitudeSpectrum realMath
        (kissFftOf config frame) inputBuffer frameNum k ^ 2 : ℝ) : ℂ) =
        ∑ k ∈ Finset.range fftSize, transform (root fftSize 0) fftSize x k *
          star (transform (root fftSize 0) fftSize x k) := by
      rw [Complex.ofReal_sum]
      apply Finset.sum_congr rfl
      intro k hk
      rw [magnitudeSpectrum_eq_norm h hframe _ _ (Finset.mem_range.mp hk), hsquare]
    have hsignal : ((∑ i ∈ Finset.range fftSize, windowedFrame realMath inputBuffer frameNum i ^ 2
        : ℝ) : ℂ) = ∑ j ∈ Finset.range fftSize, x j * star (x j) := by
      rw [Complex.ofReal_sum]
      apply Finset.sum_congr rfl
      intro i _
      rw [hreal, Complex.ofReal_pow, pow_two]
    apply Complex.ofReal_injective
    rw [hspectrum, transform_energy hstar hprimitive x, Complex.ofReal_mul,
      Complex.ofReal_natCast, ← hsignal]
    rfl

theorem magnitudeSpectrum_mirror_energy_impulse :
    (∀ k, 0 < k → k < fftSize →
      magnitudeSpectrum realMath (kissFftOf (freshState fftSize 0) stackFrame)
          (fun i => if i = 3 then 1 else 0) 0 (fftSize - k) =
        magnitudeSpectrum realMath (kissFftOf (freshState fftSize 0) stackFrame)
          (fun i => if i = 3 then 1 else 0) 0 k) ∧
    ∑ k ∈ Finset.range fftSize,
        magnitudeSpectrum realMath (kissFftOf (freshState fftSize 0) stackFrame)
          (fun i => if i = 3 then 1 else 0) 0 k ^ 2 =
      fftSize * ∑ i ∈ Finset.range fftSize,
        hammingWindow realMath (fun i => if 0 * fftShift + i = 3 then 1 else 0) fftSize i ^ 2 :=
  magnitudeSpectrum_mirror_energy (kissFftAlloc_fresh fftSize 0) stackFrame_valid _ 0

end Spectrum

end RockPaperScissors.FrameTransform
