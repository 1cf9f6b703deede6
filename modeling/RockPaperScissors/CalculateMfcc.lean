import RockPaperScissors.MelCoefficients
import RockPaperScissors.RecordLoop
import RockPaperScissors.SampleNormalization
import RockPaperScissors.WordDecision
import Mathlib.Algebra.Module.LinearMap.Defs
import Mathlib.Algebra.Module.Pi
import Mathlib.Algebra.Module.Prod
import Mathlib.Analysis.SpecialFunctions.Trigonometric.Basic
import Mathlib.Analysis.SpecialFunctions.Pow.Real

namespace RockPaperScissors.CalculateMfcc

open RockPaperScissors.Library.CountedLoop
open RockPaperScissors.MelCoefficients
open RockPaperScissors.MfccMatcher
open RockPaperScissors.RecordLoop
open RockPaperScissors.ReferenceFile
open RockPaperScissors.SampleNormalization
open RockPaperScissors.WordDecision

def fftSize : Nat := 1024

def fftShift : Nat := 512

def numFilters : Nat := 12

/-- How many frames can be extracted from the input signal. -/
def numFrames (signalLength : Nat) : Int :=
  ((signalLength : Int) - fftSize).tdiv fftShift + 1

theorem numFrames_bufSize : numFrames bufSize = numFramesMfcc := by
  decide

section Code

variable {K : Type*} [Field K] (libm : MathLibrary K)

/-- `kiss_fft` with the configuration of `kiss_fft_alloc(FFT_SIZE, 0, ..)`: the
output buffer for the complex numbers of an input buffer. -/
abbrev KissFft (K : Type*) := (Fin fftSize → K × K) → Nat → K × K

variable (kissFft : KissFft K)

def hammingWindow (input : Nat → K) (size i : Nat) : K :=
  let alpha := 54 / 100
  let beta := 46 / 100
  let window := alpha - beta * libm.cos (((2 : Nat) * libm.pi * i) / (size - 1))
  input i * window

def fft (inputBuffer : Nat → K) : Nat → K × K :=
  kissFft fun i => (inputBuffer i, 0)

/-- The arrays of a frame are rewritten in full before they are read, so they
are functions of the index here. -/
def magnitudeSpectrum (inputBuffer : Nat → K) (frameNum : Nat) : Nat → K :=
  let frame := fun i => inputBuffer (frameNum * fftShift + i)
  let windowedFrame := hammingWindow libm frame fftSize
  let fftOutput := fft kissFft windowedFrame
  fun i => libm.sqrt
    ((fftOutput i).1 * (fftOutput i).1 + (fftOutput i).2 * (fftOutput i).2)

variable (getCoefficient : (Nat → K) → Nat → Nat → Nat → Nat → K)

def calculateMfcc (inputBuffer : Nat → K) (signalLength : Nat) (mfccBuffer : Nat → K) :
    Nat → K :=
  forLoop 0 (numFrames signalLength).toNat (fun frameNum mfccBuffer =>
    forLoop 0 numMfcc (fun m mfccBuffer =>
      Function.update mfccBuffer (frameNum * numMfcc + m)
        (getCoefficient (magnitudeSpectrum libm kissFft inputBuffer frameNum) 8192
          numFilters fftSize m)) mfccBuffer) mfccBuffer

variable [LinearOrder K] {σ : Type*}

/-- What the buffers, the locals and the driver hold when an analysis begins to
normalize the recording. -/
structure Memory (K σ : Type*) where
  normalizedBuffer : Nat → K
  mfccBuffer : Nat → K
  stack : Word → DistanceTable K
  locals : Locals K
  driver : σ

/-- The MFCC buffer and the displayed text of an analysis. -/
def recognise (drv : SdCardDriver σ) (strtof : List UInt8 → K) (memory : Memory K σ)
    (leftBuffer : Nat → K) : (Nat → K) × String :=
  let normalizedBuffer := normalizeAudio leftBuffer memory.normalizedBuffer bufSize
  let mfccBuffer := calculateMfcc libm kissFft getCoefficient normalizedBuffer bufSize
    memory.mfccBuffer
  (mfccBuffer, shownText drv strtof libm.sqrt memory.stack mfccBuffer memory.locals
    memory.driver)

end Code

section Layout

variable {K : Type*} [Field K] (libm : MathLibrary K) (kissFft : KissFft K)
variable (getCoefficient : (Nat → K) → Nat → Nat → Nat → Nat → K)

/-- What `calculate_mfcc` stores at the index `k`. -/
def coefficientAt (inputBuffer : Nat → K) (k : Nat) : K :=
  getCoefficient (magnitudeSpectrum libm kissFft inputBuffer (k / numMfcc)) 8192 numFilters
    fftSize (k % numMfcc)

theorem coefficientAt_cell (inputBuffer : Nat → K) (frameNum : Nat) {m : Nat}
    (hm : m < numMfcc) :
    coefficientAt libm kissFft getCoefficient inputBuffer (frameNum * numMfcc + m) =
      getCoefficient (magnitudeSpectrum libm kissFft inputBuffer frameNum) 8192 numFilters
        fftSize m := by
  have hdiv : (frameNum * numMfcc + m) / numMfcc = frameNum := by
    rw [numMfcc] at hm ⊢
    omega
  have hmod : (frameNum * numMfcc + m) % numMfcc = m := by
    rw [numMfcc] at hm ⊢
    omega
  rw [coefficientAt, hdiv, hmod]

/-- The coefficients of a frame stand next to each other, one frame after the
other. -/
theorem calculateMfcc_apply (inputBuffer : Nat → K) (signalLength : Nat) (mfccBuffer : Nat → K)
    (k : Nat) :
    calculateMfcc libm kissFft getCoefficient inputBuffer signalLength mfccBuffer k =
      if k < (numFrames signalLength).toNat * numMfcc then
        coefficientAt libm kissFft getCoefficient inputBuffer k
      else mfccBuffer k := by
  suffices h : calculateMfcc libm kissFft getCoefficient inputBuffer signalLength mfccBuffer =
      fun k => if k < (numFrames signalLength).toNat * numMfcc then
        coefficientAt libm kissFft getCoefficient inputBuffer k else mfccBuffer k by
    rw [h]
  refine forLoop_induction (P := fun frameNum u => u = fun k =>
    if k < frameNum * numMfcc then coefficientAt libm kissFft getCoefficient inputBuffer k
    else mfccBuffer k) (Nat.zero_le _) ?_ ?_
  · funext k
    rw [if_neg (by omega)]
  · rintro frameNum _ - - rfl
    rw [Nat.succ_mul]
    refine forLoop_induction (P := fun m u => u = fun k =>
      if k < frameNum * numMfcc + m then
        coefficientAt libm kissFft getCoefficient inputBuffer k
      else mfccBuffer k) (Nat.zero_le _) rfl ?_
    rintro m _ - hm rfl
    funext k
    rcases eq_or_ne k (frameNum * numMfcc + m) with rfl | hne
    · rw [Function.update_self, if_pos (by omega),
        coefficientAt_cell libm kissFft getCoefficient inputBuffer frameNum hm]
    · rw [Function.update_of_ne hne]
      exact if_congr (by omega) rfl rfl

theorem calculateMfcc_last [LinearOrder K] (inputBuffer : Nat → K) (signalLength : Nat)
    (mfccBuffer : Nat → K) {frameNum : Nat}
    (hframe : frameNum < (numFrames signalLength).toNat) :
    calculateMfcc libm kissFft (MelCoefficients.getCoefficient libm) inputBuffer signalLength
      mfccBuffer (frameNum * numMfcc + 12) = 0 := by
  have hindex : frameNum * numMfcc + 12 < (numFrames signalLength).toNat * numMfcc := by
    rw [numMfcc]
    omega
  have hcoefficient : numFilters ≤ (frameNum * numMfcc + 12) % numMfcc := by
    rw [numMfcc, numFilters]
    omega
  rw [calculateMfcc_apply, if_pos hindex]
  exact getCoefficient_of_numFilters_le libm _ _ _ hcoefficient

end Layout

section Frames

variable {K : Type*} [Field K] (libm : MathLibrary K) {kissFft : KissFft K}

theorem magnitudeSpectrum_of_sign (hlinear : IsLinearMap K kissFft) {ε : K}
    (hsign : ε * ε = 1) {inputBuffer inputBuffer' : Nat → K} {frameNum : Nat}
    (h : ∀ i, i < fftSize → inputBuffer' (frameNum * fftShift + i) =
      ε * inputBuffer (frameNum * fftShift + i)) :
    magnitudeSpectrum libm kissFft inputBuffer' frameNum =
      magnitudeSpectrum libm kissFft inputBuffer frameNum := by
  have hwindow : ∀ i : Fin fftSize,
      hammingWindow libm (fun i => inputBuffer' (frameNum * fftShift + i)) fftSize i =
        ε * hammingWindow libm (fun i => inputBuffer (frameNum * fftShift + i)) fftSize i := by
    intro i
    simp only [hammingWindow, h i i.isLt, mul_assoc]
  have hfft : fft kissFft
      (hammingWindow libm (fun i => inputBuffer' (frameNum * fftShift + i)) fftSize) =
        ε • fft kissFft
          (hammingWindow libm (fun i => inputBuffer (frameNum * fftShift + i)) fftSize) := by
    rw [fft, fft, ← hlinear.map_smul]
    congr 1
    funext i
    rw [hwindow i]
    simp
  have hsquare : ∀ u : K, ε * u * (ε * u) = u * u := by
    intro u
    rw [mul_mul_mul_comm, hsign, one_mul]
  funext k
  simp only [magnitudeSpectrum, hfft, Pi.smul_apply, Prod.smul_fst, Prod.smul_snd,
    smul_eq_mul, hsquare]

theorem frame_lt_bufSize {frameNum i : Nat} (hframe : frameNum < (numFrames bufSize).toNat)
    (hi : i < fftSize) : frameNum * fftShift + i < bufSize := by
  rw [numFrames_bufSize] at hframe
  simp only [numFramesMfcc, Int.toNat_natCast] at hframe
  simp only [fftSize] at hi
  simp only [fftShift, bufSize]
  omega

theorem calculateMfcc_of_sign (hlinear : IsLinearMap K kissFft)
    (getCoefficient : (Nat → K) → Nat → Nat → Nat → Nat → K) {ε : K} (hsign : ε * ε = 1)
    {inputBuffer inputBuffer' : Nat → K}
    (h : ∀ i, i < bufSize → inputBuffer' i = ε * inputBuffer i) (mfccBuffer : Nat → K) :
    calculateMfcc libm kissFft getCoefficient inputBuffer' bufSize mfccBuffer =
      calculateMfcc libm kissFft getCoefficient inputBuffer bufSize mfccBuffer := by
  apply forLoop_congr
  intro frameNum t _ hframe
  have hspectrum : magnitudeSpectrum libm kissFft inputBuffer' frameNum =
      magnitudeSpectrum libm kissFft inputBuffer frameNum := by
    apply magnitudeSpectrum_of_sign libm hlinear hsign
    intro i hi
    exact h _ (frame_lt_bufSize hframe hi)
  rw [hspectrum]

end Frames

section Loudness

variable {K : Type*} [Field K] [LinearOrder K] [IsStrictOrderedRing K] {σ : Type*}

theorem sign_mul_self {c : K} (hc : c ≠ 0) : c / |c| * (c / |c|) = 1 := by
  rw [div_mul_div_comm, abs_mul_abs_self]
  exact div_self (mul_ne_zero hc hc)

/-- Neither the gain nor the polarity of the microphone changes what an
analysis computes and shows. -/
theorem recognise_scale (libm : MathLibrary K) {kissFft : KissFft K}
    (hlinear : IsLinearMap K kissFft)
    (getCoefficient : (Nat → K) → Nat → Nat → Nat → Nat → K)
    (drv : SdCardDriver σ) (strtof : List UInt8 → K) (memory : Memory K σ)
    {c : K} (hc : c ≠ 0) {x x' : Nat → K}
    (hx : ∀ i, i < bufSize → x' i - 32768 = c * (x i - 32768)) :
    recognise libm kissFft getCoefficient drv strtof memory x' =
      recognise libm kissFft getCoefficient drv strtof memory x := by
  have hnormalized : ∀ i, i < bufSize →
      normalizeAudio x' memory.normalizedBuffer bufSize i =
        c / |c| * normalizeAudio x memory.normalizedBuffer bufSize i := by
    intro i hi
    exact normalizeAudio_scale hc hx _ _ hi
  have hmfcc := calculateMfcc_of_sign libm hlinear getCoefficient (sign_mul_self hc)
    hnormalized memory.mfccBuffer
  simp only [recognise, hmfcc]

end Loudness

section RealNumbers

noncomputable def realMath : MathLibrary ℝ where
  sqrt := Real.sqrt
  log := Real.log
  cos := Real.cos
  pow := fun x y => x ^ y
  pi := Real.pi

noncomputable def discreteFourier (size : Nat) (input : Fin size → ℝ × ℝ) (k : Nat) :
    ℝ × ℝ :=
  let angle := fun n : Fin size => (2 : Nat) * Real.pi * (n : Nat) * k / size
  (∑ n, ((input n).1 * Real.cos (angle n) + (input n).2 * Real.sin (angle n)),
    ∑ n, ((input n).2 * Real.cos (angle n) - (input n).1 * Real.sin (angle n)))

theorem isLinearMap_discreteFourier (size : Nat) :
    IsLinearMap ℝ (discreteFourier size) where
  map_add input input' := by
    funext k
    simp only [discreteFourier, Pi.add_apply, Prod.fst_add, Prod.snd_add, Prod.mk_add_mk,
      ← Finset.sum_add_distrib]
    refine congrArg₂ Prod.mk (Finset.sum_congr rfl ?_) (Finset.sum_congr rfl ?_)
    · intro n _
      ring
    · intro n _
      ring
  map_smul a input := by
    funext k
    simp only [discreteFourier, Pi.smul_apply, Prod.smul_fst, Prod.smul_snd, Prod.smul_mk,
      smul_eq_mul, Finset.mul_sum]
    refine congrArg₂ Prod.mk (Finset.sum_congr rfl ?_) (Finset.sum_congr rfl ?_)
    · intro n _
      ring
    · intro n _
      ring

noncomputable def clearedMemory : Memory ℝ (List Int) where
  normalizedBuffer _ := 0
  mfccBuffer _ := 0
  stack _ _ _ := 0
  locals := ⟨fun _ _ => 0, fun _ => Double.ofExact 0⟩
  driver := []

theorem recognise_ramp :
    recognise realMath (discreteFourier fftSize) (getCoefficient realMath) (scriptedDriver (-1))
        (fun _ => 0) clearedMemory (fun i => 32768 - i / 2) =
      recognise realMath (discreteFourier fftSize) (getCoefficient realMath) (scriptedDriver (-1))
        (fun _ => 0) clearedMemory (fun i => 32768 + i) := by
  have hgain : (-1 / 2 : ℝ) ≠ 0 := by norm_num
  apply recognise_scale realMath (isLinearMap_discreteFourier fftSize) _ _ _ _ hgain
  intro i _
  ring

end RealNumbers

end RockPaperScissors.CalculateMfcc
