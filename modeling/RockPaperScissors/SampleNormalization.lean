import RockPaperScissors.Library.CountedLoop
import Mathlib.Algebra.Order.Field.Rat
import Mathlib.Algebra.Order.Ring.Abs
import Mathlib.Data.Finset.Lattice.Fold
import Mathlib.Order.Lattice.Nat
import Mathlib.Tactic.Linarith
import Mathlib.Tactic.Positivity
import Mathlib.Tactic.NormNum

namespace RockPaperScissors.SampleNormalization

open RockPaperScissors.Library.CountedLoop

/-- What the core puts into `readdata` for a sample of the left or the right
channel. -/
def readdata (newChannelAudio : BitVec 16) : BitVec 32 :=
  0x00000000#32 ||| newChannelAudio.setWidth 32

section Code

variable {K : Type*} [Field K]

/-- The assignment `left_buffer[i] = *(audio_ptr + 2)`: an `int` read as a
`float`. -/
def storedSample (register : BitVec 32) : K := (register.toInt : K)

variable [LinearOrder K]

def maxAbsValue (inputBuffer : Nat → K) (size : Nat) : K :=
  forLoop 0 size (fun i maxVal =>
    let signedVal := inputBuffer i - 32768
    let absVal := |signedVal|
    if maxVal < absVal then absVal else maxVal) 0

def divisor (inputBuffer : Nat → K) (size : Nat) : K :=
  if maxAbsValue inputBuffer size = 0 then 1 else maxAbsValue inputBuffer size

def normalizeAudio (inputBuffer outputBuffer : Nat → K) (size : Nat) : Nat → K :=
  forLoop 0 size (fun i outputBuffer =>
    Function.update outputBuffer i
      ((inputBuffer i - 32768) / divisor inputBuffer size)) outputBuffer

end Code

section Spec

variable {K : Type*} [Field K] [LinearOrder K]

theorem normalizeAudio_apply (inputBuffer outputBuffer : Nat → K) (size i : Nat) :
    normalizeAudio inputBuffer outputBuffer size i =
      if i < size then (inputBuffer i - 32768) / divisor inputBuffer size
      else outputBuffer i := by
  suffices h : normalizeAudio inputBuffer outputBuffer size = fun i =>
      if i < size then (inputBuffer i - 32768) / divisor inputBuffer size
      else outputBuffer i by
    rw [h]
  refine forLoop_induction (P := fun n u => u = fun i =>
    if i < n then (inputBuffer i - 32768) / divisor inputBuffer size
    else outputBuffer i) (Nat.zero_le size) (by simp) ?_
  rintro n _ - - rfl
  funext i
  rcases lt_trichotomy i n with hlt | rfl | hgt
  · rw [Function.update_of_ne hlt.ne, if_pos hlt, if_pos (by omega)]
  · rw [Function.update_self, if_pos (by omega)]
  · rw [Function.update_of_ne hgt.ne', if_neg (by omega), if_neg (by omega)]

/-- The scan bounds every centred value and is attained, or nothing is off
the midpoint. -/
theorem maxAbsValue_spec (inputBuffer : Nat → K) (size : Nat) :
    (∀ i, i < size → |inputBuffer i - 32768| ≤ maxAbsValue inputBuffer size) ∧
      (maxAbsValue inputBuffer size = 0 ∨
        ∃ i, i < size ∧ |inputBuffer i - 32768| = maxAbsValue inputBuffer size) := by
  refine forLoop_induction (P := fun n m =>
    (∀ i, i < n → |inputBuffer i - 32768| ≤ m) ∧
      (m = 0 ∨ ∃ i, i < n ∧ |inputBuffer i - 32768| = m)) (Nat.zero_le size)
    ⟨fun i hi => absurd hi (Nat.not_lt_zero i), Or.inl rfl⟩ ?_
  rintro n m - - ⟨hbound, hattained⟩
  dsimp only
  split_ifs with h
  · refine ⟨?_, Or.inr ⟨n, Nat.lt_succ_self n, rfl⟩⟩
    intro i hi
    rcases Nat.lt_succ_iff_lt_or_eq.mp hi with hlt | rfl
    · exact (hbound i hlt).trans h.le
    · exact le_rfl
  · refine ⟨?_, hattained.imp_right ?_⟩
    · intro i hi
      rcases Nat.lt_succ_iff_lt_or_eq.mp hi with hlt | rfl
      · exact hbound i hlt
      · exact not_lt.mp h
    · rintro ⟨i, hi, heq⟩
      exact ⟨i, Nat.lt_succ_of_lt hi, heq⟩

variable [IsStrictOrderedRing K]

theorem maxAbsValue_nonneg (inputBuffer : Nat → K) (size : Nat) :
    0 ≤ maxAbsValue inputBuffer size := by
  rcases (maxAbsValue_spec inputBuffer size).2 with h | ⟨i, -, h⟩
  · exact h.ge
  · exact h ▸ abs_nonneg _

theorem divisor_pos (inputBuffer : Nat → K) (size : Nat) :
    0 < divisor inputBuffer size := by
  unfold divisor
  split_ifs with h
  · exact one_pos
  · exact lt_of_le_of_ne (maxAbsValue_nonneg inputBuffer size) (Ne.symm h)

theorem maxAbsValue_le_divisor (inputBuffer : Nat → K) (size : Nat) :
    maxAbsValue inputBuffer size ≤ divisor inputBuffer size := by
  unfold divisor
  split_ifs with h
  · rw [h]
    exact zero_le_one
  · exact le_rfl

theorem maxAbsValue_scale {c : K} {inputBuffer scaled : Nat → K} {size : Nat}
    (h : ∀ i, i < size → scaled i - 32768 = c * (inputBuffer i - 32768)) :
    maxAbsValue scaled size = |c| * maxAbsValue inputBuffer size := by
  have habs : ∀ i, i < size → |scaled i - 32768| = |c| * |inputBuffer i - 32768| := by
    intro i hi
    rw [h i hi, abs_mul]
  obtain ⟨hbound, hpeak⟩ := maxAbsValue_spec inputBuffer size
  obtain ⟨hbound', hpeak'⟩ := maxAbsValue_spec scaled size
  apply le_antisymm
  · rcases hpeak' with hzero | ⟨i, hi, heq⟩
    · rw [hzero]
      exact mul_nonneg (abs_nonneg c) (maxAbsValue_nonneg inputBuffer size)
    · rw [← heq, habs i hi]
      exact mul_le_mul_of_nonneg_left (hbound i hi) (abs_nonneg c)
  · rcases hpeak with hzero | ⟨i, hi, heq⟩
    · rw [hzero, mul_zero]
      exact maxAbsValue_nonneg scaled size
    · rw [← heq, ← habs i hi]
      exact hbound' i hi

theorem normalizeAudio_scale {c : K} (hc : c ≠ 0) {inputBuffer scaled : Nat → K}
    {size : Nat} (h : ∀ i, i < size → scaled i - 32768 = c * (inputBuffer i - 32768))
    (outputBuffer outputBuffer' : Nat → K) {i : Nat} (hi : i < size) :
    normalizeAudio scaled outputBuffer size i =
      c / |c| * normalizeAudio inputBuffer outputBuffer' size i := by
  have habs : |c| ≠ 0 := abs_ne_zero.mpr hc
  rw [normalizeAudio_apply, normalizeAudio_apply, if_pos hi, if_pos hi, h i hi, divisor,
    divisor, maxAbsValue_scale h]
  by_cases hzero : maxAbsValue inputBuffer size = 0
  · have hsilent : inputBuffer i - 32768 = 0 := by
      have hbound := (maxAbsValue_spec inputBuffer size).1 i hi
      rw [hzero] at hbound
      exact abs_nonpos_iff.mp hbound
    rw [hsilent, mul_zero, zero_div, zero_div, mul_zero]
  · rw [if_neg (mul_ne_zero habs hzero), if_neg hzero, div_mul_div_comm]

/-- What a normalization is for: one scale for all values, under which none
exceeds one and the largest of them, if any value is off zero, is one. -/
structure Normalizes (centred output : Nat → K) (size : Nat) (scale : K) : Prop where
  scale_pos : 0 < scale
  mul_scale : ∀ i, i < size → output i * scale = centred i
  abs_le_one : ∀ i, i < size → |output i| ≤ 1
  full_scale : (∃ i, i < size ∧ centred i ≠ 0) → ∃ i, i < size ∧ |output i| = 1

namespace Normalizes

variable {centred output : Nat → K} {size : Nat} {scale : K}

theorem eq_zero (h : Normalizes centred output size scale) {i : Nat} (hi : i < size)
    (hzero : centred i = 0) : output i = 0 := by
  rw [← h.mul_scale i hi] at hzero
  exact (mul_eq_zero.mp hzero).resolve_right h.scale_pos.ne'

theorem lt_iff_lt (h : Normalizes centred output size scale) {i j : Nat} (hi : i < size)
    (hj : j < size) : output i < output j ↔ centred i < centred j := by
  rw [← h.mul_scale i hi, ← h.mul_scale j hj]
  exact (mul_lt_mul_iff_of_pos_right h.scale_pos).symm

omit [IsStrictOrderedRing K] in
theorem div_eq_div (h : Normalizes centred output size scale) {i j : Nat} (hi : i < size)
    (hj : j < size) : output i / output j = centred i / centred j := by
  rw [← h.mul_scale i hi, ← h.mul_scale j hj, mul_div_mul_right _ _ h.scale_pos.ne']

end Normalizes

theorem normalizes_normalizeAudio (inputBuffer outputBuffer : Nat → K) (size : Nat) :
    Normalizes (fun i => inputBuffer i - 32768) (normalizeAudio inputBuffer outputBuffer size)
      size (divisor inputBuffer size) := by
  have hpos := divisor_pos inputBuffer size
  obtain ⟨hbound, hpeak⟩ := maxAbsValue_spec inputBuffer size
  have hout : ∀ i, i < size → normalizeAudio inputBuffer outputBuffer size i =
      (inputBuffer i - 32768) / divisor inputBuffer size := by
    intro i hi
    rw [normalizeAudio_apply, if_pos hi]
  have habs : ∀ i, i < size → |normalizeAudio inputBuffer outputBuffer size i| =
      |inputBuffer i - 32768| / divisor inputBuffer size := by
    intro i hi
    rw [hout i hi, abs_div, abs_of_pos hpos]
  refine ⟨hpos, ?_, ?_, ?_⟩
  · intro i hi
    rw [hout i hi, div_mul_cancel₀ _ hpos.ne']
  · intro i hi
    rw [habs i hi]
    exact div_le_one_of_le₀ ((hbound i hi).trans (maxAbsValue_le_divisor _ _)) hpos.le
  · rintro ⟨i, hi, hne⟩
    have hmax : maxAbsValue inputBuffer size ≠ 0 := by
      intro hzero
      exact hne (abs_nonpos_iff.mp ((hbound i hi).trans hzero.le))
    obtain ⟨k, hk, heq⟩ := hpeak.resolve_left hmax
    refine ⟨k, hk, ?_⟩
    rw [habs k hk, heq, divisor, if_neg hmax, div_self hmax]

/-- The whole of `normalize_audio`, with the number that it divides by. -/
theorem normalizeAudio_fullScale (inputBuffer outputBuffer : Nat → K) (size : Nat) :
    (0 < divisor inputBuffer size ∧ ∀ i, i < size →
      |normalizeAudio inputBuffer outputBuffer size i| ≤ 1 ∧
        normalizeAudio inputBuffer outputBuffer size i * divisor inputBuffer size =
          inputBuffer i - 32768) ∧
    ((∃ i, i < size ∧ inputBuffer i ≠ 32768) →
      ∃ i, i < size ∧ |normalizeAudio inputBuffer outputBuffer size i| = 1) ∧
    ((∀ i, i < size → inputBuffer i = 32768) →
      ∀ i, i < size → normalizeAudio inputBuffer outputBuffer size i = 0) ∧
    ∀ i j, i < size → j < size →
      (normalizeAudio inputBuffer outputBuffer size i <
          normalizeAudio inputBuffer outputBuffer size j ↔ inputBuffer i < inputBuffer j) ∧
        normalizeAudio inputBuffer outputBuffer size i /
            normalizeAudio inputBuffer outputBuffer size j =
          (inputBuffer i - 32768) / (inputBuffer j - 32768) := by
  have h := normalizes_normalizeAudio inputBuffer outputBuffer size
  refine ⟨⟨h.scale_pos, fun i hi => ⟨h.abs_le_one i hi, h.mul_scale i hi⟩⟩, ?_, ?_, ?_⟩
  · rintro ⟨i, hi, hne⟩
    exact h.full_scale ⟨i, hi, sub_ne_zero.mpr hne⟩
  · intro hall i hi
    exact h.eq_zero hi (sub_eq_zero.mpr (hall i hi))
  · intro i j hi hj
    exact ⟨(h.lt_iff_lt hi hj).trans (sub_lt_sub_iff_right _), h.div_eq_div hi hj⟩

theorem normalizeAudio_fullScale_low_peak :
    ∃ i, i < 2 ∧
      |normalizeAudio (fun i => if i = 0 then (4096 : ℚ) else 40000) (fun _ => 0) 2 i| = 1 :=
  (normalizeAudio_fullScale (fun i => if i = 0 then (4096 : ℚ) else 40000) (fun _ => 0) 2).2.1
    ⟨0, by decide, by norm_num⟩

end Spec

def storedBuffer (s : Nat → BitVec 16) : Nat → ℚ :=
  fun i => storedSample (readdata (s i))

theorem readdata_toInt (w : BitVec 16) : (readdata w).toInt = w.toNat := by
  have hlt := w.isLt
  rw [readdata, BitVec.zero_or, BitVec.toInt_setWidth]
  simp only [Int.bmod_def]
  omega

theorem storedBuffer_apply (s : Nat → BitVec 16) (i : Nat) :
    storedBuffer s i = ((s i).toNat : ℚ) := by
  rw [storedBuffer, storedSample, readdata_toInt, Int.cast_natCast]

def peak (n : Nat) (s : Nat → BitVec 16) : Nat :=
  (Finset.range n).sup fun j => (s j).toInt.natAbs

/-- Every output is its sample divided by the peak, and silence stays silence. -/
def KeepsSign (n : Nat) (s : Nat → BitVec 16) (outputBuffer : Nat → ℚ) : Prop :=
  (∀ i, i < n → peak n s ≠ 0 →
    normalizeAudio (storedBuffer s) outputBuffer n i =
      ((s i).toInt : ℚ) / (peak n s : ℚ)) ∧
  ((∀ j, j < n → s j = 0) →
    ∀ i, i < n → normalizeAudio (storedBuffer s) outputBuffer n i = 0)

theorem normalizeAudio_neg {n i : Nat} (hi : i < n) (s : Nat → BitVec 16)
    (outputBuffer : Nat → ℚ) (hs : 0 ≤ (s i).toInt) :
    normalizeAudio (storedBuffer s) outputBuffer n i < 0 := by
  have hnat : (s i).toNat < 32768 := by
    rw [BitVec.toInt_eq_toNat_cond] at hs
    have hlt := (s i).isLt
    split at hs <;> omega
  have hcentred : ((s i).toNat : ℚ) - 32768 < 0 := by
    have hcast : ((s i).toNat : ℚ) < 32768 := by exact_mod_cast hnat
    linarith
  rw [normalizeAudio_apply, if_pos hi, storedBuffer_apply]
  exact div_neg_of_neg_of_pos hcentred (divisor_pos _ _)

theorem normalizeAudio_nonneg {n i : Nat} (hi : i < n) (s : Nat → BitVec 16)
    (outputBuffer : Nat → ℚ) (hs : (s i).toInt < 0) :
    0 ≤ normalizeAudio (storedBuffer s) outputBuffer n i := by
  have hnat : 32768 ≤ (s i).toNat := by
    rw [BitVec.toInt_eq_toNat_cond] at hs
    split at hs <;> omega
  have hcentred : (0 : ℚ) ≤ ((s i).toNat : ℚ) - 32768 := by
    have hcast : (32768 : ℚ) ≤ ((s i).toNat : ℚ) := by exact_mod_cast hnat
    linarith
  rw [normalizeAudio_apply, if_pos hi, storedBuffer_apply]
  exact div_nonneg hcentred (divisor_pos _ _).le

theorem peak_eq_zero_iff {n : Nat} {s : Nat → BitVec 16} :
    peak n s = 0 ↔ ∀ j, j < n → s j = 0 := by
  simp only [peak, ← Nat.bot_eq_zero, Finset.sup_eq_bot_iff, Finset.mem_range]
  simp only [Nat.bot_eq_zero, Int.natAbs_eq_zero]
  constructor
  · intro h j hj
    exact BitVec.eq_of_toInt_eq (by simpa using h j hj)
  · intro h j hj
    rw [h j hj]
    rfl

theorem not_keepsSign {n : Nat} (hn : 0 < n) (s : Nat → BitVec 16)
    (outputBuffer : Nat → ℚ) : ¬ KeepsSign n s outputBuffer := by
  rintro ⟨hscaled, hsilent⟩
  by_cases hpeak : peak n s = 0
  · have hzero := peak_eq_zero_iff.mp hpeak
    have hneg := normalizeAudio_neg hn s outputBuffer (by rw [hzero 0 hn]; decide)
    rw [hsilent hzero 0 hn] at hneg
    exact lt_irrefl _ hneg
  · have hpos : (0 : ℚ) < peak n s := by
      exact_mod_cast Nat.pos_of_ne_zero hpeak
    have heq := hscaled 0 hn hpeak
    rcases lt_or_ge (s 0).toInt 0 with hs | hs
    · have hsign : ((s 0).toInt : ℚ) / peak n s < 0 :=
        div_neg_of_neg_of_pos (by exact_mod_cast hs) hpos
      exact absurd (normalizeAudio_nonneg hn s outputBuffer hs) (heq ▸ not_le.mpr hsign)
    · have hsign : 0 ≤ ((s 0).toInt : ℚ) / peak n s :=
        div_nonneg (by exact_mod_cast hs) hpos.le
      exact absurd (normalizeAudio_neg hn s outputBuffer hs) (heq ▸ not_lt.mpr hsign)

/-- The signs of the samples survive on the empty recording only. -/
theorem keepsSign_iff (n : Nat) (s : Nat → BitVec 16) (outputBuffer : Nat → ℚ) :
    KeepsSign n s outputBuffer ↔ n = 0 := by
  constructor
  · intro h
    by_contra hn
    exact not_keepsSign (Nat.pos_of_ne_zero hn) s outputBuffer h
  · rintro rfl
    exact ⟨fun i hi => absurd hi (Nat.not_lt_zero i),
      fun _ i hi => absurd hi (Nat.not_lt_zero i)⟩

theorem normalizeAudio_one_sample :
    normalizeAudio (storedBuffer fun _ => 100) (fun _ => 0) 1 0 = -1 ∧
      ¬ KeepsSign 1 (fun _ => 100) (fun _ => 0) := by
  refine ⟨?_, not_keepsSign one_pos _ _⟩
  have hstored : storedBuffer (fun _ => 100) = fun _ => 100 := by
    funext i
    rw [storedBuffer_apply]
    rfl
  rw [normalizeAudio_apply, hstored]
  norm_num [divisor, maxAbsValue, forLoop]

end RockPaperScissors.SampleNormalization
