import RockPaperScissors.KissFftTransform

namespace RockPaperScissors.KissFftRoundTrip

open RockPaperScissors.KissFft
open RockPaperScissors.KissFftButterflies
open RockPaperScissors.KissFftFactors
open RockPaperScissors.KissFftTransform
open RockPaperScissors.Library.DiscreteFourier

variable {malloc malloc' : Nat → Option (KissFftState ℝ)} {n : Nat}
variable {inverseFft inverseFft' : Int} {block block' : Option (KissFftState ℝ)}
variable {lenmem lenmem' lenmem1 lenmem1' : Option Nat} {st st' : KissFftState ℝ}

section Sums

theorem root_pow_mul (n j k : Nat) (inverse : Int) :
    root n inverse ^ (j * k) =
      Complex.exp ((if inverse ≠ 0 then 1 else -1) * (2 * Real.pi * Complex.I * j * k / n)) := by
  rw [root_eq]
  split
  · rw [← Complex.exp_nat_mul, one_mul]
    congr 1
    push_cast
    ring
  · rw [inv_pow, ← Complex.exp_nat_mul, ← Complex.exp_neg]
    congr 1
    push_cast
    ring

/-- Every call with a configuration of `kiss_fft_alloc`: the output is the sum
that defines the discrete Fourier transform, and only the output is written. -/
theorem kissFftStride_sum (hn : 1 ≤ n)
    (h : kissFftAlloc realTrigonometry malloc n inverseFft block lenmem = (some st, lenmem'))
    (mem : Memory ℝ) {fin fout inStride tmpbuf : Nat}
    (hbuffers : Usable n fin fout inStride tmpbuf) :
    (∀ k, k < n → toComplex (kissFftStride mem st fin fout inStride tmpbuf (fout + k)) =
      ∑ j ∈ Finset.range n, toComplex (mem (fin + j * inStride)) *
        Complex.exp ((if inverseFft ≠ 0 then 1 else -1) *
          (2 * Real.pi * Complex.I * j * k / n))) ∧
    ∀ a, ¬ Written n fin fout tmpbuf a →
      kissFftStride mem st fin fout inStride tmpbuf a = mem a := by
  obtain ⟨houtput, hframe⟩ := kissFftStride_transform hn h mem hbuffers
  refine ⟨?_, hframe⟩
  intro k hk
  rw [houtput k hk, transform]
  simp only [root_pow_mul, strided]

noncomputable def rampMemory : Memory ℝ := fun a => ⟨a, 1⟩

theorem kissFftStride_sum_twelve :
    (∀ k, k < 12 → toComplex (kissFftStride rampMemory (freshState 12 1) 0 12 1 0 (12 + k)) =
      ∑ j ∈ Finset.range 12, toComplex (rampMemory (0 + j * 1)) *
        Complex.exp ((if (1 : Int) ≠ 0 then 1 else -1) *
          (2 * Real.pi * Complex.I * j * k / (12 : Nat)))) ∧
    ∀ a, ¬ Written 12 0 12 0 a →
      kissFftStride rampMemory (freshState 12 1) 0 12 1 0 a = rampMemory a :=
  kissFftStride_sum (by decide) (kissFftAlloc_fresh 12 1) _ (usable_of_le (by decide) le_rfl 0)

end Sums

section Directions

theorem root_opposite (hopposite : inverseFft ≠ 0 ↔ inverseFft' = 0) :
    root n inverseFft' = (root n inverseFft)⁻¹ := by
  by_cases hinverse : inverseFft ≠ 0
  · rw [root_eq, root_eq, if_pos hinverse, if_neg (not_not.mpr (hopposite.mp hinverse))]
  · rw [root_eq, root_eq, if_neg hinverse, if_pos (fun h => hinverse (hopposite.mpr h)), inv_inv]

/-- The two directions, one after the other, multiply a signal by its length. -/
theorem kissFft_roundTrip (hn : 1 ≤ n) (hopposite : inverseFft ≠ 0 ↔ inverseFft' = 0)
    (h : kissFftAlloc realTrigonometry malloc n inverseFft block lenmem = (some st, lenmem'))
    (h' : kissFftAlloc realTrigonometry malloc' n inverseFft' block' lenmem1 =
      (some st', lenmem1'))
    (mem : Memory ℝ) {signal spectrum restored tmpbuf tmpbuf' : Nat}
    (hbuffers : Usable n signal spectrum 1 tmpbuf)
    (hbuffers' : Usable n spectrum restored 1 tmpbuf') :
    ∀ j, j < n →
      toComplex (kissFft (kissFft mem st signal spectrum tmpbuf) st' spectrum restored tmpbuf'
        (restored + j)) = n * toComplex (mem (signal + j)) := by
  intro j hj
  have hforth := (kissFftStride_transform hn h mem hbuffers).1
  have hback := (kissFftStride_transform hn h'
    (kissFftStride mem st signal spectrum 1 tmpbuf) hbuffers').1
  rw [kissFft, kissFft, hback j hj, root_opposite hopposite]
  calc transform (root n inverseFft)⁻¹ n
        (strided (kissFftStride mem st signal spectrum 1 tmpbuf) spectrum 1) j
      = transform (root n inverseFft)⁻¹ n
          (transform (root n inverseFft) n (strided mem signal 1)) j := by
        apply transform_congr
        intro k hk
        rw [strided, Nat.mul_one, hforth k hk]
    _ = n * strided mem signal 1 j :=
        transform_inv_transform (root_primitive hn inverseFft) _ hj
    _ = n * toComplex (mem (signal + j)) := by rw [strided, Nat.mul_one]

theorem kissFft_roundTrip_seven :
    toComplex (kissFft (kissFft rampMemory (freshState 7 0) 0 7 0) (freshState 7 1) 7 14 0
      (14 + 3)) = (7 : Nat) * toComplex (rampMemory (0 + 3)) :=
  kissFft_roundTrip (by decide) (by decide) (kissFftAlloc_fresh 7 0) (kissFftAlloc_fresh 7 1) _
    (usable_of_le (by decide) le_rfl 0) (usable_of_le (by decide) le_rfl 0) 3 (by decide)

end Directions

section Butterflies

/-- In every stage of every configuration, the butterfly written for the radix
does to the memory what the generic one would. -/
theorem kfBfly_generic (hn : 1 ≤ n)
    (h : kissFftAlloc realTrigonometry malloc n inverseFft block lenmem = (some st, lenmem'))
    {fstride p m : Nat} (hlen : fstride * (p * m) = n) (mem : Memory ℝ) (Fout : Nat) :
    kfBfly mem Fout fstride st m p = kfBflyGeneric mem Fout fstride st m p := by
  obtain ⟨hnfft, _, htwiddles⟩ := kissFftAlloc_spec hn h
  have hstage : fstride * (p * m) = st.nfft := hlen.trans hnfft.symm
  exact (kfBfly_recombines htwiddles hstage mem Fout).unique
    (kfBflyGeneric_recombines htwiddles hstage mem Fout)

theorem kfBfly_generic_twelve :
    kfBfly rampMemory 0 4 (freshState 12 0) 1 3 =
      kfBflyGeneric rampMemory 0 4 (freshState 12 0) 1 3 :=
  kfBfly_generic (n := 12) (by decide) (kissFftAlloc_fresh 12 0) (by decide) _ _

end Butterflies

end RockPaperScissors.KissFftRoundTrip
