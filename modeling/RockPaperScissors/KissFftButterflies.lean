import RockPaperScissors.KissFft
import RockPaperScissors.Library.IndependentPasses
import Mathlib.RingTheory.RootsOfUnity.Complex

namespace RockPaperScissors.KissFftButterflies

open RockPaperScissors.KissFft
open RockPaperScissors.Library.CountedLoop
open RockPaperScissors.Library.IndependentPasses

section Complex

def toComplex (z : KissFftCpx ℝ) : ℂ := ⟨z.r, z.i⟩

theorem toComplex_injective : Function.Injective toComplex := by
  rintro ⟨r, i⟩ ⟨r', i'⟩ h
  simpa [toComplex, Complex.ext_iff] using h

@[simp] theorem toComplex_cMul (a b : KissFftCpx ℝ) :
    toComplex (cMul a b) = toComplex a * toComplex b := by
  apply Complex.ext <;> simp [toComplex, cMul]

@[simp] theorem toComplex_cAdd (a b : KissFftCpx ℝ) :
    toComplex (cAdd a b) = toComplex a + toComplex b := by
  apply Complex.ext <;> simp [toComplex, cAdd]

@[simp] theorem toComplex_cSub (a b : KissFftCpx ℝ) :
    toComplex (cSub a b) = toComplex a - toComplex b := by
  apply Complex.ext <;> simp [toComplex, cSub]

/-- A value plus another one turned by a quarter, the way of the transform. -/
theorem toComplex_add_quarter {inverse : Int} {ε : ℂ}
    (hε : ε = if inverse ≠ 0 then Complex.I else -Complex.I) (a b : KissFftCpx ℝ) :
    toComplex (if inverse ≠ 0 then ⟨a.r - b.i, a.i + b.r⟩ else ⟨a.r + b.i, a.i - b.r⟩) =
      toComplex a + ε * toComplex b := by
  rw [hε]
  split <;> apply Complex.ext <;> simp [toComplex, sub_eq_add_neg]

theorem toComplex_sub_quarter {inverse : Int} {ε : ℂ}
    (hε : ε = if inverse ≠ 0 then Complex.I else -Complex.I) (a b : KissFftCpx ℝ) :
    toComplex (if inverse ≠ 0 then ⟨a.r + b.i, a.i - b.r⟩ else ⟨a.r - b.i, a.i + b.r⟩) =
      toComplex a - ε * toComplex b := by
  rw [hε]
  split <;> apply Complex.ext <;> simp [toComplex, sub_eq_add_neg]

theorem toComplex_add_third (f a b : KissFftCpx ℝ) (s : ℝ) :
    toComplex ⟨f.r - halfOf a.r - (cMulByScalar b s).i, f.i - halfOf a.i + (cMulByScalar b s).r⟩ =
      toComplex f - toComplex a / 2 + s * Complex.I * toComplex b := by
  apply Complex.ext <;> simp [toComplex, halfOf, cMulByScalar] <;> ring

theorem toComplex_sub_third (f a b : KissFftCpx ℝ) (s : ℝ) :
    toComplex ⟨f.r - halfOf a.r + (cMulByScalar b s).i, f.i - halfOf a.i - (cMulByScalar b s).r⟩ =
      toComplex f - toComplex a / 2 - s * Complex.I * toComplex b := by
  apply Complex.ext <;> simp [toComplex, halfOf, cMulByScalar] <;> ring

theorem toComplex_sum (f a b : KissFftCpx ℝ) :
    toComplex ⟨f.r + (a.r + b.r), f.i + (a.i + b.i)⟩ =
      toComplex f + (toComplex a + toComplex b) := by
  apply Complex.ext <;> simp [toComplex]

theorem toComplex_scaled (f a b : KissFftCpx ℝ) (s t : ℝ) :
    toComplex ⟨f.r + a.r * s + b.r * t, f.i + a.i * s + b.i * t⟩ =
      toComplex f + s * toComplex a + t * toComplex b := by
  apply Complex.ext <;> simp [toComplex] <;> ring

theorem toComplex_turned (a b : KissFftCpx ℝ) (s t : ℝ) :
    toComplex ⟨a.i * s + b.i * t, -(a.r * s) - b.r * t⟩ =
      -(s * Complex.I * toComplex a + t * Complex.I * toComplex b) := by
  apply Complex.ext <;> simp [toComplex] <;> ring

theorem toComplex_turned_back (a b : KissFftCpx ℝ) (s t : ℝ) :
    toComplex ⟨-(a.i * s) + b.i * t, a.r * s - b.r * t⟩ =
      s * Complex.I * toComplex a - t * Complex.I * toComplex b := by
  apply Complex.ext <;> simp [toComplex] <;> ring

theorem toComplex_re_add_im (z : KissFftCpx ℝ) : (z.r : ℂ) + z.i * Complex.I = toComplex z := by
  apply Complex.ext <;> simp [toComplex]

theorem toComplex_re_sub_im {z : KissFftCpx ℝ} {n : Nat} (hn : n ≠ 0) {y : ℂ}
    (hroot : toComplex z ^ n = 1) (hinverse : toComplex z * y = 1) :
    (z.r : ℂ) - z.i * Complex.I = y := by
  have hconj : (z.r : ℂ) - z.i * Complex.I = starRingEnd ℂ (toComplex z) := by
    apply Complex.ext <;> simp [toComplex]
  have hnorm : ‖toComplex z‖ = 1 := Complex.norm_eq_one_of_pow_eq_one hroot hn
  rw [hconj, ← Complex.inv_eq_conj hnorm]
  exact inv_eq_of_mul_eq_one_right hinverse

end Complex

section Stage

/-- The cell `u` of the `q`-th of the transforms of length `m` at `Fout`. -/
def cell (Fout m u q : Nat) : Nat := Fout + (u + q * m)

theorem cell_injective {Fout m u v q q' : Nat} (hu : u < m) (hv : v < m)
    (h : cell Fout m u q = cell Fout m v q') : u = v ∧ q = q' := by
  have heq : u + m * q = v + m * q' := by
    rw [Nat.mul_comm m, Nat.mul_comm m]
    simpa [cell] using h
  have hmod := congrArg (· % m) heq
  have hdiv := congrArg (· / m) heq
  simp only [Nat.add_mul_mod_self_left, Nat.mod_eq_of_lt hu, Nat.mod_eq_of_lt hv] at hmod
  simp only [Nat.add_mul_div_left _ _ (Nat.zero_lt_of_lt hu), Nat.div_eq_of_lt hu,
    Nat.div_eq_of_lt hv, Nat.zero_add] at hdiv
  exact ⟨hmod, hdiv⟩

/-- The value of the column `u` in row `q` of a stage: every row turned by a
power of `w`. -/
def columnSum (w : ℂ) (Fout m p : Nat) (mem : Memory ℝ) (u q : Nat) : ℂ :=
  ∑ q1 ∈ Finset.range p, toComplex (mem (cell Fout m u q1)) * w ^ (q1 * (u + q * m))

/-- What a butterfly is for: `p` transforms of length `m` at `Fout` become one. -/
structure Recombines (w : ℂ) (Fout m p : Nat) (mem mem' : Memory ℝ) : Prop where
  column : ∀ u q, u < m → q < p →
    toComplex (mem' (cell Fout m u q)) = columnSum w Fout m p mem u q
  frame : ∀ a, (∀ u q, u < m → q < p → a ≠ cell Fout m u q) → mem' a = mem a

theorem columnSum_congr {w : ℂ} {Fout m p : Nat} {mem mem' : Memory ℝ} {u : Nat}
    (h : ∀ q, q < p → mem (cell Fout m u q) = mem' (cell Fout m u q)) (q : Nat) :
    columnSum w Fout m p mem u q = columnSum w Fout m p mem' u q := by
  apply Finset.sum_congr rfl
  intro q1 hq1
  rw [h q1 (Finset.mem_range.mp hq1)]

theorem Recombines.unique {w : ℂ} {Fout m p : Nat} {mem mem' mem'' : Memory ℝ}
    (h : Recombines w Fout m p mem mem') (h' : Recombines w Fout m p mem mem'') :
    mem' = mem'' := by
  funext a
  by_cases ha : ∃ u q, u < m ∧ q < p ∧ a = cell Fout m u q
  · obtain ⟨u, q, hu, hq, rfl⟩ := ha
    apply toComplex_injective
    rw [h.column u q hu hq, h'.column u q hu hq]
  · push Not at ha
    rw [h.frame a ha, h'.frame a ha]

theorem recombines_of_pass {w : ℂ} {Fout m p : Nat}
    {body : Nat → Memory ℝ → Memory ℝ}
    (hframe : ∀ u mem a, u < m → (∀ q, q < p → a ≠ cell Fout m u q) → body u mem a = mem a)
    (hpass : ∀ u mem q, u < m → q < p →
      toComplex (body u mem (cell Fout m u q)) = columnSum w Fout m p mem u q)
    (mem : Memory ℝ) : Recombines w Fout m p mem (forLoop 0 m body mem) := by
  have hindependent : Independent m (fun u a => ∃ q, q < p ∧ a = cell Fout m u q) body := by
    refine ⟨?_, ?_, ?_⟩
    · rintro u v _ hu hv ⟨q, _, rfl⟩ ⟨q', _, h⟩
      exact (cell_injective hu hv h).1
    · intro u mem a hu ha
      exact hframe u mem a hu fun q hq heq => ha ⟨q, hq, heq⟩
    · rintro u mem mem' hu hagree _ ⟨q, hq, rfl⟩
      apply toComplex_injective
      rw [hpass u mem q hu hq, hpass u mem' q hu hq]
      apply columnSum_congr
      intro q1 hq1
      apply hagree
      rintro v hv hne ⟨q', _, heq⟩
      exact hne (cell_injective hv hu heq.symm).1
  constructor
  · intro u q hu hq
    rw [hindependent.forLoop_owner mem hu ⟨q, hq, rfl⟩]
    exact hpass u mem q hu hq
  · intro a ha
    apply hindependent.forLoop_frame
    rintro u hu ⟨q, hq, heq⟩
    exact ha u q hu hq heq

end Stage

section Twiddles

/-- What `kiss_fft_alloc` puts into the twiddle table: the powers of a primitive
root, whose quarter turn goes the way of the transform. -/
structure TwiddlesOf (st : KissFftState ℝ) (ω : ℂ) : Prop where
  pos : 0 < st.nfft
  primitive : IsPrimitiveRoot ω st.nfft
  table : ∀ i, i < st.nfft → toComplex (st.twiddles i) = ω ^ i
  quarter : ∀ m, m * 4 = st.nfft → ω ^ m = if st.inverse ≠ 0 then Complex.I else -Complex.I

variable {st : KissFftState ℝ} {ω : ℂ} {fstride m p : Nat}

theorem TwiddlesOf.twiddle (h : TwiddlesOf st ω) (hlen : fstride * (p * m) = st.nfft)
    (e index : Nat) (he : e < p * m) (hindex : index = fstride * e) :
    toComplex (st.twiddles index) = (ω ^ fstride) ^ e := by
  have hpos := h.pos
  have hstride : 0 < fstride := by
    rw [← hlen] at hpos
    exact Nat.pos_of_mul_pos_right hpos
  have hlt : fstride * e < st.nfft := by
    rw [← hlen]
    exact Nat.mul_lt_mul_of_pos_left he hstride
  rw [hindex, h.table _ hlt, pow_mul]

theorem TwiddlesOf.primitive_radix (h : TwiddlesOf st ω) (hlen : fstride * (p * m) = st.nfft) :
    IsPrimitiveRoot ((ω ^ fstride) ^ m) p := by
  rw [← pow_mul]
  exact h.primitive.pow h.pos (by rw [← hlen]; ring)

theorem columnSum_eq (w : ℂ) (Fout m p : Nat) (mem : Memory ℝ) (u q : Nat) :
    columnSum w Fout m p mem u q =
      ∑ q1 ∈ Finset.range p,
        toComplex (mem (cell Fout m u q1)) * w ^ (q1 * u) * (w ^ m) ^ (q1 * q) := by
  apply Finset.sum_congr rfl
  intro q1 _
  rw [mul_assoc, ← pow_mul, ← pow_add]
  congr 2
  ring

theorem kfBfly2_recombines (h : TwiddlesOf st ω) (hlen : fstride * (2 * m) = st.nfft)
    (mem : Memory ℝ) (Fout : Nat) :
    Recombines (ω ^ fstride) Fout m 2 mem (kfBfly2 mem Fout fstride st m) := by
  have hroot : (ω ^ fstride) ^ m = -1 := (h.primitive_radix hlen).eq_neg_one_of_two_right
  apply recombines_of_pass
  · intro u mem a hu ha
    have h0 : a ≠ Fout + u := by simpa [cell] using ha 0 (by decide)
    have h1 : a ≠ Fout + m + u := by
      have := ha 1 (by decide)
      simp only [cell] at this
      omega
    rw [Function.update_of_ne h0, Function.update_of_ne h1]
  · intro u mem q hu hq
    have htwiddle := h.twiddle hlen (1 * u) (u * fstride) (by omega) (by ring)
    have h0 : cell Fout m u 0 = Fout + u := by rw [cell]; omega
    have h1 : cell Fout m u 1 = Fout + m + u := by rw [cell]; omega
    rw [columnSum_eq]
    simp only [Finset.sum_range_succ, Finset.sum_range_zero, h0, h1, hroot]
    interval_cases q
    · rw [h0]
      simp (disch := omega) only [Function.update_of_ne, Function.update_self,
        toComplex_cAdd, toComplex_cMul, htwiddle]
      ring
    · rw [h1]
      simp (disch := omega) only [Function.update_of_ne, Function.update_self,
        toComplex_cSub, toComplex_cMul, htwiddle]
      ring

theorem kfBfly4_recombines (h : TwiddlesOf st ω) (hlen : fstride * (4 * m) = st.nfft)
    (mem : Memory ℝ) (Fout : Nat) :
    Recombines (ω ^ fstride) Fout m 4 mem (kfBfly4 mem Fout fstride st m) := by
  have hroot : (ω ^ fstride) ^ m = if st.inverse ≠ 0 then Complex.I else -Complex.I := by
    rw [← pow_mul]
    exact h.quarter (fstride * m) (by rw [← hlen]; ring)
  have hsq : ((ω ^ fstride) ^ m) ^ 2 = -1 := by
    rw [hroot]
    split <;> simp
  apply recombines_of_pass
  · intro u mem a hu ha
    have h0 : a ≠ Fout + u := by simpa [cell] using ha 0 (by decide)
    have h1 : a ≠ Fout + u + m := by simpa [cell, add_assoc] using ha 1 (by decide)
    have h2 : a ≠ Fout + u + 2 * m := by simpa [cell, add_assoc] using ha 2 (by decide)
    have h3 : a ≠ Fout + u + 3 * m := by simpa [cell, add_assoc] using ha 3 (by decide)
    simp only [ite_apply, ite_self, Function.update_of_ne h0, Function.update_of_ne h1,
      Function.update_of_ne h2, Function.update_of_ne h3]
  · intro u mem q hu hq
    have htwiddle1 := h.twiddle hlen (1 * u) (u * fstride) (by omega) (by ring)
    have htwiddle2 := h.twiddle hlen (2 * u) (u * (fstride * 2)) (by omega)
      (by ring)
    have htwiddle3 := h.twiddle hlen (3 * u) (u * (fstride * 3)) (by omega)
      (by ring)
    have h0 : cell Fout m u 0 = Fout + u := by rw [cell]; omega
    have h1 : cell Fout m u 1 = Fout + u + m := by rw [cell]; omega
    have h2 : cell Fout m u 2 = Fout + u + 2 * m := by rw [cell]; omega
    have h3 : cell Fout m u 3 = Fout + u + 3 * m := by rw [cell]; omega
    rw [columnSum_eq]
    simp only [Finset.sum_range_succ, Finset.sum_range_zero, h0, h1, h2, h3]
    generalize (ω ^ fstride) ^ m = ε at hroot hsq ⊢
    generalize hr1 : toComplex (mem (Fout + u + m)) * (ω ^ fstride) ^ (1 * u) = r1
    generalize hr2 : toComplex (mem (Fout + u + 2 * m)) * (ω ^ fstride) ^ (2 * u) = r2
    generalize hr3 : toComplex (mem (Fout + u + 3 * m)) * (ω ^ fstride) ^ (3 * u) = r3
    interval_cases q
    · rw [h0]
      simp (disch := omega) only [ite_apply, ite_self, Function.update_of_ne,
        Function.update_self, toComplex_cAdd, toComplex_cMul, htwiddle1, htwiddle2, htwiddle3,
        hr1, hr2, hr3]
      ring
    · rw [h1]
      simp (disch := omega) only [ite_apply, Function.update_of_ne, Function.update_self,
        toComplex_add_quarter hroot, toComplex_cSub, toComplex_cMul, htwiddle1, htwiddle2,
        htwiddle3, hr1, hr2, hr3]
      linear_combination (-r2 - r3 * ε) * hsq
    · rw [h2]
      simp (disch := omega) only [ite_apply, ite_self, Function.update_of_ne,
        Function.update_self, toComplex_cSub, toComplex_cAdd, toComplex_cMul, htwiddle1,
        htwiddle2, htwiddle3, hr1, hr2, hr3]
      linear_combination (-r1 - r2 * (ε ^ 2 - 1) - r3 * (ε ^ 4 - ε ^ 2 + 1)) * hsq
    · rw [h3]
      simp (disch := omega) only [ite_apply, Function.update_of_ne, Function.update_self,
        toComplex_sub_quarter hroot, toComplex_cSub, toComplex_cMul, htwiddle1, htwiddle2,
        htwiddle3, hr1, hr2, hr3]
      linear_combination (-r1 * ε - r2 * (ε ^ 4 - ε ^ 2 + 1) -
        r3 * ε * (ε ^ 4 + 1) * (ε ^ 2 - 1)) * hsq

theorem kfBfly3_recombines (h : TwiddlesOf st ω) (hlen : fstride * (3 * m) = st.nfft)
    (mem : Memory ℝ) (Fout : Nat) :
    Recombines (ω ^ fstride) Fout m 3 mem (kfBfly3 mem Fout fstride st m) := by
  have hprimitive : IsPrimitiveRoot ((ω ^ fstride) ^ m) 3 := h.primitive_radix hlen
  have hgeom : 1 + (ω ^ fstride) ^ m + ((ω ^ fstride) ^ m) ^ 2 = 0 := by
    simpa [Finset.sum_range_succ] using hprimitive.geom_sum_eq_zero (by decide)
  apply recombines_of_pass
  · intro u mem a hu ha
    have h0 : a ≠ Fout + u := by simpa [cell] using ha 0 (by decide)
    have h1 : a ≠ Fout + u + m := by simpa [cell, add_assoc] using ha 1 (by decide)
    have h2 : a ≠ Fout + u + 2 * m := by simpa [cell, add_assoc] using ha 2 (by decide)
    rw [Function.update_of_ne h1, Function.update_of_ne h2, Function.update_of_ne h0,
      Function.update_of_ne h1]
  · intro u mem q hu hq
    have htwiddle1 := h.twiddle hlen (1 * u) (u * fstride) (by omega) (by ring)
    have htwiddle2 := h.twiddle hlen (2 * u) (u * (fstride * 2)) (by omega)
      (by ring)
    have hepi3 := h.twiddle hlen m (fstride * m) (by omega) rfl
    have h0 : cell Fout m u 0 = Fout + u := by rw [cell]; omega
    have h1 : cell Fout m u 1 = Fout + u + m := by rw [cell]; omega
    have h2 : cell Fout m u 2 = Fout + u + 2 * m := by rw [cell]; omega
    rw [columnSum_eq]
    simp only [Finset.sum_range_succ, Finset.sum_range_zero, h0, h1, h2]
    generalize (ω ^ fstride) ^ m = ε at hprimitive hgeom hepi3 ⊢
    generalize st.twiddles (fstride * m) = epi3 at hepi3 ⊢
    generalize hr1 : toComplex (mem (Fout + u + m)) * (ω ^ fstride) ^ (1 * u) = r1
    generalize hr2 : toComplex (mem (Fout + u + 2 * m)) * (ω ^ fstride) ^ (2 * u) = r2
    -- the real part of the root is -1/2, the code reads its imaginary part only
    have him : (epi3.i : ℂ) * Complex.I = ε + 1 / 2 := by
      have hplus := toComplex_re_add_im epi3
      have hminus : (epi3.r : ℂ) - epi3.i * Complex.I = ε ^ 2 := by
        apply toComplex_re_sub_im (n := 3) (by decide)
        · rw [hepi3, hprimitive.pow_eq_one]
        · rw [hepi3, ← pow_succ', hprimitive.pow_eq_one]
      rw [hepi3] at hplus
      linear_combination (hplus - hminus - hgeom) / 2
    interval_cases q
    · rw [h0]
      simp (disch := omega) only [Function.update_of_ne, Function.update_self, toComplex_cAdd,
        toComplex_cMul, htwiddle1, htwiddle2, hr1, hr2]
      ring
    · rw [h1]
      simp (disch := omega) only [Function.update_of_ne, Function.update_self,
        toComplex_add_third, toComplex_cAdd, toComplex_cSub, toComplex_cMul, htwiddle1,
        htwiddle2, hr1, hr2, him]
      linear_combination -r2 * hgeom
    · rw [h2]
      simp (disch := omega) only [Function.update_of_ne, Function.update_self,
        toComplex_sub_third, toComplex_cAdd, toComplex_cSub, toComplex_cMul, htwiddle1,
        htwiddle2, hr1, hr2, him]
      linear_combination (-r1 - r2 * ε * (ε - 1)) * hgeom

theorem kfBfly5_recombines (h : TwiddlesOf st ω) (hlen : fstride * (5 * m) = st.nfft)
    (mem : Memory ℝ) (Fout : Nat) :
    Recombines (ω ^ fstride) Fout m 5 mem (kfBfly5 mem Fout fstride st m) := by
  have hprimitive : IsPrimitiveRoot ((ω ^ fstride) ^ m) 5 := h.primitive_radix hlen
  apply recombines_of_pass
  · intro u mem a hu ha
    have h0 : a ≠ Fout + u := by simpa [cell] using ha 0 (by decide)
    have h1 : a ≠ Fout + u + m := by simpa [cell, add_assoc] using ha 1 (by decide)
    have h2 : a ≠ Fout + u + 2 * m := by simpa [cell, add_assoc] using ha 2 (by decide)
    have h3 : a ≠ Fout + u + 3 * m := by simpa [cell, add_assoc] using ha 3 (by decide)
    have h4 : a ≠ Fout + u + 4 * m := by simpa [cell, add_assoc] using ha 4 (by decide)
    rw [Function.update_of_ne h3, Function.update_of_ne h2, Function.update_of_ne h4,
      Function.update_of_ne h1, Function.update_of_ne h0]
  · intro u mem q hu hq
    have htwiddle1 := h.twiddle hlen (1 * u) (u * fstride) (by omega) (by ring)
    have htwiddle2 := h.twiddle hlen (2 * u) (2 * u * fstride) (by omega)
      (by ring)
    have htwiddle3 := h.twiddle hlen (3 * u) (3 * u * fstride) (by omega)
      (by ring)
    have htwiddle4 := h.twiddle hlen (4 * u) (4 * u * fstride) (by omega)
      (by ring)
    have hya := h.twiddle hlen m (fstride * m) (by omega) rfl
    have hyb := h.twiddle hlen (m * 2) (fstride * 2 * m) (by omega) (by ring)
    rw [pow_mul] at hyb
    have h0 : cell Fout m u 0 = Fout + u := by rw [cell]; omega
    have h1 : cell Fout m u 1 = Fout + u + m := by rw [cell]; omega
    have h2 : cell Fout m u 2 = Fout + u + 2 * m := by rw [cell]; omega
    have h3 : cell Fout m u 3 = Fout + u + 3 * m := by rw [cell]; omega
    have h4 : cell Fout m u 4 = Fout + u + 4 * m := by rw [cell]; omega
    rw [columnSum_eq]
    simp only [Finset.sum_range_succ, Finset.sum_range_zero, h0, h1, h2, h3, h4]
    generalize (ω ^ fstride) ^ m = ε at hprimitive hya hyb ⊢
    generalize st.twiddles (fstride * m) = ya at hya ⊢
    generalize st.twiddles (fstride * 2 * m) = yb at hyb ⊢
    generalize hr1 : toComplex (mem (Fout + u + m)) * (ω ^ fstride) ^ (1 * u) = r1
    generalize hr2 : toComplex (mem (Fout + u + 2 * m)) * (ω ^ fstride) ^ (2 * u) = r2
    generalize hr3 : toComplex (mem (Fout + u + 3 * m)) * (ω ^ fstride) ^ (3 * u) = r3
    generalize hr4 : toComplex (mem (Fout + u + 4 * m)) * (ω ^ fstride) ^ (4 * u) = r4
    have hfifth := hprimitive.pow_eq_one
    have h1plus : (ya.r : ℂ) + ya.i * Complex.I = ε := by rw [toComplex_re_add_im, hya]
    have h2plus : (yb.r : ℂ) + yb.i * Complex.I = ε ^ 2 := by rw [toComplex_re_add_im, hyb]
    have h1minus : (ya.r : ℂ) - ya.i * Complex.I = ε ^ 4 := by
      apply toComplex_re_sub_im (n := 5) (by decide)
      · rw [hya, hfifth]
      · rw [hya, ← pow_succ', hfifth]
    have h2minus : (yb.r : ℂ) - yb.i * Complex.I = ε ^ 3 := by
      apply toComplex_re_sub_im (n := 5) (by decide)
      · rw [hyb, ← pow_mul, Nat.mul_comm, pow_mul, hfifth, one_pow]
      · rw [hyb, ← pow_add, hfifth]
    interval_cases q
    · rw [h0]
      simp (disch := omega) only [Function.update_of_ne, Function.update_self, toComplex_sum,
        toComplex_cAdd, toComplex_cMul, htwiddle1, htwiddle2, htwiddle3, htwiddle4, hr1, hr2,
        hr3, hr4]
      ring
    · rw [h1]
      simp (disch := omega) only [Function.update_of_ne, Function.update_self,
        toComplex_scaled, toComplex_turned, toComplex_cAdd, toComplex_cSub, toComplex_cMul,
        htwiddle1, htwiddle2, htwiddle3, htwiddle4, hr1, hr2, hr3, hr4]
      linear_combination r1 * h1plus + r4 * h1minus + r2 * h2plus + r3 * h2minus
    · rw [h2]
      simp (disch := omega) only [Function.update_of_ne, Function.update_self,
        toComplex_scaled, toComplex_turned_back, toComplex_cAdd, toComplex_cSub,
        toComplex_cMul, htwiddle1, htwiddle2, htwiddle3, htwiddle4, hr1, hr2, hr3, hr4]
      linear_combination r1 * h2plus + r4 * h2minus + r2 * h1minus + r3 * h1plus -
        (r3 * ε + r4 * ε ^ 3) * hfifth
    · rw [h3]
      simp only [Function.update_self, toComplex_scaled, toComplex_turned_back, toComplex_cAdd,
        toComplex_cSub, toComplex_cMul, htwiddle1, htwiddle2, htwiddle3, htwiddle4, hr1, hr2,
        hr3, hr4]
      linear_combination r1 * h2minus + r4 * h2plus + r2 * h1plus + r3 * h1minus -
        (r2 * ε + r3 * ε ^ 4 + r4 * (ε ^ 7 + ε ^ 2)) * hfifth
    · rw [h4]
      simp (disch := omega) only [Function.update_of_ne, Function.update_self,
        toComplex_scaled, toComplex_turned, toComplex_cAdd, toComplex_cSub, toComplex_cMul,
        htwiddle1, htwiddle2, htwiddle3, htwiddle4, hr1, hr2, hr3, hr4]
      linear_combination r1 * h1minus + r4 * h1plus + r2 * h2minus + r3 * h2plus -
        (r2 * ε ^ 3 + r3 * (ε ^ 7 + ε ^ 2) + r4 * (ε ^ 11 + ε ^ 6 + ε)) * hfifth

theorem add_reduced {a b n : Nat} (ha : a < n) (hb : b < n) :
    (if n ≤ a + b then a + b - n else a + b) = (a + b) % n := by
  split
  · rename_i hle
    rw [Nat.mod_eq_sub_mod hle, Nat.mod_eq_of_lt (by omega)]
  · rw [Nat.mod_eq_of_lt (by omega)]

/-- The index into the table of the generic butterfly is reduced after every
addition and never leaves the table. -/
theorem genericOutput_eq (h : TwiddlesOf st ω) (hlen : fstride * (p * m) = st.nfft)
    (hp : 1 ≤ p) {k : Nat} (hk : k < p * m) (scratch : Nat → KissFftCpx ℝ) (Fout : Nat)
    (mem : Memory ℝ) :
    ∃ z, genericOutput scratch Fout fstride st p k mem = Function.update mem (Fout + k) z ∧
      toComplex z = ∑ q ∈ Finset.range p, toComplex (scratch q) * (ω ^ fstride) ^ (q * k) := by
  have hstride : fstride * k < st.nfft := by
    have hpos := h.pos
    rw [← hlen] at hpos ⊢
    exact Nat.mul_lt_mul_of_pos_left hk (Nat.pos_of_mul_pos_right hpos)
  suffices hloop : ∀ s : Nat × Memory ℝ, s = forLoop 1 p (fun q (s : Nat × Memory ℝ) =>
      let twidx := s.1 + fstride * k
      let twidx := if st.nfft ≤ twidx then twidx - st.nfft else twidx
      let t := cMul (scratch q) (st.twiddles twidx)
      (twidx, Function.update s.2 (Fout + k) (cAdd (s.2 (Fout + k)) t)))
        (0, Function.update mem (Fout + k) (scratch 0)) →
      s.1 = fstride * ((p - 1) * k) % st.nfft ∧ ∃ z,
        s.2 = Function.update mem (Fout + k) z ∧ toComplex z =
          ∑ q ∈ Finset.range p, toComplex (scratch q) * (ω ^ fstride) ^ (q * k) by
    exact (hloop _ rfl).2
  rintro _ rfl
  refine forLoop_induction (P := fun q (s : Nat × Memory ℝ) =>
    s.1 = fstride * ((q - 1) * k) % st.nfft ∧ ∃ z,
      s.2 = Function.update mem (Fout + k) z ∧ toComplex z =
        ∑ q1 ∈ Finset.range q, toComplex (scratch q1) * (ω ^ fstride) ^ (q1 * k)) hp ?_ ?_
  · refine ⟨by simp, scratch 0, rfl, by simp⟩
  · rintro q ⟨twidx, _⟩ hq _ ⟨htwidx, z, rfl, hz⟩
    obtain ⟨q, rfl⟩ := Nat.exists_eq_add_of_le' hq
    simp only [Nat.add_sub_cancel] at htwidx ⊢
    have hnext : (if st.nfft ≤ twidx + fstride * k then twidx + fstride * k - st.nfft
        else twidx + fstride * k) = fstride * ((q + 1) * k) % st.nfft := by
      rw [add_reduced (by rw [htwidx]; exact Nat.mod_lt _ h.pos) hstride, htwidx,
        Nat.mod_add_mod]
      congr 1
      ring
    refine ⟨hnext, cAdd z (cMul (scratch (q + 1)) (st.twiddles (fstride * ((q + 1) * k) %
      st.nfft))), ?_, ?_⟩
    · rw [hnext, Function.update_self, Function.update_idem]
    · rw [Finset.sum_range_succ, ← hz, toComplex_cAdd, toComplex_cMul,
        h.table _ (Nat.mod_lt _ h.pos), ← pow_eq_pow_mod _ h.primitive.pow_eq_one, pow_mul]

theorem kfBflyGeneric_recombines (h : TwiddlesOf st ω) (hlen : fstride * (p * m) = st.nfft)
    (mem : Memory ℝ) (Fout : Nat) :
    Recombines (ω ^ fstride) Fout m p mem (kfBflyGeneric mem Fout fstride st m p) := by
  have hp : 1 ≤ p := by
    by_contra hzero
    have := h.pos
    rw [← hlen, Nat.lt_one_iff.mp (not_le.mp hzero)] at this
    omega
  have hloop : ∀ u (mem : Memory ℝ), u < m →
      (∀ q, q < p → toComplex (forLoop 0 p (fun q1 mem' =>
        genericOutput (fun q1 => mem (Fout + (u + q1 * m))) Fout fstride st p (u + q1 * m) mem')
          mem (cell Fout m u q)) = columnSum (ω ^ fstride) Fout m p mem u q) ∧
      ∀ a, (∀ q, q < p → a ≠ cell Fout m u q) → forLoop 0 p (fun q1 mem' =>
        genericOutput (fun q1 => mem (Fout + (u + q1 * m))) Fout fstride st p (u + q1 * m) mem')
          mem a = mem a := by
    intro u mem hu
    refine forLoop_induction (P := fun rows (mem' : Memory ℝ) =>
      (∀ q, q < rows → toComplex (mem' (cell Fout m u q)) =
        columnSum (ω ^ fstride) Fout m p mem u q) ∧
      ∀ a, (∀ q, q < rows → a ≠ cell Fout m u q) → mem' a = mem a) (Nat.zero_le p) ?_ ?_
    · exact ⟨fun q hq => absurd hq (Nat.not_lt_zero q), fun a _ => rfl⟩
    · rintro row mem' - hrow ⟨hdone, hfresh⟩
      have hk : u + row * m < p * m := by
        calc u + row * m < m + row * m := by omega
          _ = (row + 1) * m := by ring
          _ ≤ p * m := Nat.mul_le_mul_right m hrow
      obtain ⟨z, hz, hsum⟩ := genericOutput_eq h hlen hp hk
        (fun q1 => mem (Fout + (u + q1 * m))) Fout mem'
      rw [hz]
      constructor
      · intro q hq
        rcases Nat.lt_succ_iff_lt_or_eq.mp hq with hlt | rfl
        · have hne : cell Fout m u q ≠ Fout + (u + row * m) := by
            intro heq
            have := (cell_injective hu hu (show cell Fout m u q = cell Fout m u row from heq)).2
            omega
          rw [Function.update_of_ne hne]
          exact hdone q hlt
        · rw [cell, Function.update_self, hsum]
          rfl
      · intro a ha
        have hne : a ≠ Fout + (u + row * m) := ha row (Nat.lt_succ_self row)
        rw [Function.update_of_ne hne]
        exact hfresh a fun q hq => ha q (Nat.lt_succ_of_lt hq)
  apply recombines_of_pass
  · intro u mem a hu ha
    exact (hloop u mem hu).2 a ha
  · intro u mem q hu hq
    exact (hloop u mem hu).1 q hq

theorem kfBfly_recombines (h : TwiddlesOf st ω) (hlen : fstride * (p * m) = st.nfft)
    (mem : Memory ℝ) (Fout : Nat) :
    Recombines (ω ^ fstride) Fout m p mem (kfBfly mem Fout fstride st m p) := by
  unfold kfBfly
  split
  · exact kfBfly2_recombines h hlen mem Fout
  · exact kfBfly3_recombines h hlen mem Fout
  · exact kfBfly4_recombines h hlen mem Fout
  · exact kfBfly5_recombines h hlen mem Fout
  · exact kfBflyGeneric_recombines h hlen mem Fout

end Twiddles

end RockPaperScissors.KissFftButterflies
