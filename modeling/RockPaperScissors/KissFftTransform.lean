import RockPaperScissors.KissFftButterflies
import RockPaperScissors.KissFftFactors
import RockPaperScissors.Library.DiscreteFourier

namespace RockPaperScissors.KissFftTransform

open RockPaperScissors.KissFft
open RockPaperScissors.KissFftButterflies
open RockPaperScissors.KissFftFactors
open RockPaperScissors.Library.CountedLoop
open RockPaperScissors.Library.DiscreteFourier
open RockPaperScissors.Library.IndependentPasses

section Recursion

/-- The values that are read `stride` cells apart from `f` on. -/
def strided (mem : Memory ℝ) (f stride j : Nat) : ℂ :=
  toComplex (mem (f + j * stride))

/-- None of the values read lies where the output is written. -/
def Apart (f stride Fout n : Nat) : Prop :=
  ∀ j k, j < n → k < n → f + j * stride ≠ Fout + k

/-- The output is the transform of the input, and nothing else is written. -/
structure Transforms (w : ℂ) (n Fout : Nat) (input : Nat → ℂ) (mem mem' : Memory ℝ) : Prop where
  output : ∀ k, k < n → toComplex (mem' (Fout + k)) = transform w n input k
  frame : ∀ a, (∀ k, k < n → a ≠ Fout + k) → mem' a = mem a

theorem Transforms.unique {w : ℂ} {n Fout : Nat} {input : Nat → ℂ} {mem mem' mem'' : Memory ℝ}
    (h : Transforms w n Fout input mem mem') (h' : Transforms w n Fout input mem mem'') :
    mem' = mem'' := by
  funext a
  by_cases ha : ∃ k, k < n ∧ a = Fout + k
  · obtain ⟨k, hk, rfl⟩ := ha
    apply toComplex_injective
    rw [h.output k hk, h'.output k hk]
  · push Not at ha
    rw [h.frame a ha, h'.frame a ha]

variable {st : KissFftState ℝ} {ω : ℂ}

theorem cell_lt {m p u q : Nat} (hu : u < m) (hq : q < p) : u + q * m < p * m := by
  calc u + q * m < m + q * m := by omega
    _ = (q + 1) * m := by ring
    _ ≤ p * m := Nat.mul_le_mul_right m hq

/-- The short transforms side by side, then the butterflies over them. -/
theorem transforms_of_rows (h : TwiddlesOf st ω) {fstride p m : Nat}
    (hlen : fstride * (p * m) = st.nfft) {Fout : Nat} {input : Nat → ℂ} {mem mem' : Memory ℝ}
    (hrows : ∀ u q, u < m → q < p → toComplex (mem' (cell Fout m u q)) =
      transform ((ω ^ fstride) ^ p) m (fun i => input (q + p * i)) u)
    (hframe : ∀ a, (∀ k, k < p * m → a ≠ Fout + k) → mem' a = mem a) :
    Transforms (ω ^ fstride) (p * m) Fout input mem (kfBfly mem' Fout fstride st m p) := by
  have hrecombines := kfBfly_recombines h hlen mem' Fout
  constructor
  · intro k hk
    have hm : 0 < m := Nat.pos_of_mul_pos_left (Nat.zero_lt_of_lt hk)
    have hu : k % m < m := Nat.mod_lt k hm
    have hq : k / m < p := (Nat.div_lt_iff_lt_mul hm).mpr hk
    have hcell : Fout + k = cell Fout m (k % m) (k / m) := by
      rw [cell, Nat.mul_comm, Nat.mod_add_div]
    have hk' : k = k % m + k / m * m := by rw [Nat.mul_comm, Nat.mod_add_div]
    have hcycle : (ω ^ fstride) ^ (p * m) = 1 := by
      rw [← pow_mul, hlen, h.primitive.pow_eq_one]
    rw [hcell, hrecombines.column _ _ hu hq]
    conv_rhs => rw [hk', transform_mul_column hcycle]
    apply Finset.sum_congr rfl
    intro q1 hq1
    rw [hrows _ _ hu (Finset.mem_range.mp hq1)]
  · intro a ha
    rw [hrecombines.frame a, hframe a ha]
    intro u q hu hq
    exact ha (u + q * m) (cell_lt hu hq)

theorem copy_rows (mem : Memory ℝ) {p Fout f stride : Nat} (hapart : Apart f stride Fout p) :
    (∀ q, q < p → forLoop 0 p (fun q mem =>
      Function.update mem (Fout + q) (mem (f + q * stride))) mem (Fout + q) =
        mem (f + q * stride)) ∧
    ∀ a, (∀ k, k < p → a ≠ Fout + k) → forLoop 0 p (fun q mem =>
      Function.update mem (Fout + q) (mem (f + q * stride))) mem a = mem a := by
  have hindependent : Independent p (fun q a => a = Fout + q) (fun q (mem : Memory ℝ) =>
      Function.update mem (Fout + q) (mem (f + q * stride))) := by
    refine ⟨?_, ?_, ?_⟩
    · intro u v a _ _ hu hv
      omega
    · intro u mem a _ ha
      exact Function.update_of_ne ha _ _
    · rintro u mem mem' hu hagree _ rfl
      rw [Function.update_self, Function.update_self]
      apply hagree
      intro v hv _
      exact hapart u v hu hv
  constructor
  · intro q hq
    rw [hindependent.forLoop_owner mem hq rfl, Function.update_self]
  · intro a ha
    exact hindependent.forLoop_frame mem fun q hq => ha q hq

theorem Apart.row {f fstride inStride Fout p m q : Nat}
    (h : Apart f (fstride * inStride) Fout (p * m)) (hq : q < p) {v : Nat} (hv : v < p)
    {j k : Nat} (hj : j < m) (hk : k < m) :
    f + q * (fstride * inStride) + j * (fstride * p * inStride) ≠ Fout + v * m + k := by
  have hread : f + q * (fstride * inStride) + j * (fstride * p * inStride) =
      f + (q + p * j) * (fstride * inStride) := by ring
  have hwrite : Fout + v * m + k = Fout + (k + v * m) := by ring
  rw [hread, hwrite]
  apply h _ _ _ (cell_lt hk hv)
  calc q + p * j < p + p * j := by omega
    _ = p * (j + 1) := by ring
    _ ≤ p * m := Nat.mul_le_mul_left p hj

theorem kfWork_transforms (h : TwiddlesOf st ω) (inStride : Nat) {n : Nat}
    {factors : List (Nat × Nat)} (hchain : FactorChain n factors) : ∀ (mem : Memory ℝ) (Fout f fstride : Nat),
    fstride * n = st.nfft → Apart f (fstride * inStride) Fout n →
      Transforms (ω ^ fstride) n Fout (strided mem f (fstride * inStride)) mem
        (kfWork st factors mem Fout f fstride inStride) := by
  -- The chain of factors is the recursion of kf_work; every call is on a memory that
  -- the calls before it have changed.
  induction hchain with
  | last p =>
      intro mem Fout f fstride hlen hapart
      obtain ⟨hcopied, hframe⟩ := copy_rows mem hapart
      rw [kfWork, if_pos rfl]
      conv => enter [2]; rw [← Nat.mul_one p]
      apply transforms_of_rows h (by rw [Nat.mul_one, hlen])
      · intro u q hu hq
        obtain rfl : u = 0 := by omega
        rw [transform_one, cell, Nat.mul_one, Nat.zero_add, hcopied q hq]
        simp [strided]
      · intro a ha
        exact hframe a fun k hk => ha k (by omega)
  | @step p m factors hm hchain ih =>
      intro mem Fout f fstride hlen hapart
      have hlen' : fstride * p * m = st.nfft := by rw [mul_assoc, hlen]
      have hblock : ∀ q, q < p → ∀ mem : Memory ℝ,
          Transforms (ω ^ (fstride * p)) m (Fout + q * m)
            (strided mem (f + q * (fstride * inStride)) (fstride * p * inStride)) mem
            (kfWork st factors mem (Fout + q * m) (f + q * (fstride * inStride)) (fstride * p)
              inStride) := by
        intro q hq mem
        exact ih mem _ _ _ hlen' fun j k hj hk => hapart.row hq hq hj hk
      -- The short transforms share the memory, but each writes its own block only.
      have hindependent : Independent p (fun q a => ∃ k, k < m ∧ a = Fout + q * m + k)
          (fun q mem => kfWork st factors mem (Fout + q * m) (f + q * (fstride * inStride))
            (fstride * p) inStride) := by
        refine ⟨?_, ?_, ?_⟩
        · rintro u v _ _ _ ⟨k, hk, rfl⟩ ⟨k', hk', heq⟩
          have hcells : cell Fout m k u = cell Fout m k' v := by
            rw [cell, cell]
            omega
          exact (cell_injective hk hk' hcells).2
        · intro q mem a hq ha
          apply (hblock q hq mem).frame
          intro k hk heq
          exact ha ⟨k, hk, heq⟩
        · rintro q mem mem' hq hagree _ ⟨k, hk, rfl⟩
          apply toComplex_injective
          rw [(hblock q hq mem).output k hk, (hblock q hq mem').output k hk]
          apply transform_congr
          intro j hj
          rw [strided, strided, hagree]
          rintro v hv _ ⟨k', hk', heq⟩
          exact hapart.row hq hv hj hk' heq
      rw [kfWork, if_neg hm]
      apply transforms_of_rows h hlen
      · intro u q hu hq
        have hcell : cell Fout m u q = Fout + q * m + u := by rw [cell]; ring
        rw [hcell, hindependent.forLoop_owner mem hq ⟨u, hu, rfl⟩, (hblock q hq mem).output u hu,
          pow_mul]
        apply transform_congr
        intro j _
        rw [strided, strided]
        congr 2
        ring
      · intro a ha
        apply hindependent.forLoop_frame
        rintro q hq ⟨k, hk, rfl⟩
        apply ha (k + q * m) (cell_lt hk hq)
        ring

end Recursion

section Configuration

noncomputable def realTrigonometry : Trigonometry ℝ where
  cos := Real.cos
  sin := Real.sin
  pi := Real.pi

/-- The root of unity of a direction: clockwise forward, counterclockwise back. -/
noncomputable def root (n : Nat) (inverse : Int) : ℂ :=
  let turn := Complex.exp ((2 : Nat) * Real.pi * Complex.I / n)
  if inverse ≠ 0 then turn else turn⁻¹

theorem root_eq (n : Nat) (inverse : Int) :
    root n inverse = if inverse ≠ 0 then Complex.exp (2 * Real.pi * Complex.I / n)
      else (Complex.exp (2 * Real.pi * Complex.I / n))⁻¹ := by
  simp only [root, Nat.cast_ofNat]

theorem root_primitive {n : Nat} (hn : 1 ≤ n) (inverse : Int) :
    IsPrimitiveRoot (root n inverse) n := by
  have hprimitive := Complex.isPrimitiveRoot_exp n (by omega)
  rw [root_eq]
  split
  · exact hprimitive
  · exact hprimitive.inv

theorem exp_quarter {n m : Nat} (hn : 1 ≤ n) (hm : m * 4 = n) :
    Complex.exp (2 * Real.pi * Complex.I / n) ^ m = Complex.I := by
  have hne : (m : ℂ) ≠ 0 := by
    rw [Nat.cast_ne_zero]
    omega
  have hangle : (m : ℂ) * (2 * Real.pi * Complex.I / n) = Real.pi / 2 * Complex.I := by
    rw [← hm]
    push_cast
    field_simp
    ring
  rw [← Complex.exp_nat_mul, hangle, Complex.exp_mul_I, Complex.cos_pi_div_two,
    Complex.sin_pi_div_two, zero_add, one_mul]

theorem root_quarter {n m : Nat} (hn : 1 ≤ n) (hm : m * 4 = n) (inverse : Int) :
    root n inverse ^ m = if inverse ≠ 0 then Complex.I else -Complex.I := by
  rw [root_eq]
  split
  · exact exp_quarter hn hm
  · rw [inv_pow, exp_quarter hn hm, Complex.inv_I]

theorem toComplex_kfCexp (phase : ℝ) :
    toComplex (kfCexp realTrigonometry phase) = Complex.exp (phase * Complex.I) := by
  apply Complex.ext
  · rw [Complex.exp_ofReal_mul_I_re]
    rfl
  · rw [Complex.exp_ofReal_mul_I_im]
    rfl

theorem root_pow (n i : Nat) (inverse : Int) :
    root n inverse ^ i =
      toComplex (kfCexp realTrigonometry (twiddlePhase realTrigonometry n inverse i)) := by
  rw [toComplex_kfCexp, root_eq, twiddlePhase, realTrigonometry]
  split
  · rw [← Complex.exp_nat_mul]
    congr 1
    push_cast
    ring
  · rw [inv_pow, ← Complex.exp_nat_mul, ← Complex.exp_neg]
    congr 1
    push_cast
    ring

theorem forLoop_fill {α : Type*} (values : Nat → α) (n : Nat) (table : Nat → α) :
    ∀ i, i < n → forLoop 0 n (fun i table => Function.update table i (values i)) table i =
      values i := by
  refine forLoop_induction (P := fun filled (table : Nat → α) =>
    ∀ i, i < filled → table i = values i) (Nat.zero_le n) ?_ ?_
  · intro i hi
    exact absurd hi (Nat.not_lt_zero i)
  · intro filled table _ _ ih i hi
    rcases Nat.lt_succ_iff_lt_or_eq.mp hi with hlt | rfl
    · rw [Function.update_of_ne (by omega)]
      exact ih i hlt
    · exact Function.update_self _ _ _

variable {malloc : Nat → Option (KissFftState ℝ)} {n : Nat} {inverseFft : Int}
variable {block : Option (KissFftState ℝ)} {lenmem lenmem' : Option Nat} {st : KissFftState ℝ}

theorem kissFftAlloc_spec (hn : 1 ≤ n)
    (h : kissFftAlloc realTrigonometry malloc n inverseFft block lenmem = (some st, lenmem')) :
    st.nfft = n ∧ st.factors = kfFactor n ∧ TwiddlesOf st (root n inverseFft) := by
  simp only [kissFftAlloc, Prod.mk.injEq, Option.map_eq_some_iff] at h
  obtain ⟨⟨contents, _, rfl⟩, _⟩ := h
  refine ⟨rfl, rfl, ⟨hn, root_primitive hn inverseFft, ?_, ?_⟩⟩
  · intro i hi
    rw [root_pow]
    exact congrArg toComplex (forLoop_fill
      (fun i => kfCexp realTrigonometry (twiddlePhase realTrigonometry n inverseFft i)) n
      contents.twiddles i hi)
  · intro m hm
    exact root_quarter hn hm inverseFft

end Configuration

section EntryPoints

noncomputable def clearedState : KissFftState ℝ where
  nfft := 0
  inverse := 0
  factors := []
  twiddles _ := ⟨0, 0⟩

noncomputable def freshState (n : Nat) (inverse : Int) : KissFftState ℝ :=
  fillState realTrigonometry n inverse clearedState

theorem kissFftAlloc_fresh (n : Nat) (inverse : Int) :
    kissFftAlloc realTrigonometry (fun _ => some clearedState) n inverse none none =
      (some (freshState n inverse), none) := rfl

/-- The buffers a call may be given: two that do not overlap, or one for both
with a temporary buffer apart from it. -/
def Usable (n fin fout inStride tmpbuf : Nat) : Prop :=
  if fin = fout then Apart fin inStride tmpbuf n ∧ Apart tmpbuf 1 fout n
  else Apart fin inStride fout n

theorem usable_of_le {n fin fout : Nat} (hn : 1 ≤ n) (hle : fin + n ≤ fout) (tmpbuf : Nat) :
    Usable n fin fout 1 tmpbuf := by
  rw [Usable, if_neg (by omega)]
  intro j k hj _
  omega

/-- The cells a call writes. -/
def Written (n fin fout tmpbuf a : Nat) : Prop :=
  (∃ k, k < n ∧ a = fout + k) ∨ fin = fout ∧ ∃ k, k < n ∧ a = tmpbuf + k

variable {malloc : Nat → Option (KissFftState ℝ)} {n : Nat} {inverseFft : Int}
variable {block : Option (KissFftState ℝ)} {lenmem lenmem' : Option Nat} {st : KissFftState ℝ}

theorem kfWork_of_alloc (hn : 1 ≤ n)
    (h : kissFftAlloc realTrigonometry malloc n inverseFft block lenmem = (some st, lenmem'))
    (mem : Memory ℝ) {Fout f inStride : Nat} (hapart : Apart f inStride Fout n) :
    Transforms (root n inverseFft) n Fout (strided mem f inStride) mem
      (kfWork st st.factors mem Fout f 1 inStride) := by
  obtain ⟨hnfft, hfactors, htwiddles⟩ := kissFftAlloc_spec hn h
  have hwork := kfWork_transforms htwiddles inStride (kfFactor_chain hn) mem Fout f 1
    (by rw [hnfft, one_mul]) (by rwa [one_mul])
  rwa [pow_one, one_mul, ← hfactors] at hwork

/-- Forward or back, in place or not, and for every length: the discrete Fourier
transform of the input, with everything else in the memory left alone. -/
theorem kissFftStride_transform (hn : 1 ≤ n)
    (h : kissFftAlloc realTrigonometry malloc n inverseFft block lenmem = (some st, lenmem'))
    (mem : Memory ℝ) {fin fout inStride tmpbuf : Nat}
    (hbuffers : Usable n fin fout inStride tmpbuf) :
    (∀ k, k < n → toComplex (kissFftStride mem st fin fout inStride tmpbuf (fout + k)) =
      transform (root n inverseFft) n (strided mem fin inStride) k) ∧
    ∀ a, ¬ Written n fin fout tmpbuf a →
      kissFftStride mem st fin fout inStride tmpbuf a = mem a := by
  by_cases hsame : fin = fout
  · rw [Usable, if_pos hsame] at hbuffers
    have hwork := kfWork_of_alloc hn h mem hbuffers.1
    have hcopy := copy_rows (kfWork st st.factors mem tmpbuf fin 1 inStride) hbuffers.2
    simp only [Nat.mul_one] at hcopy
    rw [kissFftStride, if_pos hsame, (kissFftAlloc_spec hn h).1]
    constructor
    · intro k hk
      rw [hcopy.1 k hk, hwork.output k hk]
    · intro a ha
      rw [hcopy.2 a, hwork.frame a]
      · exact fun k hk heq => ha (.inr ⟨hsame, k, hk, heq⟩)
      · exact fun k hk heq => ha (.inl ⟨k, hk, heq⟩)
  · rw [Usable, if_neg hsame] at hbuffers
    have hwork := kfWork_of_alloc hn h mem hbuffers
    rw [kissFftStride, if_neg hsame]
    constructor
    · exact hwork.output
    · intro a ha
      exact hwork.frame a fun k hk heq => ha (.inl ⟨k, hk, heq⟩)

end EntryPoints

end RockPaperScissors.KissFftTransform
