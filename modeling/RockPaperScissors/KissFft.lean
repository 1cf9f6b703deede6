import RockPaperScissors.Library.CountedLoop
import Mathlib.Algebra.Field.Defs
import Mathlib.Data.Nat.Sqrt

/-!
`kiss_fft.c` in its floating-point build: the factors of a length, the butterflies
of the radices 2, 3, 4, 5 and of any other one, the recursion over the factors and
the entry points.
-/

namespace RockPaperScissors.KissFft

open RockPaperScissors.Library.CountedLoop

section Factors

def maxFactors : Nat := 32

/-- The candidates of `kf_factor`: 4, then 2, then the odd numbers from 3 on. -/
def nextCandidate (p : Nat) : Nat :=
  if p = 4 then 2 else if p = 2 then 3 else p + 2

theorem nextCandidate_four : nextCandidate 4 = 2 := rfl

theorem lt_nextCandidate {p : Nat} (hp : p ≠ 4) : p < nextCandidate p := by
  rw [nextCandidate, if_neg hp]
  split <;> omega

theorem nextCandidate_ne_four (p : Nat) : nextCandidate p ≠ 4 := by
  rw [nextCandidate]
  split_ifs <;> omega

theorem two_le_nextCandidate (p : Nat) : 2 ≤ nextCandidate p := by
  rw [nextCandidate]
  split_ifs <;> omega

/-- The inner loop of `kf_factor`: the next radix that divides `n`, from the
candidate `p` on. -/
def nextRadix (floorSqrt n p : Nat) : Nat :=
  if n % p = 0 then p
  -- no more factors, skip to end
  else if floorSqrt < nextCandidate p then n
  else nextRadix floorSqrt n (nextCandidate p)
termination_by if p = 4 then floorSqrt + 2 else floorSqrt + 1 - p
decreasing_by
  rename_i _ hle
  rw [if_neg (nextCandidate_ne_four p)]
  split
  · omega
  · have := lt_nextCandidate ‹p ≠ 4›
    omega

theorem two_le_nextRadix {floorSqrt n p : Nat} (hn : 2 ≤ n) (hp : 2 ≤ p) :
    2 ≤ nextRadix floorSqrt n p := by
  fun_induction nextRadix floorSqrt n p with
  | case1 p _ => exact hp
  | case2 => exact hn
  | case3 p _ _ ih => exact ih (two_le_nextCandidate p)

/-- The loop of `kf_factor` over what is left of the length, with the radix
found last. -/
def factorsFrom (floorSqrt n p : Nat) (hp : 2 ≤ p) : List (Nat × Nat) :=
  let radix := nextRadix floorSqrt n p
  let rest := n / radix
  (radix, rest) ::
    if h : 1 < rest then
      factorsFrom floorSqrt rest radix
        (two_le_nextRadix (h.trans_le (Nat.div_le_self n radix)) hp)
    else []
termination_by n
decreasing_by
  have hn : 2 ≤ n := h.trans_le (Nat.div_le_self n _)
  exact Nat.div_lt_self (by omega) (two_le_nextRadix hn hp)

/-- The pairs `p1, m1, p2, m2, ...` of `kf_factor`. The square root of an `int`
in double precision has the floor of the exact one. -/
def kfFactor (n : Nat) : List (Nat × Nat) :=
  factorsFrom n.sqrt n 4 (by decide)

end Factors

section Code

variable {K : Type*}

structure KissFftCpx (K : Type*) where
  r : K
  i : K

/-- The memory in units of `kiss_fft_cpx`; a pointer is an index. -/
abbrev Memory (K : Type*) := Nat → KissFftCpx K

structure KissFftState (K : Type*) where
  nfft : Nat
  inverse : Int
  factors : List (Nat × Nat)
  twiddles : Nat → KissFftCpx K

variable [Field K]

def cMul (a b : KissFftCpx K) : KissFftCpx K :=
  ⟨a.r * b.r - a.i * b.i, a.r * b.i + a.i * b.r⟩

def cMulByScalar (c : KissFftCpx K) (s : K) : KissFftCpx K :=
  ⟨c.r * s, c.i * s⟩

def cAdd (a b : KissFftCpx K) : KissFftCpx K :=
  ⟨a.r + b.r, a.i + b.i⟩

def cSub (a b : KissFftCpx K) : KissFftCpx K :=
  ⟨a.r - b.r, a.i - b.i⟩

def halfOf (x : K) : K :=
  x * (1 / (2 : Nat))

def kfBfly2 (mem : Memory K) (Fout fstride : Nat) (st : KissFftState K) (m : Nat) : Memory K :=
  forLoop 0 m (fun k mem =>
    let tw1 := st.twiddles (k * fstride)
    let fout := Fout + k
    let fout2 := Fout + m + k
    let t := cMul (mem fout2) tw1
    let mem := Function.update mem fout2 (cSub (mem fout) t)
    Function.update mem fout (cAdd (mem fout) t)) mem

def kfBfly4 (mem : Memory K) (Fout fstride : Nat) (st : KissFftState K) (m : Nat) : Memory K :=
  let m2 := 2 * m
  let m3 := 3 * m
  forLoop 0 m (fun k mem =>
    let tw1 := st.twiddles (k * fstride)
    let tw2 := st.twiddles (k * (fstride * 2))
    let tw3 := st.twiddles (k * (fstride * 3))
    let fout := Fout + k
    let scratch0 := cMul (mem (fout + m)) tw1
    let scratch1 := cMul (mem (fout + m2)) tw2
    let scratch2 := cMul (mem (fout + m3)) tw3
    let scratch5 := cSub (mem fout) scratch1
    let mem := Function.update mem fout (cAdd (mem fout) scratch1)
    let scratch3 := cAdd scratch0 scratch2
    let scratch4 := cSub scratch0 scratch2
    let mem := Function.update mem (fout + m2) (cSub (mem fout) scratch3)
    let mem := Function.update mem fout (cAdd (mem fout) scratch3)
    if st.inverse ≠ 0 then
      let mem := Function.update mem (fout + m)
        ⟨scratch5.r - scratch4.i, scratch5.i + scratch4.r⟩
      Function.update mem (fout + m3) ⟨scratch5.r + scratch4.i, scratch5.i - scratch4.r⟩
    else
      let mem := Function.update mem (fout + m)
        ⟨scratch5.r + scratch4.i, scratch5.i - scratch4.r⟩
      Function.update mem (fout + m3) ⟨scratch5.r - scratch4.i, scratch5.i + scratch4.r⟩) mem

def kfBfly3 (mem : Memory K) (Fout fstride : Nat) (st : KissFftState K) (m : Nat) : Memory K :=
  let m2 := 2 * m
  let epi3 := st.twiddles (fstride * m)
  forLoop 0 m (fun k mem =>
    let tw1 := st.twiddles (k * fstride)
    let tw2 := st.twiddles (k * (fstride * 2))
    let fout := Fout + k
    let scratch1 := cMul (mem (fout + m)) tw1
    let scratch2 := cMul (mem (fout + m2)) tw2
    let scratch3 := cAdd scratch1 scratch2
    let scratch0 := cSub scratch1 scratch2
    let mem := Function.update mem (fout + m)
      ⟨(mem fout).r - halfOf scratch3.r, (mem fout).i - halfOf scratch3.i⟩
    let scratch0 := cMulByScalar scratch0 epi3.i
    let mem := Function.update mem fout (cAdd (mem fout) scratch3)
    let mem := Function.update mem (fout + m2)
      ⟨(mem (fout + m)).r + scratch0.i, (mem (fout + m)).i - scratch0.r⟩
    Function.update mem (fout + m)
      ⟨(mem (fout + m)).r - scratch0.i, (mem (fout + m)).i + scratch0.r⟩) mem

def kfBfly5 (mem : Memory K) (Fout fstride : Nat) (st : KissFftState K) (m : Nat) : Memory K :=
  let ya := st.twiddles (fstride * m)
  let yb := st.twiddles (fstride * 2 * m)
  forLoop 0 m (fun u mem =>
    let fout0 := Fout + u
    let fout1 := fout0 + m
    let fout2 := fout0 + 2 * m
    let fout3 := fout0 + 3 * m
    let fout4 := fout0 + 4 * m
    let scratch0 := mem fout0
    let scratch1 := cMul (mem fout1) (st.twiddles (u * fstride))
    let scratch2 := cMul (mem fout2) (st.twiddles (2 * u * fstride))
    let scratch3 := cMul (mem fout3) (st.twiddles (3 * u * fstride))
    let scratch4 := cMul (mem fout4) (st.twiddles (4 * u * fstride))
    let scratch7 := cAdd scratch1 scratch4
    let scratch10 := cSub scratch1 scratch4
    let scratch8 := cAdd scratch2 scratch3
    let scratch9 := cSub scratch2 scratch3
    let mem := Function.update mem fout0
      ⟨(mem fout0).r + (scratch7.r + scratch8.r), (mem fout0).i + (scratch7.i + scratch8.i)⟩
    let scratch5 : KissFftCpx K :=
      ⟨scratch0.r + scratch7.r * ya.r + scratch8.r * yb.r,
        scratch0.i + scratch7.i * ya.r + scratch8.i * yb.r⟩
    let scratch6 : KissFftCpx K :=
      ⟨scratch10.i * ya.i + scratch9.i * yb.i,
        -(scratch10.r * ya.i) - scratch9.r * yb.i⟩
    let mem := Function.update mem fout1 (cSub scratch5 scratch6)
    let mem := Function.update mem fout4 (cAdd scratch5 scratch6)
    let scratch11 : KissFftCpx K :=
      ⟨scratch0.r + scratch7.r * yb.r + scratch8.r * ya.r,
        scratch0.i + scratch7.i * yb.r + scratch8.i * ya.r⟩
    let scratch12 : KissFftCpx K :=
      ⟨-(scratch10.i * yb.i) + scratch9.i * ya.i,
        scratch10.r * yb.i - scratch9.r * ya.i⟩
    let mem := Function.update mem fout2 (cAdd scratch11 scratch12)
    Function.update mem fout3 (cSub scratch11 scratch12)) mem

/-- One output of the generic butterfly, with its running twiddle index. -/
def genericOutput (scratch : Nat → KissFftCpx K) (Fout fstride : Nat) (st : KissFftState K)
    (p k : Nat) (mem : Memory K) : Memory K :=
  let mem := Function.update mem (Fout + k) (scratch 0)
  (forLoop 1 p (fun q (s : Nat × Memory K) =>
    let twidx := s.1 + fstride * k
    let twidx := if st.nfft ≤ twidx then twidx - st.nfft else twidx
    let t := cMul (scratch q) (st.twiddles twidx)
    (twidx, Function.update s.2 (Fout + k) (cAdd (s.2 (Fout + k)) t))) (0, mem)).2

/-- The scratch buffer is filled before it is read. -/
def kfBflyGeneric (mem : Memory K) (Fout fstride : Nat) (st : KissFftState K) (m p : Nat) :
    Memory K :=
  forLoop 0 m (fun u mem =>
    let scratch := fun q1 => mem (Fout + (u + q1 * m))
    forLoop 0 p (fun q1 mem =>
      genericOutput scratch Fout fstride st p (u + q1 * m) mem) mem) mem

def kfBfly (mem : Memory K) (Fout fstride : Nat) (st : KissFftState K) (m p : Nat) : Memory K :=
  match p with
  | 2 => kfBfly2 mem Fout fstride st m
  | 3 => kfBfly3 mem Fout fstride st m
  | 4 => kfBfly4 mem Fout fstride st m
  | 5 => kfBfly5 mem Fout fstride st m
  | p => kfBflyGeneric mem Fout fstride st m p

def kfWork (st : KissFftState K) (factors : List (Nat × Nat)) (mem : Memory K)
    (Fout f fstride inStride : Nat) : Memory K :=
  match factors with
  | [] => mem
  | (p, m) :: factors =>
      let mem :=
        if m = 1 then
          forLoop 0 p (fun q mem =>
            Function.update mem (Fout + q) (mem (f + q * (fstride * inStride)))) mem
        else
          forLoop 0 p (fun q mem =>
            kfWork st factors mem (Fout + q * m) (f + q * (fstride * inStride)) (fstride * p)
              inStride) mem
      kfBfly mem Fout fstride st m p

structure Trigonometry (K : Type*) where
  cos : K → K
  sin : K → K
  pi : K

def kfCexp (trig : Trigonometry K) (phase : K) : KissFftCpx K :=
  ⟨trig.cos phase, trig.sin phase⟩

def twiddlePhase (trig : Trigonometry K) (nfft : Nat) (inverse : Int) (i : Nat) : K :=
  let phase := -(2 : Nat) * trig.pi * i / nfft
  if inverse ≠ 0 then -phase else phase

def sizeofState : Nat := 272

def sizeofCpx : Nat := 8

/-- The part of `kiss_fft_alloc` that fills the memory it got. -/
def fillState (trig : Trigonometry K) (nfft : Nat) (inverseFft : Int) (st : KissFftState K) :
    KissFftState K where
  nfft := nfft
  inverse := inverseFft
  factors := kfFactor nfft
  twiddles := forLoop 0 nfft (fun i twiddles =>
    Function.update twiddles i (kfCexp trig (twiddlePhase trig nfft inverseFft i))) st.twiddles

/-- The result and what is stored in `*lenmem`. A block of memory that is handed
in, or that `malloc` returns, holds a state with any contents. -/
def kissFftAlloc (trig : Trigonometry K) (malloc : Nat → Option (KissFftState K)) (nfft : Nat)
    (inverseFft : Int) (mem : Option (KissFftState K)) (lenmem : Option Nat) :
    Option (KissFftState K) × Option Nat :=
  let memneeded := sizeofState + sizeofCpx * (nfft - 1)
  let (st, lenmem) := match lenmem with
    | none => (malloc memneeded, none)
    | some len => (if memneeded ≤ len then mem else none, some memneeded)
  (st.map (fillState trig nfft inverseFft), lenmem)

/-- The address `tmpbuf` is what the allocation of the temporary buffer returns. -/
def kissFftStride (mem : Memory K) (st : KissFftState K) (fin fout inStride tmpbuf : Nat) :
    Memory K :=
  if fin = fout then
    let mem := kfWork st st.factors mem tmpbuf fin 1 inStride
    forLoop 0 st.nfft (fun i mem => Function.update mem (fout + i) (mem (tmpbuf + i))) mem
  else
    kfWork st st.factors mem fout fin 1 inStride

def kissFft (mem : Memory K) (cfg : KissFftState K) (fin fout tmpbuf : Nat) : Memory K :=
  kissFftStride mem cfg fin fout 1 tmpbuf

end Code

end RockPaperScissors.KissFft
