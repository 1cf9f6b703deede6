import Mathlib.Algebra.BigOperators.Intervals
import Mathlib.Algebra.Field.GeomSum
import Mathlib.Algebra.Star.BigOperators
import Mathlib.RingTheory.RootsOfUnity.PrimitiveRoots

namespace RockPaperScissors.Library.DiscreteFourier

open Finset

section Ring

variable {R : Type*} [CommRing R]

/-- The transform of the first `n` values of `x` for the root `ω`. -/
def transform (ω : R) (n : Nat) (x : Nat → R) (k : Nat) : R :=
  ∑ j ∈ range n, x j * ω ^ (j * k)

theorem transform_one (ω : R) (x : Nat → R) : transform ω 1 x 0 = x 0 := by
  simp [transform]

theorem transform_congr {ω : R} {n : Nat} {x y : Nat → R} (h : ∀ j, j < n → x j = y j)
    (k : Nat) : transform ω n x k = transform ω n y k := by
  apply sum_congr rfl
  intro j hj
  rw [h j (mem_range.mp hj)]

/-- The indices below `p * m` by their remainder modulo `p`. -/
theorem sum_range_mul (p m : Nat) (f : Nat → R) :
    ∑ j ∈ range (p * m), f j = ∑ q ∈ range p, ∑ i ∈ range m, f (q + p * i) := by
  induction m with
  | zero => simp
  | succ m ih =>
      rw [Nat.mul_succ, sum_range_add, ih, ← sum_add_distrib]
      apply sum_congr rfl
      intro q _
      rw [sum_range_succ, Nat.add_comm (p * m) q]

/-- Decimation in time: `p` transforms of every `p`-th value. -/
theorem transform_mul (ω : R) (p m : Nat) (x : Nat → R) (k : Nat) :
    transform ω (p * m) x k =
      ∑ q ∈ range p, transform (ω ^ p) m (fun i => x (q + p * i)) k * ω ^ (q * k) := by
  rw [transform, sum_range_mul]
  apply sum_congr rfl
  intro q _
  rw [transform, sum_mul]
  apply sum_congr rfl
  intro i _
  rw [mul_assoc, ← pow_mul, ← pow_add]
  congr 2
  ring

theorem pow_add_mul_of_pow_eq_one {ω : R} {m : Nat} (hω : ω ^ m = 1) (a b : Nat) :
    ω ^ (a + m * b) = ω ^ a := by
  rw [pow_add, pow_mul, hω, one_pow, mul_one]

theorem transform_add_mul {ω : R} {m : Nat} (hω : ω ^ m = 1) (x : Nat → R) (k t : Nat) :
    transform ω m x (k + t * m) = transform ω m x k := by
  apply sum_congr rfl
  intro j _
  have hexponent : j * (k + t * m) = j * k + m * (j * t) := by ring
  rw [hexponent, pow_add_mul_of_pow_eq_one hω]

/-- One stage of a mixed-radix transform: the column `u` of the `p` shorter
transforms, each turned by its twiddle factor. -/
theorem transform_mul_column {ω : R} {p m : Nat} (hω : ω ^ (p * m) = 1) (x : Nat → R)
    (u q : Nat) :
    transform ω (p * m) x (u + q * m) =
      ∑ q1 ∈ range p, transform (ω ^ p) m (fun i => x (q1 + p * i)) u *
        ω ^ (q1 * (u + q * m)) := by
  rw [transform_mul]
  apply sum_congr rfl
  intro q1 _
  rw [transform_add_mul (by rw [← pow_mul, hω])]

end Ring

section Inversion

variable {K : Type*} [Field K] {ω : K} {n : Nat}

/-- The powers of a primitive root cancel unless they are all 1. -/
theorem sum_pow_mul_inv_pow (hω : IsPrimitiveRoot ω n) {i j : Nat} (hi : i < n) (hj : j < n) :
    ∑ k ∈ range n, ω ^ (i * k) * ω⁻¹ ^ (k * j) = if i = j then (n : K) else 0 := by
  have hn : n ≠ 0 := by omega
  have hne : ω ≠ 0 := hω.ne_zero hn
  have hterm : ∀ k, ω ^ (i * k) * ω⁻¹ ^ (k * j) = (ω ^ i * ω⁻¹ ^ j) ^ k := by
    intro k
    rw [mul_pow, ← pow_mul, ← pow_mul, Nat.mul_comm k j]
  simp only [hterm]
  rcases eq_or_ne i j with rfl | hij
  · have hone : ω ^ i * ω⁻¹ ^ i = 1 := by
      rw [← mul_pow, mul_inv_cancel₀ hne, one_pow]
    simp only [hone, one_pow, sum_const, card_range, nsmul_one, if_true]
  · have hratio : ω ^ i * ω⁻¹ ^ j ≠ 1 := by
      intro hone
      rw [inv_pow, mul_inv_eq_one₀ (pow_ne_zero j hne)] at hone
      exact hij (hω.pow_inj hi hj hone)
    have hcycle : (ω ^ i * ω⁻¹ ^ j) ^ n = 1 := by
      rw [mul_pow, ← pow_mul, ← pow_mul, Nat.mul_comm i n, Nat.mul_comm j n, pow_mul, pow_mul,
        inv_pow, hω.pow_eq_one]
      simp
    rw [if_neg hij, geom_sum_eq hratio, hcycle, sub_self, zero_div]

theorem transform_inv_transform (hω : IsPrimitiveRoot ω n) (x : Nat → K) {j : Nat}
    (hj : j < n) : transform ω⁻¹ n (transform ω n x) j = n * x j := by
  calc transform ω⁻¹ n (transform ω n x) j
      = ∑ k ∈ range n, ∑ i ∈ range n, x i * (ω ^ (i * k) * ω⁻¹ ^ (k * j)) := by
        apply sum_congr rfl
        intro k _
        rw [transform, sum_mul]
        apply sum_congr rfl
        intro i _
        rw [mul_assoc]
    _ = ∑ i ∈ range n, x i * ∑ k ∈ range n, ω ^ (i * k) * ω⁻¹ ^ (k * j) := by
        rw [sum_comm]
        simp only [mul_sum]
    _ = ∑ i ∈ range n, x i * if i = j then (n : K) else 0 := by
        apply sum_congr rfl
        intro i hi
        rw [sum_pow_mul_inv_pow hω (mem_range.mp hi) hj]
    _ = n * x j := by
        rw [sum_eq_single_of_mem j (mem_range.mpr hj), if_pos rfl, mul_comm]
        intro i _ hij
        rw [if_neg hij, mul_zero]

end Inversion

section Conjugation

variable {K : Type*} [Field K] [StarRing K] {ω : K} {n : Nat}

theorem star_transform (hω : star ω = ω⁻¹) (x : Nat → K) (k : Nat) :
    star (transform ω n x k) = transform ω⁻¹ n (fun j => star (x j)) k := by
  simp only [transform, star_sum, star_mul', star_pow, hω]

/-- The spectrum of a signal without imaginary parts is mirrored. -/
theorem transform_mirror (hω : star ω = ω⁻¹) (hroot : ω ^ n = 1) {x : Nat → K}
    (hx : ∀ j, j < n → star (x j) = x j) {k : Nat} (hk : k ≤ n) :
    transform ω n x (n - k) = star (transform ω n x k) := by
  rw [star_transform hω, transform_congr hx]
  apply sum_congr rfl
  intro j _
  have hcycle : ω ^ (j * (n - k)) * ω ^ (j * k) = 1 := by
    rw [← pow_add, ← Nat.mul_add, Nat.sub_add_cancel hk, Nat.mul_comm, pow_mul, hroot, one_pow]
  rw [inv_pow, eq_inv_of_mul_eq_one_left hcycle]

/-- A spectrum has `n` times the energy of its signal. -/
theorem transform_energy (hω : star ω = ω⁻¹) (hprimitive : IsPrimitiveRoot ω n) (x : Nat → K) :
    ∑ k ∈ range n, transform ω n x k * star (transform ω n x k) =
      n * ∑ j ∈ range n, x j * star (x j) := by
  calc ∑ k ∈ range n, transform ω n x k * star (transform ω n x k)
      = ∑ k ∈ range n, ∑ j ∈ range n, transform ω n x k * ω⁻¹ ^ (k * j) * star (x j) := by
        apply sum_congr rfl
        intro k _
        have hconjugate : star (transform ω n x k) =
            ∑ j ∈ range n, star (x j) * ω⁻¹ ^ (j * k) := star_transform hω x k
        rw [hconjugate, mul_sum]
        apply sum_congr rfl
        intro j _
        rw [Nat.mul_comm k j]
        ring
    _ = ∑ j ∈ range n, transform ω⁻¹ n (transform ω n x) j * star (x j) := by
        rw [sum_comm]
        simp only [← sum_mul]
        rfl
    _ = ∑ j ∈ range n, n * (x j * star (x j)) := by
        apply sum_congr rfl
        intro j hj
        rw [transform_inv_transform hprimitive x (mem_range.mp hj), mul_assoc]
    _ = n * ∑ j ∈ range n, x j * star (x j) := by rw [mul_sum]

end Conjugation

end RockPaperScissors.Library.DiscreteFourier
