import RockPaperScissors.KissFftFactors
import Mathlib.Order.Bounds.Basic

namespace RockPaperScissors.KissFftFastSize

open RockPaperScissors.KissFft
open RockPaperScissors.KissFftFactors

section Divisions

/-- The loop `while ((m % d) == 0) m /= d`, which does not end for 0. -/
def divideOut (d m : Nat) (hd : 2 ≤ d) (hm : 0 < m) : Nat :=
  if h : m % d = 0 then
    divideOut d (m / d) hd (Nat.div_pos (Nat.le_of_dvd hm (Nat.dvd_of_mod_eq_zero h)) (by omega))
  else m
termination_by m
decreasing_by exact Nat.div_lt_self hm hd

theorem divideOut_spec {d m : Nat} (hd : 2 ≤ d) (hm : 0 < m) :
    ∃ e, m = d ^ e * divideOut d m hd hm ∧ ¬ d ∣ divideOut d m hd hm := by
  fun_induction divideOut d m hd hm with
  | case1 m hm h ih =>
      obtain ⟨e, heq, hndvd⟩ := ih
      refine ⟨e + 1, ?_, hndvd⟩
      rw [pow_succ', mul_assoc, ← heq, Nat.mul_div_cancel' (Nat.dvd_of_mod_eq_zero h)]
  | case2 m hm h => exact ⟨0, by rw [pow_zero, one_mul], fun hdvd => h (Nat.mod_eq_zero_of_dvd hdvd)⟩

theorem divideOut_pos {d m : Nat} (hd : 2 ≤ d) (hm : 0 < m) : 0 < divideOut d m hd hm := by
  obtain ⟨e, heq, _⟩ := divideOut_spec hd hm
  exact Nat.pos_of_mul_pos_left (heq ▸ hm)

theorem prime_dvd_divideOut_iff {d m p : Nat} (hd : d.Prime) (hm : 0 < m) (hp : p.Prime) :
    p ∣ divideOut d m hd.two_le hm ↔ p ∣ m ∧ p ≠ d := by
  obtain ⟨e, heq, hndvd⟩ := divideOut_spec hd.two_le hm
  constructor
  · intro hdvd
    refine ⟨heq ▸ hdvd.mul_left _, ?_⟩
    rintro rfl
    exact hndvd hdvd
  · rintro ⟨hdvd, hne⟩
    rw [heq, hp.dvd_mul] at hdvd
    rcases hdvd with hpower | hrest
    · exact absurd ((Nat.prime_dvd_prime_iff_eq hp hd).mp (hp.dvd_of_dvd_pow hpower)) hne
    · exact hrest

end Divisions

section Search

/-- What is left of a size after the twos, threes and fives are divided out. -/
def slowPart (n : Nat) (hn : 0 < n) : Nat :=
  let m2 := divideOut 2 n (by decide) hn
  let m3 := divideOut 3 m2 (by decide) (divideOut_pos _ _)
  divideOut 5 m3 (by decide) (divideOut_pos _ _)

theorem slowPart_pos {n : Nat} (hn : 0 < n) : 0 < slowPart n hn :=
  divideOut_pos _ _

theorem prime_dvd_slowPart_iff {n p : Nat} (hn : 0 < n) (hp : p.Prime) :
    p ∣ slowPart n hn ↔ p ∣ n ∧ 5 < p := by
  simp only [slowPart]
  rw [prime_dvd_divideOut_iff Nat.prime_five _ hp, prime_dvd_divideOut_iff Nat.prime_three _ hp,
    prime_dvd_divideOut_iff Nat.prime_two _ hp]
  constructor
  · rintro ⟨⟨⟨hdvd, h2⟩, h3⟩, h5⟩
    refine ⟨hdvd, ?_⟩
    by_contra hle
    have htwo := hp.two_le
    have hfour : p ≠ 4 := by
      rintro rfl
      exact absurd hp (by decide)
    omega
  · rintro ⟨hdvd, hlt⟩
    exact ⟨⟨⟨hdvd, by omega⟩, by omega⟩, by omega⟩

/-- Only twos, threes and fives. -/
def Fast (n : Nat) : Prop :=
  ∀ p, p.Prime → p ∣ n → p ≤ 5

theorem slowPart_le_one_iff {n : Nat} (hn : 0 < n) : slowPart n hn ≤ 1 ↔ Fast n := by
  constructor
  · intro hle p hp hdvd
    by_contra hlt
    have hslow := (prime_dvd_slowPart_iff hn hp).mpr ⟨hdvd, by omega⟩
    have := Nat.le_of_dvd (slowPart_pos hn) hslow
    have := hp.two_le
    omega
  · intro hfast
    by_contra hgt
    have hprime := Nat.minFac_prime (n := slowPart n hn) (by omega)
    obtain ⟨hdvd, hlt⟩ := (prime_dvd_slowPart_iff hn hprime).mp (Nat.minFac_dvd _)
    have := hfast _ hprime hdvd
    omega

def intMax : Nat := 2147483647

/-- `none` where `n++` overflows. -/
def kissFftNextFastSize (n : Nat) (hn : 0 < n) : Option Nat :=
  if slowPart n hn ≤ 1 then some n
  else if n < intMax then kissFftNextFastSize (n + 1) (Nat.succ_pos n)
  else none
termination_by intMax - n

theorem kissFftNextFastSize_of_some {n k : Nat} (hn : 0 < n)
    (h : kissFftNextFastSize n hn = some k) : IsLeast {k | n ≤ k ∧ Fast k} k := by
  fun_induction kissFftNextFastSize n hn with
  | case1 n hn hfast =>
      obtain rfl := Option.some.inj h
      refine ⟨⟨le_rfl, (slowPart_le_one_iff hn).mp hfast⟩, ?_⟩
      rintro k ⟨hle, _⟩
      exact hle
  | case2 n hn hslow hlt ih =>
      obtain ⟨⟨hle, hfast⟩, hleast⟩ := ih h
      refine ⟨⟨by omega, hfast⟩, ?_⟩
      rintro j ⟨hj, hjfast⟩
      apply hleast
      refine ⟨?_, hjfast⟩
      rcases eq_or_lt_of_le hj with rfl | hnext
      · exact absurd ((slowPart_le_one_iff hn).mpr hjfast) hslow
      · exact hnext
  | case3 n hn hslow hlast => cases h

theorem kissFftNextFastSize_eq_none_iff {n : Nat} (hn : 0 < n) (hint : n ≤ intMax) :
    kissFftNextFastSize n hn = none ↔ ∀ k, n ≤ k → k ≤ intMax → ¬ Fast k := by
  fun_induction kissFftNextFastSize n hn with
  | case1 n hn hfast =>
      constructor
      · intro h
        cases h
      · intro h
        exact absurd ((slowPart_le_one_iff hn).mp hfast) (h n le_rfl hint)
  | case2 n hn hslow hlt ih =>
      rw [ih hlt]
      constructor
      · intro h k hk hmax hfast
        rcases eq_or_lt_of_le hk with rfl | hnext
        · exact hslow ((slowPart_le_one_iff hn).mpr hfast)
        · exact h k hnext hmax hfast
      · intro h k hk hmax
        exact h k (Nat.le_of_succ_le hk) hmax
  | case3 n hn hslow hlast =>
      refine ⟨fun _ k hk hmax hfast => ?_, fun _ => rfl⟩
      obtain rfl : n = k := by omega
      exact hslow ((slowPart_le_one_iff hn).mpr hfast)

end Search

section Largest

theorem Fast.exists_eq {n : Nat} (hn : 0 < n) (h : Fast n) :
    ∃ a b c, n = 2 ^ a * 3 ^ b * 5 ^ c := by
  have htwoPos := divideOut_pos (Nat.le_refl 2) hn
  have hthreePos := divideOut_pos (by decide : 2 ≤ 3) htwoPos
  obtain ⟨a, htwo, -⟩ := divideOut_spec (Nat.le_refl 2) hn
  obtain ⟨b, hthree, -⟩ := divideOut_spec (by decide : 2 ≤ 3) htwoPos
  obtain ⟨c, hfive, -⟩ := divideOut_spec (by decide : 2 ≤ 5) hthreePos
  have hone : slowPart n hn = 1 :=
    Nat.le_antisymm ((slowPart_le_one_iff hn).mpr h) (slowPart_pos hn)
  refine ⟨a, b, c, ?_⟩
  rw [slowPart] at hone
  rw [hone, mul_one] at hfive
  rw [mul_assoc, ← hfive, ← hthree, ← htwo]

theorem exponents_le : ∀ a < 31, ∀ b < 20, ∀ c < 14,
    2 ^ a * 3 ^ b * 5 ^ c ≤ intMax → 2 ^ a * 3 ^ b * 5 ^ c ≤ 2125764000 := by
  decide +kernel

/-- The largest fast `int` is `2 ^ 5 * 3 ^ 12 * 5 ^ 3`. -/
theorem Fast.le_largest {n : Nat} (h : Fast n) (hn : 0 < n) (hint : n ≤ intMax) :
    n ≤ 2125764000 := by
  obtain ⟨a, b, c, rfl⟩ := h.exists_eq hn
  have hlt (d : Nat) {e : Nat} (k : Nat) (hd : 2 ≤ d) (hdvd : d ^ e ∣ 2 ^ a * 3 ^ b * 5 ^ c)
      (hk : intMax < d ^ k) : e < k := by
    have hle := Nat.le_of_dvd hn hdvd
    exact (Nat.pow_lt_pow_iff_right hd).mp (by omega)
  refine exponents_le a (hlt 2 31 (by decide) ?_ (by decide)) b
    (hlt 3 20 (by decide) ?_ (by decide)) c (hlt 5 14 (by decide) ?_ (by decide)) hint
  · exact (Nat.dvd_mul_right _ _).mul_right _
  · exact (Nat.dvd_mul_left _ _).mul_right _
  · exact Nat.dvd_mul_left _ _

theorem fast_largest : Fast 2125764000 := by
  have hfactors : 2125764000 = 2 ^ 5 * 3 ^ 12 * 5 ^ 3 := by norm_num
  intro p hp hdvd
  rw [hfactors, hp.dvd_mul, hp.dvd_mul] at hdvd
  rcases hdvd with (h | h) | h
  · have := (Nat.prime_dvd_prime_iff_eq hp Nat.prime_two).mp (hp.dvd_of_dvd_pow h)
    omega
  · have := (Nat.prime_dvd_prime_iff_eq hp Nat.prime_three).mp (hp.dvd_of_dvd_pow h)
    omega
  · have := (Nat.prime_dvd_prime_iff_eq hp Nat.prime_five).mp (hp.dvd_of_dvd_pow h)
    omega

end Largest

section Radices

theorem FactorChain.radix_dvd {n : Nat} {factors : List (Nat × Nat)}
    (h : FactorChain n factors) : ∀ pm ∈ factors, pm.1 ∣ n := by
  induction h with
  | last p =>
      intro pm hpm
      rw [List.mem_singleton.mp hpm]
  | step _ _ ih =>
      rename_i p m factors _ _
      intro pm hpm
      rcases List.mem_cons.mp hpm with rfl | htail
      · exact dvd_mul_right p m
      · exact (ih pm htail).mul_left p

end Radices

end RockPaperScissors.KissFftFastSize
