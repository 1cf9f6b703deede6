import RockPaperScissors.KissFft
import Mathlib.Data.Nat.Prime.Basic
import Mathlib.Algebra.Order.Ring.Nat
import Mathlib.Tactic.IntervalCases

namespace RockPaperScissors.KissFftFactors

open RockPaperScissors.KissFft

section Chain

/-- `p[i] * m[i] = m[i-1]`, with the length itself before the first pair and 1 at
the end. -/
inductive FactorChain : Nat → List (Nat × Nat) → Prop
  | last (p : Nat) : FactorChain p [(p, 1)]
  | step {p m : Nat} {factors : List (Nat × Nat)} :
      m ≠ 1 → FactorChain m factors → FactorChain (p * m) ((p, m) :: factors)

theorem nextRadix_dvd {floorSqrt n p : Nat} : nextRadix floorSqrt n p ∣ n := by
  fun_induction nextRadix floorSqrt n p with
  | case1 p hdvd => exact Nat.dvd_of_mod_eq_zero hdvd
  | case2 => exact dvd_rfl
  | case3 p _ _ ih => exact ih

theorem factorsFrom_chain {floorSqrt n p : Nat} (hn : 1 ≤ n) (hp : 2 ≤ p) :
    FactorChain n (factorsFrom floorSqrt n p hp) := by
  fun_induction factorsFrom floorSqrt n p hp with
  | case1 n p hp radix rest ih =>
      have hdvd : radix * rest = n := Nat.mul_div_cancel' nextRadix_dvd
      by_cases hrest : 1 < rest
      · rw [dif_pos hrest]
        conv => enter [1]; rw [← hdvd]
        exact .step hrest.ne' (ih hrest hrest.le)
      · rw [dif_neg hrest]
        have hpos : rest ≠ 0 := by
          rintro hzero
          rw [hzero] at hdvd
          omega
        have hone : rest = 1 := le_antisymm (not_lt.mp hrest) (Nat.pos_of_ne_zero hpos)
        rw [hone, mul_one] at hdvd
        rw [hone, hdvd]
        exact .last n

theorem kfFactor_chain {n : Nat} (hn : 1 ≤ n) : FactorChain n (kfFactor n) :=
  factorsFrom_chain hn _

theorem FactorChain.two_pow_length_le {n : Nat} {factors : List (Nat × Nat)}
    (h : FactorChain n factors) (hradix : ∀ pm ∈ factors, 2 ≤ pm.1) :
    2 ^ factors.length ≤ n := by
  induction h with
  | last p =>
      have := hradix (p, 1) (by simp)
      simpa using this
  | step _ _ ih =>
      rename_i p m factors _ _
      have htwo : 2 ≤ p := hradix (p, m) (by simp)
      have hrest : 2 ^ factors.length ≤ m := ih fun pm hpm => hradix pm (by simp [hpm])
      rw [List.length_cons, pow_succ']
      exact Nat.mul_le_mul htwo hrest

end Chain

section Radices

/-- What is known when `kf_factor` comes to a candidate: nothing at 4, and that
no smaller prime is left afterwards. -/
def Screened (n p : Nat) : Prop :=
  p = 4 ∨ (p = 2 ∨ p % 2 = 1) ∧ ∀ q, q.Prime → q < p → ¬ q ∣ n

theorem screened_nextCandidate {n p : Nat} (hp : 2 ≤ p) (h : Screened n p) (hn : n % p ≠ 0) :
    (nextCandidate p = 2 ∨ nextCandidate p % 2 = 1) ∧
      ∀ q, q.Prime → q < nextCandidate p → ¬ q ∣ n := by
  rcases h with rfl | ⟨hparity, hsmaller⟩
  · refine ⟨.inl rfl, ?_⟩
    intro q hq hlt
    exact absurd hq.two_le (by rw [nextCandidate_four] at hlt; omega)
  · have hndvd : ¬ p ∣ n := fun hdvd => hn (Nat.mod_eq_zero_of_dvd hdvd)
    rcases hparity with rfl | hodd
    · refine ⟨.inr rfl, ?_⟩
      intro q hq hlt
      have htwo : q = 2 := by
        have := hq.two_le
        have hnext : nextCandidate 2 = 3 := rfl
        omega
      rwa [htwo]
    · have hnext : nextCandidate p = p + 2 := by
        rw [nextCandidate, if_neg (by omega), if_neg (by omega)]
      rw [hnext]
      refine ⟨.inr (by omega), ?_⟩
      intro q hq hlt
      rcases Nat.lt_trichotomy q p with hlt' | rfl | hgt
      · exact hsmaller q hq hlt'
      · exact hndvd
      · have heven : q = p + 1 := by omega
        have := hq.eq_one_or_self_of_dvd 2 (by omega)
        omega

theorem prime_of_screened {n p : Nat} (hp : 2 ≤ p) (hdvd : p ∣ n)
    (hsmaller : ∀ q, q.Prime → q < p → ¬ q ∣ n) : p.Prime := by
  have hmin : p.minFac.Prime := Nat.minFac_prime (by omega)
  have hle : p ≤ p.minFac := by
    by_contra hlt
    exact hsmaller p.minFac hmin (by omega) ((Nat.minFac_dvd p).trans hdvd)
  have heq : p.minFac = p := le_antisymm (Nat.minFac_le (by omega)) hle
  rwa [heq] at hmin

/-- What no prime up to its square root divides is a prime itself. -/
theorem prime_of_sqrt_lt {n p : Nat} (hn : 2 ≤ n) (hsqrt : n.sqrt < p)
    (hsmaller : ∀ q, q.Prime → q < p → ¬ q ∣ n) : n.Prime := by
  by_contra hcomposite
  have hmin : n.minFac.Prime := Nat.minFac_prime (by omega)
  have hsquare : n.minFac ^ 2 ≤ n := Nat.minFac_sq_le_self (by omega) hcomposite
  have hle : n.minFac ≤ n.sqrt := by
    rw [Nat.le_sqrt, ← pow_two]
    exact hsquare
  exact hsmaller n.minFac hmin (by omega) (Nat.minFac_dvd n)

theorem nextRadix_spec {floorSqrt n p : Nat} (hn : 2 ≤ n) (hp : 2 ≤ p)
    (hsqrt : n.sqrt ≤ floorSqrt) (h : Screened n p) :
    (nextRadix floorSqrt n p = 4 ∨ (nextRadix floorSqrt n p).Prime) ∧
      (Screened n (nextRadix floorSqrt n p) ∨ nextRadix floorSqrt n p = n) := by
  fun_induction nextRadix floorSqrt n p with
  | case1 p hdvd =>
      refine ⟨?_, .inl h⟩
      rcases h with rfl | ⟨_, hsmaller⟩
      · exact .inl rfl
      · exact .inr (prime_of_screened hp (Nat.dvd_of_mod_eq_zero hdvd) hsmaller)
  | case2 p hndvd hend =>
      have hnext := screened_nextCandidate hp h hndvd
      exact ⟨.inr (prime_of_sqrt_lt hn (by omega) hnext.2), .inr rfl⟩
  | case3 p hndvd _ ih =>
      exact ih (two_le_nextCandidate p) (.inr (screened_nextCandidate hp h hndvd))

theorem Screened.of_dvd {n n' p : Nat} (h : Screened n p) (hdvd : n' ∣ n) : Screened n' p := by
  rcases h with hfour | ⟨hparity, hsmaller⟩
  · exact .inl hfour
  · exact .inr ⟨hparity, fun q hq hlt hq' => hsmaller q hq hlt (hq'.trans hdvd)⟩

theorem factorsFrom_radix {floorSqrt n p : Nat} (hn : 2 ≤ n) (hp : 2 ≤ p)
    (hsqrt : n.sqrt ≤ floorSqrt) (h : Screened n p) :
    ∀ pm ∈ factorsFrom floorSqrt n p hp, pm.1 = 4 ∨ pm.1.Prime := by
  fun_induction factorsFrom floorSqrt n p hp with
  | case1 n p hp radix rest ih =>
      obtain ⟨hradix, hknown⟩ := nextRadix_spec hn hp hsqrt h
      intro pm hpm
      rcases List.mem_cons.mp hpm with rfl | htail
      · exact hradix
      · by_cases hrest : 1 < rest
        · rw [dif_pos hrest] at htail
          have hdvd : rest ∣ n := Nat.div_dvd_of_dvd nextRadix_dvd
          have hle : rest ≤ n := Nat.div_le_self n radix
          refine ih hrest hrest ((Nat.sqrt_le_sqrt hle).trans hsqrt) ?_ pm htail
          rcases hknown with hscreened | hwhole
          · exact hscreened.of_dvd hdvd
          · have hone : rest = 1 := by
              simp only [rest, radix, hwhole]
              exact Nat.div_self (by omega)
            omega
        · rw [dif_neg hrest] at htail
          exact absurd htail List.not_mem_nil

theorem kfFactor_radix {n : Nat} (hn : 2 ≤ n) : ∀ pm ∈ kfFactor n, pm.1 = 4 ∨ pm.1.Prime :=
  factorsFrom_radix hn _ le_rfl (.inl rfl)

theorem kfFactor_one : kfFactor 1 = [(1, 1)] := by
  simp [kfFactor, factorsFrom, nextRadix, nextCandidate]

theorem kfFactor_spec {n : Nat} (hn : 1 ≤ n) (hint : n < 2 ^ 31) :
    FactorChain n (kfFactor n) ∧ (kfFactor n).length ≤ maxFactors ∧
      (n ≠ 1 → ∀ pm ∈ kfFactor n, pm.1 = 4 ∨ pm.1.Prime) := by
  refine ⟨kfFactor_chain hn, ?_, fun hne => kfFactor_radix (by omega)⟩
  rcases eq_or_ne n 1 with rfl | hne
  · rw [kfFactor_one]
    decide
  · have hradix : ∀ pm ∈ kfFactor n, 2 ≤ pm.1 := by
      intro pm hpm
      rcases kfFactor_radix (by omega) pm hpm with hfour | hprime
      · omega
      · exact hprime.two_le
    have hpow : 2 ^ (kfFactor n).length < 2 ^ 31 :=
      ((kfFactor_chain hn).two_pow_length_le hradix).trans_lt hint
    have hlength := (Nat.pow_lt_pow_iff_right (by decide)).mp hpow
    rw [maxFactors]
    omega

theorem kfFactor_spec_fftSize :
    FactorChain 1024 (kfFactor 1024) ∧ (kfFactor 1024).length ≤ maxFactors ∧
      (1024 ≠ 1 → ∀ pm ∈ kfFactor 1024, pm.1 = 4 ∨ pm.1.Prime) :=
  kfFactor_spec (by decide) (by decide)

end Radices

end RockPaperScissors.KissFftFactors
