import Mathlib.Algebra.Order.Ring.Int
import Mathlib.Data.BitVec
import Mathlib.Tactic.Ring

namespace RockPaperScissors.Library.SignedWord

/-- The values of a signed word of `n` bits. -/
def Fits (n : Nat) (v : Int) : Prop := -2 ^ (n - 1) ≤ v ∧ v ≤ 2 ^ (n - 1) - 1

instance (n : Nat) (v : Int) : Decidable (Fits n v) :=
  inferInstanceAs (Decidable (_ ∧ _))

theorem bmod_eq_self_iff {n : Nat} (hn : 0 < n) {v : Int} :
    v.bmod (2 ^ n) = v ↔ Fits n v := by
  cases n with
  | zero => exact absurd hn (Nat.lt_irrefl 0)
  | succ n =>
      have hpos : 0 < 2 ^ (n + 1) := Nat.two_pow_pos _
      have htwo : ((2 ^ (n + 1) : Nat) : Int) = 2 ^ n * 2 := by
        rw [Nat.cast_pow, Nat.cast_ofNat, pow_succ]
      rw [Fits, Nat.add_sub_cancel]
      constructor
      · intro h
        have hle := Int.le_bmod (x := v) hpos
        have hlt := Int.bmod_lt (x := v) hpos
        rw [h, htwo] at hle hlt
        omega
      · rintro ⟨hle, hlt⟩
        apply Int.bmod_eq_of_le_mul_two
        · rw [htwo]
          omega
        · rw [htwo]
          omega

theorem fits_of_abs_lt {n : Nat} {v : Int} (h : |v| < 2 ^ (n - 1)) : Fits n v := by
  obtain ⟨hlow, hhigh⟩ := abs_lt.mp h
  exact ⟨hlow.le, Int.le_sub_one_of_lt hhigh⟩

theorem fits_ediv {n k : Nat} {v : Int} (h : |v| < 2 ^ (n - 1) * 2 ^ k) :
    Fits n (v / 2 ^ k) := by
  have hpos : (0 : Int) < 2 ^ k := pow_pos two_pos k
  obtain ⟨hlow, hhigh⟩ := abs_lt.mp h
  constructor
  · apply Int.le_ediv_of_mul_le hpos
    rw [neg_mul]
    exact hlow.le
  · exact Int.le_sub_one_of_lt (Int.ediv_lt_of_lt_mul hpos hhigh)

/-- What is lost of the high bits does not reach the bits that are kept. -/
theorem bmod_div_bmod {n k m : Nat} (h : k + m ≤ n) (v : Int) :
    (v.bmod (2 ^ n) / 2 ^ k).bmod (2 ^ m) = (v / 2 ^ k).bmod (2 ^ m) := by
  obtain ⟨j, rfl⟩ := Nat.exists_eq_add_of_le h
  have hpow : ((2 ^ (k + m + j) : Nat) : Int) = 2 ^ k * (((2 ^ m : Nat) : Int) * 2 ^ j) := by
    rw [Nat.cast_pow, Nat.cast_pow, Nat.cast_ofNat, pow_add, pow_add, mul_assoc]
  have hne : (2 ^ k : Int) ≠ 0 := pow_ne_zero k two_ne_zero
  have hcut : v.bmod (2 ^ (k + m + j)) =
      v + 2 ^ k * (((2 ^ m : Nat) : Int) * (-(2 ^ j * v.bdiv (2 ^ (k + m + j))))) := by
    rw [Int.bmod_eq_self_sub_mul_bdiv, hpow]
    ring
  rw [hcut, Int.add_mul_ediv_left _ _ hne, Int.add_mul_bmod_self_left]

theorem toInt_setWidth_of_le {n m : Nat} (h : m ≤ n) (b : BitVec n) :
    (b.setWidth m).toInt = b.toInt.bmod (2 ^ m) := by
  rw [BitVec.toInt_setWidth, BitVec.toInt_eq_toNat_bmod,
    Int.bmod_bmod_of_dvd (Nat.pow_dvd_pow 2 h)]

theorem toInt_setWidth_ofInt {n m : Nat} (h : m ≤ n) (v : Int) :
    ((BitVec.ofInt n v).setWidth m).toInt = v.bmod (2 ^ m) := by
  rw [toInt_setWidth_of_le h, BitVec.toInt_ofInt, Int.bmod_bmod_of_dvd (Nat.pow_dvd_pow 2 h)]

/-- The low bits of an arithmetic shift to the right, whatever has wrapped
around before it. -/
theorem toInt_setWidth_sshiftRight_ofInt {n k m : Nat} (h : k + m ≤ n) (v : Int) :
    (((BitVec.ofInt n v).sshiftRight k).setWidth m).toInt = (v / 2 ^ k).bmod (2 ^ m) := by
  rw [toInt_setWidth_of_le (by omega), BitVec.toInt_sshiftRight, Int.shiftRight_eq_div_pow,
    BitVec.toInt_ofInt]
  exact bmod_div_bmod h v

end RockPaperScissors.Library.SignedWord
