import Mathlib.Order.SuccPred.Basic
import Mathlib.Algebra.Order.Group.Nat

namespace RockPaperScissors.Library.CountedLoop

variable {σ : Type*}

/-- The loop `for (i = lo; i < hi; i++)` over an explicit state. -/
def forLoop (lo hi : Nat) (body : Nat → σ → σ) (s : σ) : σ :=
  (List.range' lo (hi - lo)).foldl (fun s i => body i s) s

theorem forLoop_of_le {lo hi : Nat} (h : hi ≤ lo) (body : Nat → σ → σ) (s : σ) :
    forLoop lo hi body s = s := by
  simp [forLoop, Nat.sub_eq_zero_of_le h]

@[simp] theorem forLoop_self (lo : Nat) (body : Nat → σ → σ) (s : σ) :
    forLoop lo lo body s = s :=
  forLoop_of_le le_rfl body s

theorem forLoop_succ {lo hi : Nat} (h : lo ≤ hi) (body : Nat → σ → σ) (s : σ) :
    forLoop lo (hi + 1) body s = body hi (forLoop lo hi body s) := by
  have hlen : hi + 1 - lo = (hi - lo) + 1 := by omega
  have hlast : lo + (hi - lo) = hi := by omega
  simp only [forLoop, hlen, List.range'_1_concat, List.foldl_append, hlast,
    List.foldl_cons, List.foldl_nil]

/-- The invariant rule: what holds before the first pass and is kept by every
pass within the bounds holds after the loop. -/
theorem forLoop_induction {lo hi : Nat} {body : Nat → σ → σ} {s : σ}
    {P : Nat → σ → Prop} (hle : lo ≤ hi) (hinit : P lo s)
    (hstep : ∀ i t, lo ≤ i → i < hi → P i t → P (i + 1) (body i t)) :
    P hi (forLoop lo hi body s) := by
  induction hi, hle using Nat.le_induction with
  | base => simpa using hinit
  | succ hi hle ih =>
      rw [forLoop_succ hle]
      apply hstep hi _ hle (Nat.lt_succ_self hi)
      exact ih fun i t hlo hhi => hstep i t hlo (Nat.lt_succ_of_lt hhi)

theorem forLoop_congr {lo hi : Nat} {body body' : Nat → σ → σ} (s : σ)
    (h : ∀ i t, lo ≤ i → i < hi → body i t = body' i t) :
    forLoop lo hi body s = forLoop lo hi body' s := by
  rcases Nat.le_total hi lo with hle | hle
  · rw [forLoop_of_le hle, forLoop_of_le hle]
  · induction hi, hle using Nat.le_induction with
    | base => rw [forLoop_self, forLoop_self]
    | succ hi hle ih =>
        rw [forLoop_succ hle, forLoop_succ hle, ih fun i t hlo hhi =>
          h i t hlo (Nat.lt_succ_of_lt hhi)]
        exact h hi _ hle (Nat.lt_succ_self hi)

end RockPaperScissors.Library.CountedLoop
