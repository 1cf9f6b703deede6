import Mathlib.Data.BitVec
import Mathlib.Data.List.GetD

namespace RockPaperScissors.Library.ShiftRegister

variable {n : Nat}

def shiftIn (w : BitVec (n + 1)) (bit : Bool) : BitVec (n + 1) :=
  w.extractLsb' 0 n ++ BitVec.ofBool bit

def shiftInAll (w : BitVec (n + 1)) (bits : List Bool) : BitVec (n + 1) :=
  bits.foldl shiftIn w

theorem getLsbD_shiftIn (w : BitVec (n + 1)) (bit : Bool) (i : Nat) :
    (shiftIn w bit).getLsbD i = if i = 0 then bit else decide (i < n + 1) && w.getLsbD (i - 1) := by
  rw [shiftIn, BitVec.getLsbD_append]
  cases i with
  | zero => simp
  | succ i => simp

theorem shiftInAll_append (w : BitVec (n + 1)) (front back : List Bool) :
    shiftInAll w (front ++ back) = shiftInAll (shiftInAll w front) back :=
  List.foldl_append

theorem getLsbD_shiftInAll (w : BitVec (n + 1)) (bits : List Bool) (i : Nat) :
    (shiftInAll w bits).getLsbD i =
      (decide (i < n + 1) && if i < bits.length then bits.getD (bits.length - 1 - i) false
        else w.getLsbD (i - bits.length)) := by
  induction bits using List.reverseRecOn generalizing i with
  | nil =>
      change w.getLsbD i = (decide (i < n + 1) && w.getLsbD i)
      by_cases hi : i < n + 1
      · simp [hi]
      · simp [hi, BitVec.getLsbD_of_ge w i (not_lt.mp hi)]
  | append_singleton bits bit ih =>
      rw [shiftInAll_append]
      change (shiftIn (shiftInAll w bits) bit).getLsbD i = _
      rw [getLsbD_shiftIn, List.length_append, List.length_singleton]
      cases i with
      | zero => simp
      | succ i =>
          rw [if_neg (Nat.succ_ne_zero i), Nat.add_sub_cancel, ih]
          by_cases hi : i + 1 < n + 1
          · rw [decide_eq_true hi, decide_eq_true (Nat.lt_of_succ_lt hi), Bool.true_and,
              Bool.true_and, Bool.true_and]
            by_cases hbits : i < bits.length
            · have hindex : bits.length + 1 - 1 - (i + 1) = bits.length - 1 - i := by omega
              rw [if_pos hbits, if_pos (Nat.succ_lt_succ hbits), hindex,
                List.getD_append _ _ _ _ (by omega)]
            · rw [if_neg hbits, if_neg (fun h => hbits (Nat.lt_of_succ_lt_succ h)),
                Nat.add_sub_add_right]
          · rw [decide_eq_false hi, Bool.false_and, Bool.false_and]

/-- The register holds the last bits that came in, the first of them on top. -/
theorem shiftInAll_of_length_ge {bits : List Bool} (h : n + 1 ≤ bits.length)
    (w : BitVec (n + 1)) :
    shiftInAll w bits = (BitVec.ofBoolListBE bits).setWidth (n + 1) := by
  apply BitVec.eq_of_getLsbD_eq
  intro i hi
  rw [getLsbD_shiftInAll, BitVec.getLsbD_setWidth, BitVec.getLsbD_ofBoolListBE,
    if_pos (lt_of_lt_of_le hi h), decide_eq_true (lt_of_lt_of_le hi h)]
  simp

/-- The top bit after `k` zeros came in is the bit that was `k` below the top. -/
theorem msb_shiftInAll_replicate (w : BitVec (n + 1)) (k : Nat) :
    (shiftInAll w (List.replicate k false)).msb = w.getMsbD k := by
  rw [BitVec.msb_eq_getLsbD_last, Nat.add_sub_cancel, getLsbD_shiftInAll, List.length_replicate,
    BitVec.getMsbD, Nat.add_sub_cancel, decide_eq_true (Nat.lt_succ_self n), Bool.true_and]
  by_cases hk : n < k
  · rw [if_pos hk, decide_eq_false (by omega), Bool.false_and]
    simp
  · rw [if_neg hk, decide_eq_true (by omega), Bool.true_and]

def topBits (w : BitVec (n + 1)) (m : Nat) : List Bool := (List.range m).map w.getMsbD

@[simp] theorem length_topBits (w : BitVec (n + 1)) (m : Nat) : (topBits w m).length = m := by
  simp [topBits]

theorem topBits_succ (w : BitVec (n + 1)) (m : Nat) :
    topBits w (m + 1) = topBits w m ++ [w.getMsbD m] := by
  simp [topBits, List.range_succ]

/-- A word is the first bits that it shifts out. -/
theorem ofBoolListBE_topBits (w : BitVec (n + 1)) {m : Nat} (hm : n + 1 ≤ m) :
    (BitVec.ofBoolListBE ((topBits w m).take (n + 1))).setWidth (n + 1) = w := by
  have hlength : ((topBits w m).take (n + 1)).length = n + 1 := by
    rw [List.length_take, length_topBits, Nat.min_eq_left hm]
  apply BitVec.eq_of_getLsbD_eq
  intro i hi
  rw [BitVec.getLsbD_setWidth, BitVec.getLsbD_ofBoolListBE, hlength, decide_eq_true hi,
    Bool.true_and, Bool.true_and, List.getD_eq_getElem _ _ (by rw [hlength]; omega),
    List.getElem_take]
  simp only [topBits, List.getElem_map, List.getElem_range, BitVec.getMsbD]
  rw [decide_eq_true (by omega), Bool.true_and]
  congr 1
  omega

end RockPaperScissors.Library.ShiftRegister
