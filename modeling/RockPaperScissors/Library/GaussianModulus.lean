import Mathlib.NumberTheory.Zsqrtd.GaussianInt
import Mathlib.Tactic.Linarith

namespace RockPaperScissors.Library.GaussianModulus

/-- The squared modulus as the sum of two squares. -/
theorem norm_eq_add_sq (z : GaussianInt) : z.norm = z.re ^ 2 + z.im ^ 2 := by
  rw [Zsqrtd.norm_def]
  ring

theorem norm_add_add_norm_sub (x y : GaussianInt) :
    (x + y).norm + (x - y).norm = 2 * (x.norm + y.norm) := by
  simp only [norm_eq_add_sq, Zsqrtd.re_add, Zsqrtd.im_add, Zsqrtd.re_sub, Zsqrtd.im_sub]
  ring

theorem norm_add_lt {x y : GaussianInt} {b : Int} (hx : x.norm < b) (hy : y.norm < b) :
    (x + y).norm < 4 * b := by
  linarith [norm_add_add_norm_sub x y, GaussianInt.norm_nonneg (x - y)]

theorem norm_sub_lt {x y : GaussianInt} {b : Int} (hx : x.norm < b) (hy : y.norm < b) :
    (x - y).norm < 4 * b := by
  linarith [norm_add_add_norm_sub x y, GaussianInt.norm_nonneg (x + y)]

theorem norm_mul_lt {z w : GaussianInt} {b c : Int} (hz : z.norm < b) (hw : w.norm ≤ c)
    (hc : 0 < c) : (z * w).norm < b * c := by
  calc (z * w).norm = z.norm * w.norm := Zsqrtd.norm_mul z w
    _ ≤ z.norm * c := mul_le_mul_of_nonneg_left hw (GaussianInt.norm_nonneg z)
    _ < b * c := mul_lt_mul_of_pos_right hz hc

theorem abs_lt_of_norm_lt {z : GaussianInt} {r : Int} (hr : 0 ≤ r) (h : z.norm < r ^ 2) :
    |z.re| < r ∧ |z.im| < r := by
  rw [norm_eq_add_sq] at h
  constructor
  · exact abs_lt_of_sq_lt_sq (by linarith [sq_nonneg z.im]) hr
  · exact abs_lt_of_sq_lt_sq (by linarith [sq_nonneg z.re]) hr

end RockPaperScissors.Library.GaussianModulus
