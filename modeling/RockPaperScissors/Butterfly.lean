import RockPaperScissors.Library.GaussianModulus
import RockPaperScissors.Library.SignedWord

namespace RockPaperScissors.Butterfly

open RockPaperScissors.Library.GaussianModulus
open RockPaperScissors.Library.SignedWord

section Code

structure Outputs where
  out1r : BitVec 16
  out1i : BitVec 16
  out2r : BitVec 16
  out2i : BitVec 16

/-- All operands are signed, so that each expression is evaluated in 32 bits
after sign extension. -/
def butterfly (xr xi yr yi wr wi : BitVec 16) : Outputs :=
  let temp1r : BitVec 32 := xr.signExtend 32 + yr.signExtend 32
  let temp1i : BitVec 32 := xi.signExtend 32 + yi.signExtend 32
  let temp2r : BitVec 32 := xr.signExtend 32 - yr.signExtend 32
  let temp2i : BitVec 32 := xi.signExtend 32 - yi.signExtend 32
  let temp3r := (temp2r * wr.signExtend 32 - temp2i * wi.signExtend 32).sshiftRight 15
  let temp3i := (temp2r * wi.signExtend 32 + temp2i * wr.signExtend 32).sshiftRight 15
  { out1r := temp1r.setWidth 16
    out1i := temp1i.setWidth 16
    out2r := temp3r.setWidth 16
    out2i := temp3i.setWidth 16 }

end Code

section Exact

def point (re im : BitVec 16) : GaussianInt := ⟨re.toInt, im.toInt⟩

/-- What the module is for: the sum, and the difference turned by the twiddle
factor. -/
def exactButterfly (x y w : GaussianInt) : GaussianInt × GaussianInt := (x + y, (x - y) * w)

theorem signExtend_add (x y : BitVec 16) :
    x.signExtend 32 + y.signExtend 32 = BitVec.ofInt 32 (x.toInt + y.toInt) :=
  (Int.cast_add x.toInt y.toInt).symm

theorem signExtend_sub (x y : BitVec 16) :
    x.signExtend 32 - y.signExtend 32 = BitVec.ofInt 32 (x.toInt - y.toInt) :=
  (Int.cast_sub x.toInt y.toInt).symm

theorem ofInt_mul_signExtend (u : Int) (w : BitVec 16) :
    BitVec.ofInt 32 u * w.signExtend 32 = BitVec.ofInt 32 (u * w.toInt) :=
  (Int.cast_mul u w.toInt).symm

theorem ofInt_sub_ofInt (u v : Int) :
    BitVec.ofInt 32 u - BitVec.ofInt 32 v = BitVec.ofInt 32 (u - v) :=
  (Int.cast_sub u v).symm

theorem ofInt_add_ofInt (u v : Int) :
    BitVec.ofInt 32 u + BitVec.ofInt 32 v = BitVec.ofInt 32 (u + v) :=
  (Int.cast_add u v).symm

variable (xr xi yr yi wr wi : BitVec 16)

theorem toInt_out1 :
    (butterfly xr xi yr yi wr wi).out1r.toInt = (xr.toInt + yr.toInt).bmod (2 ^ 16) ∧
      (butterfly xr xi yr yi wr wi).out1i.toInt = (xi.toInt + yi.toInt).bmod (2 ^ 16) := by
  simp only [butterfly, signExtend_add]
  exact ⟨toInt_setWidth_ofInt (by decide) _, toInt_setWidth_ofInt (by decide) _⟩

/-- The low bits of a rescaled product do not depend on what has wrapped around
in 32 bits. -/
theorem toInt_out2 :
    (butterfly xr xi yr yi wr wi).out2r.toInt =
        (((xr.toInt - yr.toInt) * wr.toInt - (xi.toInt - yi.toInt) * wi.toInt) / 2 ^ 15).bmod
          (2 ^ 16) ∧
      (butterfly xr xi yr yi wr wi).out2i.toInt =
        (((xr.toInt - yr.toInt) * wi.toInt + (xi.toInt - yi.toInt) * wr.toInt) / 2 ^ 15).bmod
          (2 ^ 16) := by
  simp only [butterfly, signExtend_sub, ofInt_mul_signExtend, ofInt_sub_ofInt, ofInt_add_ofInt]
  exact ⟨toInt_setWidth_sshiftRight_ofInt (by decide) _,
    toInt_setWidth_sshiftRight_ofInt (by decide) _⟩

/-- Each output is exact if and only if the exact value fits it. -/
theorem butterfly_exact_iff :
    ((butterfly xr xi yr yi wr wi).out1r.toInt = xr.toInt + yr.toInt ↔
        Fits 16 (xr.toInt + yr.toInt)) ∧
      ((butterfly xr xi yr yi wr wi).out1i.toInt = xi.toInt + yi.toInt ↔
        Fits 16 (xi.toInt + yi.toInt)) ∧
      ((butterfly xr xi yr yi wr wi).out2r.toInt =
          ((xr.toInt - yr.toInt) * wr.toInt - (xi.toInt - yi.toInt) * wi.toInt) / 2 ^ 15 ↔
        Fits 16
          (((xr.toInt - yr.toInt) * wr.toInt - (xi.toInt - yi.toInt) * wi.toInt) / 2 ^ 15)) ∧
      ((butterfly xr xi yr yi wr wi).out2i.toInt =
          ((xr.toInt - yr.toInt) * wi.toInt + (xi.toInt - yi.toInt) * wr.toInt) / 2 ^ 15 ↔
        Fits 16
          (((xr.toInt - yr.toInt) * wi.toInt + (xi.toInt - yi.toInt) * wr.toInt) / 2 ^ 15)) := by
  obtain ⟨h1r, h1i⟩ := toInt_out1 xr xi yr yi wr wi
  obtain ⟨h2r, h2i⟩ := toInt_out2 xr xi yr yi wr wi
  rw [h1r, h1i, h2r, h2i]
  have hfits : ∀ v : Int, v.bmod (2 ^ 16) = v ↔ Fits 16 v := fun v =>
    bmod_eq_self_iff (by decide)
  exact ⟨hfits _, hfits _, hfits _, hfits _⟩

@[simp]
theorem norm_point (re im : BitVec 16) : (point re im).norm = re.toInt ^ 2 + im.toInt ^ 2 :=
  norm_eq_add_sq _

theorem exactButterfly_point :
    exactButterfly (point xr xi) (point yr yi) (point wr wi) =
      (⟨xr.toInt + yr.toInt, xi.toInt + yi.toInt⟩,
        ⟨(xr.toInt - yr.toInt) * wr.toInt - (xi.toInt - yi.toInt) * wi.toInt,
          (xr.toInt - yr.toInt) * wi.toInt + (xi.toInt - yi.toInt) * wr.toInt⟩) := by
  apply Prod.ext
  · rfl
  · apply Zsqrtd.ext
    · simp only [exactButterfly, point, Zsqrtd.re_mul, Zsqrtd.re_sub, Zsqrtd.im_sub]
      ring
    · rfl

/-- The headroom of a stage: the sum stays within twice the modulus of its
operands, the turned difference within twice that modulus times the modulus of
the factor. -/
theorem exactButterfly_headroom {x y w : GaussianInt} {b c : Int} (hc : 0 < c)
    (hx : x.norm < b) (hy : y.norm < b) (hw : w.norm ≤ c) :
    (exactButterfly x y w).1.norm < 4 * b ∧ (exactButterfly x y w).2.norm < 4 * b * c :=
  ⟨norm_add_lt hx hy, norm_mul_lt (norm_sub_lt hx hy) hw hc⟩

/-- No output of the module overflows while its operands keep one bit of
headroom in modulus and the twiddle factor is at most one. -/
theorem butterfly_exact_of_headroom
    (hx : xr.toInt ^ 2 + xi.toInt ^ 2 < 2 ^ 28) (hy : yr.toInt ^ 2 + yi.toInt ^ 2 < 2 ^ 28)
    (hw : wr.toInt ^ 2 + wi.toInt ^ 2 ≤ 2 ^ 30) :
    (butterfly xr xi yr yi wr wi).out1r.toInt = xr.toInt + yr.toInt ∧
      (butterfly xr xi yr yi wr wi).out1i.toInt = xi.toInt + yi.toInt ∧
      (butterfly xr xi yr yi wr wi).out2r.toInt =
        ((xr.toInt - yr.toInt) * wr.toInt - (xi.toInt - yi.toInt) * wi.toInt) / 2 ^ 15 ∧
      (butterfly xr xi yr yi wr wi).out2i.toInt =
        ((xr.toInt - yr.toInt) * wi.toInt + (xi.toInt - yi.toInt) * wr.toInt) / 2 ^ 15 := by
  rw [← norm_point] at hx hy hw
  obtain ⟨hsum, hturned⟩ := exactButterfly_headroom (by decide) hx hy hw
  rw [exactButterfly_point] at hsum hturned
  obtain ⟨hsumr, hsumi⟩ := abs_lt_of_norm_lt (r := 2 ^ 15) (by decide) hsum
  obtain ⟨hturnedr, hturnedi⟩ := abs_lt_of_norm_lt (r := 2 ^ 30) (by decide) hturned
  obtain ⟨h1r, h1i⟩ := toInt_out1 xr xi yr yi wr wi
  obtain ⟨h2r, h2i⟩ := toInt_out2 xr xi yr yi wr wi
  rw [h1r, h1i, h2r, h2i]
  have hfits : ∀ v : Int, Fits 16 v → v.bmod (2 ^ 16) = v := fun v =>
    (bmod_eq_self_iff (by decide)).mpr
  exact ⟨hfits _ (fits_of_abs_lt hsumr), hfits _ (fits_of_abs_lt hsumi),
    hfits _ (fits_ediv hturnedr), hfits _ (fits_ediv hturnedi)⟩

theorem butterfly_exact_eighth :
    (butterfly 11000 11000 (-11000) (-11000) 23170 (-23170)).out2r.toInt = 31112 ∧
      (butterfly 11000 11000 (-11000) (-11000) 23170 (-23170)).out2i.toInt = 0 := by
  obtain ⟨-, -, hr, hi⟩ := butterfly_exact_of_headroom 11000 11000 (-11000) (-11000)
    23170 (-23170) (by decide) (by decide) (by decide)
  exact ⟨hr.trans (by decide), hi.trans (by decide)⟩

end Exact

end RockPaperScissors.Butterfly
