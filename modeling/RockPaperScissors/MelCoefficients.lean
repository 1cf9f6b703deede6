import RockPaperScissors.Library.CountedLoop
import Mathlib.Algebra.Order.Field.Basic
import Mathlib.Data.Nat.Cast.Order.Field

namespace RockPaperScissors.MelCoefficients

open RockPaperScissors.Library.CountedLoop

/-- What the program calls of `math.h`, and `PI`. -/
structure MathLibrary (K : Type*) where
  sqrt : K → K
  log : K → K
  cos : K → K
  pow : K → K → K
  pi : K

section Code

variable {K : Type*} [Field K] [LinearOrder K] (libm : MathLibrary K)

def getCenterFrequency (filterBand : Nat) : K :=
  if filterBand = 0 then 0
  else if 1 ≤ filterBand ∧ filterBand ≤ 14 then (200 * filterBand) / 3
  else libm.pow (10711703 / 10000000) (filterBand - 14) * (10734 / 10)

def getMagnitudeFactor (filterBand : Nat) : K :=
  if 1 ≤ filterBand ∧ filterBand ≤ 14 then 15 / 1000
  else if 15 ≤ filterBand ∧ filterBand ≤ 48 then
    2 / (getCenterFrequency libm (filterBand + 1) - getCenterFrequency libm (filterBand - 1))
  else 0

/-- The boundary is an unsigned product and quotient before it is a `double`. -/
def getFilterParameter (samplingRate binSize frequencyBand filterBand : Nat) : K :=
  let boundary : K := ((frequencyBand * samplingRate % 2 ^ 32 / binSize : Nat) : K)
  let prevCenterFrequency := getCenterFrequency libm (filterBand - 1)
  let thisCenterFrequency := getCenterFrequency libm filterBand
  let nextCenterFrequency := getCenterFrequency libm (filterBand + 1)
  if 0 ≤ boundary ∧ boundary < prevCenterFrequency then 0
  else if prevCenterFrequency ≤ boundary ∧ boundary < thisCenterFrequency then
    (boundary - prevCenterFrequency) / (thisCenterFrequency - prevCenterFrequency) *
      getMagnitudeFactor libm filterBand
  else if thisCenterFrequency ≤ boundary ∧ boundary < nextCenterFrequency then
    (boundary - nextCenterFrequency) / (thisCenterFrequency - nextCenterFrequency) *
      getMagnitudeFactor libm filterBand
  else 0

def normalizationFactor (numFilters m : Nat) : K :=
  if m = 0 then libm.sqrt (1 / numFilters) else libm.sqrt (2 / numFilters)

/-- The sum over the bins for the filter band `l`. -/
def innerSum (spectralData : Nat → K) (samplingRate binSize l : Nat) : K :=
  forLoop 0 (binSize - 1) (fun k innerSum =>
    innerSum + |spectralData k * getFilterParameter libm samplingRate binSize k l|) 0

def getCoefficient (spectralData : Nat → K)
    (samplingRate numFilters binSize m : Nat) : K :=
  if numFilters ≤ m then 0
  else
    let result := normalizationFactor libm numFilters m
    let outerSum := forLoop 1 (numFilters + 1) (fun l outerSum =>
      let innerSum := innerSum libm spectralData samplingRate binSize l
      -- the logarithm of 0 is left out
      let innerSum := if 0 < innerSum then libm.log innerSum else innerSum
      outerSum + innerSum * libm.cos ((m * libm.pi) / numFilters * (l - 1 / 2))) 0
    result * outerSum

end Code

section Spec

variable {K : Type*} [Field K] [LinearOrder K] (libm : MathLibrary K)

theorem getCoefficient_of_numFilters_le (spectralData : Nat → K)
    (samplingRate binSize : Nat) {numFilters m : Nat} (h : numFilters ≤ m) :
    getCoefficient libm spectralData samplingRate numFilters binSize m = 0 :=
  if_pos h

variable [IsStrictOrderedRing K]

theorem innerSum_congr {spectralData spectralData' : Nat → K} (samplingRate : Nat)
    {binSize : Nat} (h : ∀ k, k + 1 < binSize → |spectralData k| = |spectralData' k|)
    (l : Nat) :
    innerSum libm spectralData samplingRate binSize l =
      innerSum libm spectralData' samplingRate binSize l := by
  apply forLoop_congr
  intro k _ _ hk
  rw [abs_mul, abs_mul, h k (by omega)]

theorem getCoefficient_congr {spectralData spectralData' : Nat → K} {binSize : Nat}
    (h : ∀ k, k + 1 < binSize → |spectralData k| = |spectralData' k|)
    (samplingRate numFilters m : Nat) :
    getCoefficient libm spectralData samplingRate numFilters binSize m =
      getCoefficient libm spectralData' samplingRate numFilters binSize m := by
  simp only [getCoefficient, innerSum_congr libm samplingRate h]

end Spec

end RockPaperScissors.MelCoefficients
