import RockPaperScissors.Library.StrictMinimum
import RockPaperScissors.ReferenceFile
import Mathlib.Order.WithBot

/-!
The end of an analysis in `main`: the three references are loaded and compared
one after the other and a word is shown.
-/

namespace RockPaperScissors.WordDecision

open RockPaperScissors.Library.StrictMinimum
open RockPaperScissors.MfccMatcher
open RockPaperScissors.ReferenceFile

/-- What a variable of type `double` can hold: not a number, or a number or an
infinity. -/
inductive Double (K : Type*)
  | nan
  | number (x : WithBot (WithTop K))

namespace Double

variable {K : Type*} [LinearOrder K]

def lessThan : Double K → Double K → Prop
  | .number x, .number y => x < y
  | _, _ => False

instance : DecidableRel (@lessThan K _)
  | .number x, .number y => inferInstanceAs (Decidable (x < y))
  | .nan, _ => isFalse id
  | .number _, .nan => isFalse id

instance : Std.Asymm (lessThan (K := K)) where
  asymm a b hab hba := by
    cases a with
    | nan => exact hab
    | number x =>
        cases b with
        | nan => exact hab
        | number y => exact lt_asymm hab hba

def ofExact (x : K) : Double K := .number ((x : WithTop K) : WithBot (WithTop K))

theorem lessThan_ofExact {x y : K} : lessThan (ofExact x) (ofExact y) ↔ x < y := by
  change ((x : WithTop K) : WithBot (WithTop K)) < ((y : WithTop K) : WithBot (WithTop K)) ↔ _
  rw [WithBot.coe_lt_coe, WithTop.coe_lt_coe]

end Double

inductive Word
  | rock
  | paper
  | scissors
deriving DecidableEq

def noChoice : String := "No choice       "

namespace Word

def filename : Word → String
  | .rock => "ROCK.TXT"
  | .paper => "PAPER.TXT"
  | .scissors => "SCISSORS.TXT"

def text : Word → String
  | .rock => "steen           "
  | .paper => "papier          "
  | .scissors => "schaar          "

theorem text_injective : Function.Injective text := by
  intro v w h
  cases v <;> cases w <;> first | rfl | exact absurd h (by decide)

theorem text_ne_noChoice (w : Word) : w.text ≠ noChoice := by
  cases w <;> decide

end Word

section Code

variable {K : Type*} [Field K] [LinearOrder K] {σ : Type*}

/-- The locals of `main` for the three words: `rock_buffer`, `rock_value` and
so on. -/
structure Locals (K : Type*) where
  buffer : Word → Nat → K
  value : Word → Double K

variable (drv : SdCardDriver σ) (strtof : List UInt8 → K) (sqrt : K → K)

/-- `if (get_values_from_sd_card_file(..)) value = compare_mfcc_buffers(..)` for
one word; `stack` is what the distance table of the call holds at first. -/
def compareWord (stack : Word → DistanceTable K) (mfccBuffer : Nat → K) (w : Word)
    (l : Locals K) (s : σ) : Locals K × σ :=
  let o := getValuesFromSdCardFile drv strtof w.filename (l.buffer w) s
  let l := { l with buffer := Function.update l.buffer w o.output }
  if o.returned then
    let distance := compareMfccBuffers sqrt numFramesMfcc (stack w) mfccBuffer (l.buffer w)
    ({ l with value := Function.update l.value w (Double.ofExact distance) }, o.driver)
  else (l, o.driver)

def compareWords (stack : Word → DistanceTable K) (mfccBuffer : Nat → K)
    (l : Locals K) (s : σ) : Locals K × σ :=
  let (l, s) := compareWord drv strtof sqrt stack mfccBuffer .rock l s
  let (l, s) := compareWord drv strtof sqrt stack mfccBuffer .paper l s
  compareWord drv strtof sqrt stack mfccBuffer .scissors l s

def chooseText (value : Word → Double K) : String :=
  if (value .rock).lessThan (value .paper) ∧ (value .rock).lessThan (value .scissors) then
    "steen           "
  else if (value .paper).lessThan (value .rock) ∧
      (value .paper).lessThan (value .scissors) then
    "papier          "
  else if (value .scissors).lessThan (value .rock) ∧
      (value .scissors).lessThan (value .paper) then
    "schaar          "
  else "No choice       "

def shownText (stack : Word → DistanceTable K) (mfccBuffer : Nat → K) (l : Locals K)
    (s : σ) : String :=
  chooseText (compareWords drv strtof sqrt stack mfccBuffer l s).1.value

end Code

section Outcomes

variable {K : Type*} [Field K] [LinearOrder K] {σ : Type*}
variable (drv : SdCardDriver σ) (strtof : List UInt8 → K) (sqrt : K → K)
variable (stack : Word → DistanceTable K) (mfccBuffer : Nat → K) (l : Locals K) (s : σ)

/-- The driver's state when the reference of a word is asked for. -/
def driverAt : Word → σ
  | .rock => s
  | .paper => (getValuesFromSdCardFile drv strtof Word.rock.filename (l.buffer .rock) s).driver
  | .scissors =>
      (getValuesFromSdCardFile drv strtof Word.paper.filename (l.buffer .paper)
        (getValuesFromSdCardFile drv strtof Word.rock.filename
          (l.buffer .rock) s).driver).driver

def outcome (w : Word) : Outcome K σ :=
  getValuesFromSdCardFile drv strtof w.filename (l.buffer w) (driverAt drv strtof l s w)

def loaded : Set Word := {w | (outcome drv strtof l s w).returned = true}

def distance (w : Word) : K :=
  compareMfccBuffers sqrt numFramesMfcc (stack w) mfccBuffer (outcome drv strtof l s w).output

def finalValue (w : Word) : Double K :=
  if (outcome drv strtof l s w).returned then
    Double.ofExact (distance drv strtof sqrt stack mfccBuffer l s w)
  else l.value w

theorem compareWord_driver (w : Word) :
    (compareWord drv strtof sqrt stack mfccBuffer w l s).2 =
      (getValuesFromSdCardFile drv strtof w.filename (l.buffer w) s).driver := by
  rw [compareWord]
  split_ifs <;> rfl

theorem compareWord_buffer_of_ne {v w : Word} (hne : v ≠ w) :
    (compareWord drv strtof sqrt stack mfccBuffer w l s).1.buffer v = l.buffer v := by
  rw [compareWord]
  split_ifs <;> exact Function.update_of_ne hne _ _

theorem compareWord_value_of_ne {v w : Word} (hne : v ≠ w) :
    (compareWord drv strtof sqrt stack mfccBuffer w l s).1.value v = l.value v := by
  rw [compareWord]
  split_ifs
  · exact Function.update_of_ne hne _ _
  · rfl

theorem compareWord_value_self (w : Word) :
    (compareWord drv strtof sqrt stack mfccBuffer w l s).1.value w =
      if (getValuesFromSdCardFile drv strtof w.filename (l.buffer w) s).returned then
        Double.ofExact (compareMfccBuffers sqrt numFramesMfcc (stack w) mfccBuffer
          (getValuesFromSdCardFile drv strtof w.filename (l.buffer w) s).output)
      else l.value w := by
  rw [compareWord]
  split_ifs
  · simp only [Function.update_self]
  · rfl

theorem compareWords_value :
    (compareWords drv strtof sqrt stack mfccBuffer l s).1.value =
      finalValue drv strtof sqrt stack mfccBuffer l s := by
  funext w
  rw [compareWords]
  cases w with
  | rock =>
      rw [compareWord_value_of_ne _ _ _ _ _ _ _ (by decide),
        compareWord_value_of_ne _ _ _ _ _ _ _ (by decide), compareWord_value_self]
      rfl
  | paper =>
      rw [compareWord_value_of_ne _ _ _ _ _ _ _ (by decide), compareWord_value_self,
        compareWord_driver, compareWord_buffer_of_ne _ _ _ _ _ _ _ (by decide),
        compareWord_value_of_ne _ _ _ _ _ _ _ (by decide)]
      rfl
  | scissors =>
      rw [compareWord_value_self, compareWord_driver, compareWord_driver,
        compareWord_buffer_of_ne _ _ _ _ _ _ _ (by decide),
        compareWord_buffer_of_ne _ _ _ _ _ _ _ (by decide),
        compareWord_buffer_of_ne _ _ _ _ _ _ _ (by decide),
        compareWord_value_of_ne _ _ _ _ _ _ _ (by decide),
        compareWord_value_of_ne _ _ _ _ _ _ _ (by decide)]
      rfl

theorem compareWords_driver :
    (compareWords drv strtof sqrt stack mfccBuffer l s).2 =
      (outcome drv strtof l s .scissors).driver := by
  simp only [compareWords, compareWord_driver]
  rw [compareWord_buffer_of_ne _ _ _ _ _ _ _ (by decide),
    compareWord_buffer_of_ne _ _ _ _ _ _ _ (by decide),
    compareWord_buffer_of_ne _ _ _ _ _ _ _ (by decide)]
  rfl

end Outcomes

section Decision

variable {K : Type*} [LinearOrder K]

theorem answers_chooseText (value : Word → Double K) :
    Answers Double.lessThan Set.univ value Word.text noChoice (chooseText value) := by
  have hrock := @isStrictMin_of_three _ _ Double.lessThan value Word.rock .paper .scissors
    (by rintro (_ | _ | _) <;> simp) (by simp) (by simp)
  have hpaper := @isStrictMin_of_three _ _ Double.lessThan value Word.paper .rock .scissors
    (by rintro (_ | _ | _) <;> simp) (by simp) (by simp)
  have hscissors := @isStrictMin_of_three _ _ Double.lessThan value Word.scissors .rock .paper
    (by rintro (_ | _ | _) <;> simp) (by simp) (by simp)
  rw [chooseText]
  split_ifs with h₁ h₂ h₃
  · exact .of_isStrictMin (hrock.mpr h₁)
  · exact .of_isStrictMin (hpaper.mpr h₂)
  · exact .of_isStrictMin (hscissors.mpr h₃)
  · apply Answers.of_none
    rintro (_ | _ | _) h
    exacts [h₁ (hrock.mp h), h₂ (hpaper.mp h), h₃ (hscissors.mp h)]

end Decision

section Announcement

variable {K : Type*} [Field K] [LinearOrder K] {σ : Type*}

/-- The text is that of the loaded word at the least distance, or the text for
no choice where no loaded word is nearer than all other loaded words. -/
def AnnouncesNearest (drv : SdCardDriver σ) (strtof : List UInt8 → K) (sqrt : K → K)
    (stack : Word → DistanceTable K) (mfccBuffer : Nat → K) (l : Locals K) (s : σ)
    (text : String) : Prop :=
  Answers (· < ·) (loaded drv strtof l s) (distance drv strtof sqrt stack mfccBuffer l s)
    Word.text noChoice text

variable (drv : SdCardDriver σ) (strtof : List UInt8 → K) (sqrt : K → K)
variable (stack : Word → DistanceTable K) (mfccBuffer : Nat → K) (l : Locals K) (s : σ)

theorem finalValue_of_loaded {w : Word} (hw : w ∈ loaded drv strtof l s) :
    finalValue drv strtof sqrt stack mfccBuffer l s w =
      Double.ofExact (distance drv strtof sqrt stack mfccBuffer l s w) :=
  if_pos hw

theorem finalValue_of_not_loaded {w : Word} (hw : w ∉ loaded drv strtof l s) :
    finalValue drv strtof sqrt stack mfccBuffer l s w = l.value w :=
  if_neg hw

theorem isStrictMin_finalValue (w : Word) :
    IsStrictMin Double.lessThan (loaded drv strtof l s)
        (finalValue drv strtof sqrt stack mfccBuffer l s) w ↔
      IsStrictMin (· < ·) (loaded drv strtof l s)
        (distance drv strtof sqrt stack mfccBuffer l s) w := by
  apply isStrictMin_congr
  intro v hv u hu
  rw [finalValue_of_loaded _ _ _ _ _ _ _ hv, finalValue_of_loaded _ _ _ _ _ _ _ hu]
  exact Double.lessThan_ofExact

/-- A value left over is not below all others if it is not below some distance
or not below another value left over. -/
theorem exists_not_lessThan_finalValue {v : Word} (hv : v ∉ loaded drv strtof l s) :
    (∃ u, u ≠ v ∧ ¬ (l.value v).lessThan (finalValue drv strtof sqrt stack mfccBuffer l s u)) ↔
      (∃ u ∈ loaded drv strtof l s, ¬ (l.value v).lessThan
          (Double.ofExact (distance drv strtof sqrt stack mfccBuffer l s u))) ∨
        ∃ u ∉ loaded drv strtof l s, u ≠ v ∧ ¬ (l.value v).lessThan (l.value u) := by
  constructor
  · rintro ⟨u, hne, hnot⟩
    by_cases hu : u ∈ loaded drv strtof l s
    · rw [finalValue_of_loaded _ _ _ _ _ _ _ hu] at hnot
      exact .inl ⟨u, hu, hnot⟩
    · rw [finalValue_of_not_loaded _ _ _ _ _ _ _ hu] at hnot
      exact .inr ⟨u, hu, hne, hnot⟩
  · rintro (⟨u, hu, hnot⟩ | ⟨u, hu, hne, hnot⟩)
    · refine ⟨u, ?_, ?_⟩
      · rintro rfl
        exact hv hu
      · rwa [finalValue_of_loaded _ _ _ _ _ _ _ hu]
    · refine ⟨u, hne, ?_⟩
      rwa [finalValue_of_not_loaded _ _ _ _ _ _ _ hu]

/-- The nearest loaded word is announced unless a value left in the variable
of a word that was not loaded is in its way: it is not above the least
distance, or it is below all other values where there is no least distance. -/
theorem announcesNearest_shownText_iff :
    AnnouncesNearest drv strtof sqrt stack mfccBuffer l s
        (shownText drv strtof sqrt stack mfccBuffer l s) ↔
      (∀ w, IsStrictMin (· < ·) (loaded drv strtof l s)
          (distance drv strtof sqrt stack mfccBuffer l s) w →
        ∀ v ∉ loaded drv strtof l s,
          (Double.ofExact (distance drv strtof sqrt stack mfccBuffer l s w)).lessThan
            (l.value v)) ∧
      ((∀ w, ¬ IsStrictMin (· < ·) (loaded drv strtof l s)
          (distance drv strtof sqrt stack mfccBuffer l s) w) →
        ∀ v ∉ loaded drv strtof l s,
          (∃ u ∈ loaded drv strtof l s, ¬ (l.value v).lessThan
            (Double.ofExact (distance drv strtof sqrt stack mfccBuffer l s u))) ∨
          ∃ u ∉ loaded drv strtof l s, u ≠ v ∧ ¬ (l.value v).lessThan (l.value u)) := by
  have h := answers_chooseText (finalValue drv strtof sqrt stack mfccBuffer l s)
  have hiff := @Answers.iff_of_univ _ _ _ _ _ (loaded drv strtof l s) _ _ _ _
    Word.text_injective Word.text_ne_noChoice h
  simp only [Answers, isStrictMin_finalValue] at hiff
  rw [AnnouncesNearest, shownText, compareWords_value, Answers, hiff]
  apply and_congr
  · refine forall₂_congr fun w hw => forall₂_congr fun v hv => ?_
    rw [finalValue_of_loaded _ _ _ _ _ _ _ hw.1, finalValue_of_not_loaded _ _ _ _ _ _ _ hv]
  · refine imp_congr_right fun _ => forall₂_congr fun v hv => ?_
    rw [not_isStrictMin_univ, finalValue_of_not_loaded _ _ _ _ _ _ _ hv,
      exists_not_lessThan_finalValue _ _ _ _ _ _ _ hv]

def staleLocals : Locals ℚ where
  buffer _ _ := 0
  value
    | .rock => Double.ofExact 0
    | .paper => Double.ofExact 1
    | .scissors => Double.ofExact 1

/-- With no card in the slot the word of the stale values is announced. -/
theorem not_announcesNearest_staleLocals :
    ¬ AnnouncesNearest (scriptedDriver (-1)) (fun _ => (0 : ℚ)) id (fun _ _ _ => 0)
        (fun _ => 0) staleLocals []
        (shownText (scriptedDriver (-1)) (fun _ => (0 : ℚ)) id (fun _ _ _ => 0)
          (fun _ => 0) staleLocals []) := by
  rintro ⟨-, hnone⟩
  have hloaded : ∀ w, w ∉ loaded (scriptedDriver (-1)) (fun _ => (0 : ℚ)) staleLocals [] := by
    rintro (_ | _ | _) <;> exact Bool.false_ne_true
  have htext := hnone fun w hw => hloaded w hw.1
  rw [shownText, compareWords_value] at htext
  have hvalue : finalValue (scriptedDriver (-1)) (fun _ => (0 : ℚ)) id (fun _ _ _ => 0)
      (fun _ => 0) staleLocals [] = staleLocals.value := by
    funext w
    exact if_neg (hloaded w)
  rw [hvalue] at htext
  exact absurd htext (by decide)

end Announcement

end RockPaperScissors.WordDecision
