import RockPaperScissors.WordDecision

namespace RockPaperScissors.ReferenceRefinement

open RockPaperScissors.MfccMatcher
open RockPaperScissors.ReferenceFile
open RockPaperScissors.WordDecision

variable {σ τ : Type*}

/-- `drv` answers as `drv'` does, between states that `Idle` relates while no file
is open and `Open` while one is. -/
structure Refines (drv : SdCardDriver σ) (drv' : SdCardDriver τ) (Idle : σ → τ → Prop)
    (Open : Int → σ → τ → Prop) : Prop where
  fopen : ∀ {name s t}, Idle s t → (drv.fopen name s).1 = (drv'.fopen name t).1
  refused : ∀ {name s t}, Idle s t → (drv'.fopen name t).1 = -1 →
    Idle (drv.fopen name s).2 (drv'.fopen name t).2
  opened : ∀ {name s t}, Idle s t → (drv'.fopen name t).1 ≠ -1 →
    Open (drv'.fopen name t).1 (drv.fopen name s).2 (drv'.fopen name t).2
  read : ∀ {file s t}, Open file s t → (drv.read file s).1 = (drv'.read file t).1
  moved : ∀ {file s t}, Open file s t → Open file (drv.read file s).2 (drv'.read file t).2
  fclose : ∀ {file s t}, Open file s t → Idle (drv.fclose file s) (drv'.fclose file t)

structure SameOutcome {K : Type*} (o : Outcome K σ) (o' : Outcome K τ) : Prop where
  returned : o.returned = o'.returned
  file : o.file = o'.file
  byte : o.byte = o'.byte
  output : o.output = o'.output
  outputIndex : o.outputIndex = o'.outputIndex

variable {drv : SdCardDriver σ} {drv' : SdCardDriver τ}
variable {Idle : σ → τ → Prop} {Open : Int → σ → τ → Prop}

theorem Refines.readBytes (h : Refines drv drv' Idle Open) {file : Int} (room : Nat) {s : σ}
    {t : τ} (hst : Open file s t) :
    (readBytes drv file room s).1 = (readBytes drv' file room t).1 ∧
      (readBytes drv file room s).2.1 = (readBytes drv' file room t).2.1 ∧
      Open file (readBytes drv file room s).2.2 (readBytes drv' file room t).2.2 := by
  induction room generalizing s t with
  | zero =>
      simp only [ReferenceFile.readBytes, h.read hst]
      split
      · exact ⟨rfl, rfl, h.moved hst⟩
      · exact ⟨rfl, rfl, h.moved hst⟩
  | succ room ih =>
      simp only [ReferenceFile.readBytes, h.read hst]
      obtain ⟨htext, hlast, hopen⟩ := ih (h.moved hst)
      split
      · exact ⟨by rw [htext], hlast, hopen⟩
      · exact ⟨rfl, rfl, h.moved hst⟩

variable {K : Type*} (strtof : List UInt8 → K)

theorem Refines.getValuesFromSdCardFile (h : Refines drv drv' Idle Open) (filename : String)
    (output : Nat → K) {s : σ} {t : τ} (hst : Idle s t) :
    SameOutcome (getValuesFromSdCardFile drv strtof filename output s)
        (getValuesFromSdCardFile drv' strtof filename output t) ∧
      Idle (getValuesFromSdCardFile drv strtof filename output s).driver
        (getValuesFromSdCardFile drv' strtof filename output t).driver := by
  simp only [ReferenceFile.getValuesFromSdCardFile, h.fopen hst]
  split
  · next hrefused => exact ⟨⟨rfl, rfl, rfl, rfl, rfl⟩, h.refused hst hrefused⟩
  · next hopened =>
      obtain ⟨htext, hlast, hopen⟩ := h.readBytes (bufferLength - 1) (h.opened hst hopened)
      generalize ReferenceFile.readBytes drv _ _ _ = result at htext hlast hopen ⊢
      generalize ReferenceFile.readBytes drv' _ _ _ = result' at htext hlast hopen ⊢
      obtain ⟨text, last, s'⟩ := result
      obtain ⟨text', last', t'⟩ := result'
      obtain rfl : text = text' := htext
      obtain rfl : last = last' := hlast
      cases text with
      | none => exact ⟨⟨rfl, rfl, rfl, rfl, rfl⟩, h.fclose hopen⟩
      | some text => exact ⟨⟨rfl, rfl, rfl, rfl, rfl⟩, h.fclose hopen⟩

theorem Refines.outcome (h : Refines drv drv' Idle Open) (l : Locals K) {s : σ} {t : τ}
    (hst : Idle s t) (word : Word) :
    SameOutcome (outcome drv strtof l s word) (outcome drv' strtof l t word) := by
  have hcall : ∀ (w : Word) {s t}, Idle s t → _ := fun w _ _ =>
    h.getValuesFromSdCardFile strtof w.filename (l.buffer w)
  cases word with
  | rock => exact (hcall .rock hst).1
  | paper => exact (hcall .paper (hcall .rock hst).2).1
  | scissors => exact (hcall .scissors (hcall .paper (hcall .rock hst).2).2).1

variable [Field K] [LinearOrder K] (sqrt : K → K) (stack : Word → DistanceTable K)
variable (mfccBuffer : Nat → K)

theorem Refines.compareWord (h : Refines drv drv' Idle Open) (word : Word) (l : Locals K) {s : σ}
    {t : τ} (hst : Idle s t) :
    (compareWord drv strtof sqrt stack mfccBuffer word l s).1 =
        (compareWord drv' strtof sqrt stack mfccBuffer word l t).1 ∧
      Idle (compareWord drv strtof sqrt stack mfccBuffer word l s).2
        (compareWord drv' strtof sqrt stack mfccBuffer word l t).2 := by
  obtain ⟨hsame, hidle⟩ := h.getValuesFromSdCardFile strtof word.filename (l.buffer word) hst
  rw [compareWord_driver, compareWord_driver]
  refine ⟨?_, hidle⟩
  simp only [WordDecision.compareWord, hsame.returned, hsame.output]
  split <;> rfl

theorem Refines.compareWords (h : Refines drv drv' Idle Open) (l : Locals K) {s : σ} {t : τ}
    (hst : Idle s t) :
    (compareWords drv strtof sqrt stack mfccBuffer l s).1 =
        (compareWords drv' strtof sqrt stack mfccBuffer l t).1 ∧
      Idle (compareWords drv strtof sqrt stack mfccBuffer l s).2
        (compareWords drv' strtof sqrt stack mfccBuffer l t).2 := by
  obtain ⟨hrock, hst⟩ := h.compareWord strtof sqrt stack mfccBuffer .rock l hst
  obtain ⟨hpaper, hst⟩ := h.compareWord strtof sqrt stack mfccBuffer .paper
    (WordDecision.compareWord drv' strtof sqrt stack mfccBuffer .rock l t).1 hst
  obtain ⟨hscissors, hst⟩ := h.compareWord strtof sqrt stack mfccBuffer .scissors
    (WordDecision.compareWord drv' strtof sqrt stack mfccBuffer .paper
      (WordDecision.compareWord drv' strtof sqrt stack mfccBuffer .rock l t).1
      (WordDecision.compareWord drv' strtof sqrt stack mfccBuffer .rock l t).2).1 hst
  simp only [WordDecision.compareWords, hrock, hpaper]
  exact ⟨hscissors, hst⟩

end RockPaperScissors.ReferenceRefinement
