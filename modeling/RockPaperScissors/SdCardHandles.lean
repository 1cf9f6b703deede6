import RockPaperScissors.SdCardSession

namespace RockPaperScissors.SdCardHandles

open RockPaperScissors.Library.StateProgram
open RockPaperScissors.ReferenceFile
open RockPaperScissors.WordDecision
open RockPaperScissors.AlteraSdCard
open RockPaperScissors.SdCardRelations
open RockPaperScissors.SdCardSession

def InUseAmong (slots : Set Nat) (d : Driver) : Prop :=
  ∀ i < maxFilesOpened, (d.activeFiles i).inUse = true → i ∈ slots

structure KnownInUseAmong (slots : Set Nat) (d : Driver) : Prop where
  opened : Opened d
  among : d.initialized = true → InUseAmong slots d

theorem inUse_clearActiveFiles {i : Nat} (hi : i < maxFilesOpened) (d : Driver) :
    ((clearActiveFiles d).activeFiles i).inUse = false := by
  simp [clearActiveFiles, hi]

theorem InUseAmong.clearActiveFiles (slots : Set Nat) (d : Driver) :
    InUseAmong slots (clearActiveFiles d) := by
  intro i hi huse
  rw [inUse_clearActiveFiles hi] at huse
  exact absurd huse Bool.false_ne_true

theorem activeFiles_setFile_of_ne {index i : Nat} (hne : i ≠ index) (f : FileRecord → FileRecord)
    (d : Driver) : (setFile index f d).activeFiles i = d.activeFiles i :=
  Function.update_of_ne hne _ _

theorem inUse_setFile {index : Nat} {f : FileRecord → FileRecord}
    (hf : ∀ r, (f r).inUse = r.inUse) (d : Driver) (i : Nat) :
    ((setFile index f d).activeFiles i).inUse = (d.activeFiles i).inUse := by
  rcases eq_or_ne i index with rfl | hne
  · simp [setFile, hf]
  · rw [activeFiles_setFile_of_ne hne]

variable (w : World)

theorem elementary_inUseAmong (slots : Set Nat) : Elementary w (Keeps (InUseAmong slots)) where
  look := by
    intro d h
    change InUseAmong slots (isPresent w d).2
    simp only [isPresent]
    split_ifs
    · exact h
    · exact .clearActiveFiles slots _
    · exact h
  transfer sector := by
    intro d h
    change InUseAmong slots (transfer w sector d).2
    rw [transfer]
    split
    · split <;> exact h
    · exact h
  setFile index f hf d h i hi huse := h i hi (inUse_setFile hf d i ▸ huse)
  setSearch _ _ h := h

theorem recognising_inUseAmong (slots : Set Nat) : Recognising (Keeps (InUseAmong slots)) where
  setPartition _ _ h := h
  setBootSector _ _ := .clearActiveFiles slots _
  setFlags _ _ h := h

theorem elementary_knownInUseAmong (slots : Set Nat) :
    Elementary w (Keeps (KnownInUseAmong slots)) where
  look := by
    intro d h
    refine ⟨(elementary_keepsOpened w).look d h.opened, ?_⟩
    change (isPresent w d).2.initialized = true → InUseAmong slots (isPresent w d).2
    simp only [isPresent]
    split_ifs
    · exact h.among
    · exact fun hknown => absurd hknown Bool.false_ne_true
    · exact h.among
  transfer sector := by
    intro d h
    refine ⟨(elementary_keepsOpened w).transfer sector d h.opened, ?_⟩
    change (transfer w sector d).2.initialized = true → InUseAmong slots (transfer w sector d).2
    rw [transfer]
    split
    · split <;> exact h.among
    · exact h.among
  setFile index f hf d h :=
    ⟨(elementary_keepsOpened w).setFile index f hf d h.opened, fun hknown =>
      (elementary_inUseAmong w slots).setFile index f hf d (h.among hknown)⟩
  setSearch _ _ h := ⟨⟨h.opened.devicePointer, h.opened.flags⟩, h.among⟩

theorem knownInUseAmong_startUp : KnownInUseAmong ∅ (startUp w) := by
  have hstart : InUseAmong ∅ (openDev atPowerUp) := by
    intro i _ huse
    exact absurd huse Bool.false_ne_true
  refine ⟨opened_startUp w, fun _ => ?_⟩
  exact along_checkIfSdCardIsPresent (elementary_inUseAmong w ∅) (recognising_inUseAmong ∅) false
    (openDev atPowerUp) hstart

theorem inUseAmong_openFile {index : Nat} {d : Driver} (h : InUseAmong ∅ d) :
    InUseAmong {index} (setFile index openFile d) := by
  intro i hi huse
  by_contra hne
  have hne : i ≠ index := hne
  rw [activeFiles_setFile_of_ne hne] at huse
  exact h i hi huse

theorem openedBefore_eq_false {index : Nat} {d : Driver} (h : InUseAmong {index} d) :
    openedBefore index d = false := by
  rw [openedBefore, List.any_eq_false]
  intro i hi
  rcases eq_or_ne i index with rfl | hne
  · simp
  · have hfree : (d.activeFiles i).inUse = false := by
      rw [← Bool.not_eq_true]
      intro huse
      exact hne (h i (List.mem_range.mp hi) huse)
    simp [hfree]

theorem fopen_of_closed (name : String) :
    Ensures (KnownInUseAmong ∅) (fopen w name) fun file d =>
      file = -1 ∧ KnownInUseAmong ∅ d ∨
        ∃ index : Nat, index < maxFilesOpened ∧ file = index ∧ KnownInUseAmong {index} d := by
  have hrefused : ∀ {P : Driver → Prop}, (∀ d, P d → KnownInUseAmong ∅ d) →
      Ensures P (pure (-1) : StateM Driver Int) fun file d =>
        file = -1 ∧ KnownInUseAmong ∅ d ∨
          ∃ index : Nat, index < maxFilesOpened ∧ file = index ∧ KnownInUseAmong {index} d :=
    fun hP => .pure fun d hd => Or.inl ⟨rfl, hP d hd⟩
  have hlook := (elementary_knownInUseAmong w ∅).look.ensures_of_keeps
  refine hlook.bind fun present => .get_bind fun d hd => .ite (fun hflag => ?_) fun _ => ?_
  · have hflag : d.isSdCardFormatedAsFat16 = true := (Bool.and_eq_true_iff.mp hflag).2
    have hfree : InUseAmong ∅ d := hd.among (hd.opened.flags.trans hflag)
    refine .ite (fun _ => .get_bind ?_) fun _ => hrefused ?_
    · rintro d rfl
      split
      · next index hindex =>
          have hindex : index < maxFilesOpened :=
            List.mem_range.mp (List.mem_of_find?_eq_some hindex)
          have hfind : ∀ fileName, Ensures (fun t => t = d)
              (findFileInDirectory w fileName index) fun _ t =>
                KnownInUseAmong ∅ t ∧ InUseAmong ∅ t := by
            rintro fileName t rfl
            exact ⟨along_findFileInDirectory (elementary_knownInUseAmong w ∅) _ index _ hd,
              along_findFileInDirectory (elementary_inUseAmong w ∅) _ index _ hfree⟩
          refine (hfind _).bind fun found => .ite (fun _ => .modify_bind fun t ht => ?_) fun _ =>
            hrefused fun t ht => ht.1
          have hopen : InUseAmong {index} (setFile index openFile t) := inUseAmong_openFile ht.2
          apply Ensures.get_bind
          rintro t' rfl
          apply Ensures.pure
          rintro t' rfl
          refine Or.inr ⟨index, hindex, ?_, ?_, fun _ => hopen⟩
          · rw [openedBefore_eq_false hopen]
            rfl
          · exact ⟨ht.1.opened.devicePointer, ht.1.opened.flags⟩
      · refine hrefused ?_
        rintro d rfl
        exact hd
    · rintro d rfl
      exact hd
  · refine hrefused ?_
    rintro d rfl
    exact hd

theorem forgotten_of_absent (slots : Set Nat) :
    Ensures (KnownInUseAmong slots) (isPresent w) fun present d =>
      KnownInUseAmong slots d ∧ (present = false → d.initialized = false) := by
  intro d hd
  refine ⟨(elementary_knownInUseAmong w slots).look d hd, ?_⟩
  change (isPresent w d).1 = false → (isPresent w d).2.initialized = false
  simp only [isPresent]
  split_ifs with hpresent hknown
  · exact fun h => h.elim
  · exact fun _ => rfl
  · exact fun _ => Bool.eq_false_iff.mpr hknown

theorem knownInUseAmong_closeFile {index : Nat} {d : Driver} (h : KnownInUseAmong {index} d) :
    KnownInUseAmong ∅ (setFile index (fun r => { r with inUse := false }) d) := by
  refine ⟨⟨h.opened.devicePointer, h.opened.flags⟩, fun hknown i hi huse => ?_⟩
  rcases eq_or_ne i index with rfl | hne
  · simp [setFile] at huse
  · rw [activeFiles_setFile_of_ne hne] at huse
    exact hne (h.among hknown i hi huse)

theorem fclose_of_known {index : Nat} (hindex : index < maxFilesOpened) :
    Ensures (KnownInUseAmong {index}) (fclose w index) fun _ => KnownInUseAmong ∅ := by
  refine (forgotten_of_absent w {index}).bind fun present => .get_bind fun d hd =>
    .ite (fun _ => .get_bind ?_) fun hflag => .pure ?_
  · rintro d rfl
    have hvalid : ValidHandle index := ⟨Int.natCast_nonneg _, Int.ofNat_lt.mpr hindex⟩
    refine .ite (fun _ => .modify_bind ?_) fun hnot => .pure ?_
    · rintro d rfl
      apply Ensures.pure
      rintro d rfl
      exact knownInUseAmong_closeFile hd.1
    · rintro d rfl
      refine ⟨hd.1.opened, fun hknown i hi huse => ?_⟩
      obtain rfl : i = index := hd.1.among hknown i hi huse
      exact absurd ⟨hvalid, huse⟩ hnot
  · rintro d rfl
    refine ⟨hd.1.opened, fun hknown => absurd ?_ hflag⟩
    rw [← hd.1.opened.flags, hknown, Bool.and_true, ← Bool.not_eq_false]
    intro habsent
    exact absurd (hknown.symm.trans (hd.2 habsent)) (by decide)

section Calls

variable {K : Type*} (strtof : List UInt8 → K)

/-- A slot of `active_files` is in use under its own handle. -/
def Held (file : Int) (d : Driver) : Prop :=
  ∃ index : Nat, index < maxFilesOpened ∧ file = index ∧ KnownInUseAmong {index} d

theorem closed_getValuesFromSdCardFile (filename : String) (output : Nat → K) {d : Driver}
    (hd : KnownInUseAmong ∅ d) :
    KnownInUseAmong ∅ (getValuesFromSdCardFile (driverCalls w) strtof filename output d).driver := by
  refine @driver_getValuesFromSdCardFile _ (driverCalls w) _ strtof Held (KnownInUseAmong ∅)
    filename d ?_ ?_ ?_ ?_ output
  · intro hfile
    rcases fopen_of_closed w filename d hd with ⟨-, hclosed⟩ | ⟨index, -, hindex, -⟩
    · exact hclosed
    · have hminus : (index : Int) = -1 := hindex.symm.trans hfile
      omega
  · intro hfile
    rcases fopen_of_closed w filename d hd with ⟨hrefused, -⟩ | hheld
    · exact absurd hrefused hfile
    · exact hheld
  · rintro file d ⟨index, hindex, rfl, hheld⟩
    exact ⟨index, hindex, rfl, along_read (elementary_knownInUseAmong w {index}) index d hheld⟩
  · rintro file d ⟨index, hindex, rfl, hheld⟩
    exact fclose_of_known w hindex d hheld

theorem validHandle_getValuesFromSdCardFile (filename : String) (output : Nat → K) {d : Driver}
    (hd : KnownInUseAmong ∅ d) :
    (getValuesFromSdCardFile (driverCalls w) strtof filename output d).file = -1 ∨
      ValidHandle (getValuesFromSdCardFile (driverCalls w) strtof filename output d).file := by
  rw [file_getValuesFromSdCardFile]
  rcases fopen_of_closed w filename d hd with ⟨hrefused, -⟩ | ⟨index, hindex, hfile, -⟩
  · exact Or.inl hrefused
  · refine Or.inr ?_
    change ValidHandle ((fopen w filename).run d).1
    rw [hfile]
    exact ⟨Int.natCast_nonneg _, Int.ofNat_lt.mpr hindex⟩

theorem closed_driverAt (l : Locals K) (word : Word) {d : Driver} (hd : KnownInUseAmong ∅ d) :
    KnownInUseAmong ∅ (driverAt (driverCalls w) strtof l d word) := by
  have hcall := @closed_getValuesFromSdCardFile w K strtof
  cases word with
  | rock => exact hd
  | paper => exact hcall _ _ hd
  | scissors => exact hcall _ _ (hcall _ _ hd)

variable [Field K] [LinearOrder K] (sqrt : K → K)

theorem closed_session (l : Locals K) (recordings : List (Recording K)) :
    KnownInUseAmong ∅ (session w strtof sqrt l recordings).2 := by
  induction recordings using List.reverseRecOn with
  | nil => exact knownInUseAmong_startUp w
  | append_singleton recordings r ih =>
      rw [session, List.foldl_concat]
      change KnownInUseAmong ∅ (analyse w strtof sqrt (session w strtof sqrt l recordings) r).2
      rw [analyse, compareWords_driver]
      apply closed_getValuesFromSdCardFile
      apply closed_driverAt
      exact along_listFilesOnSdCard (elementary_knownInUseAmong w ∅) _ ih

/-- Over any number of recordings, with cards that come and go, the handle of a
word's file is -1 or one of the driver's: it is never -2. -/
theorem validHandle_session (l : Locals K) (recordings : List (Recording K)) (word : Word) :
    (outcome (driverCalls w) strtof (session w strtof sqrt l recordings).1
        ((listFilesOnSdCard w).run (session w strtof sqrt l recordings).2).2 word).file = -1 ∨
      ValidHandle (outcome (driverCalls w) strtof (session w strtof sqrt l recordings).1
        ((listFilesOnSdCard w).run (session w strtof sqrt l recordings).2).2 word).file := by
  apply validHandle_getValuesFromSdCardFile
  apply closed_driverAt
  exact along_listFilesOnSdCard (elementary_knownInUseAmong w ∅) _
    (closed_session w strtof sqrt l recordings)

end Calls

end RockPaperScissors.SdCardHandles
