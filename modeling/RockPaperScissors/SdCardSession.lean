import RockPaperScissors.SdCardRelations
import RockPaperScissors.WordDecision

/-!
The SD card over a whole run of `main`: the check at start-up, and one listing
and three files for each recording.
-/

namespace RockPaperScissors.SdCardSession

open RockPaperScissors.Library.StateProgram
open RockPaperScissors.MfccMatcher
open RockPaperScissors.ReferenceFile
open RockPaperScissors.WordDecision
open RockPaperScissors.AlteraSdCard
open RockPaperScissors.SdCardRelations

def atPowerUp : Driver where
  looks := 0
  devicePointer := false
  initialized := false
  isSdCardFormatedAsFat16 := false
  fatPartitionOffset := 0
  bootSectorData := bootSectorOf fun _ => 0
  buffer := fun _ => 0
  currentSectorIndex := 0
  activeFiles := fun _ =>
    { entry :=
        { name := fun _ => 0, extension := fun _ => 0, startClusterIndex := 0
          fileSizeInBytes := 0, fileRecordSectorInCluster := 0, fileRecordOffset := 0 }
      currentClusterIndex := 0
      currentSectorInCluster := 0
      currentBytePosition := 0
      inUse := false }
  searchData := { currentSectorInCluster := 0, fileIndexInSector := 0, valid := false }

/-- `alt_up_sd_card_open_dev` for the device that the system has registered. -/
def openDev (d : Driver) : Driver :=
  { d with
    devicePointer := true
    initialized := false
    isSdCardFormatedAsFat16 := false
    searchData := { d.searchData with valid := false } }

section Code

variable (w : World)

def checkIfSdCardIsPresent (connected : Bool) : StateM Driver Bool := do
  if connected = false then
    if ← isPresent w then
      let _ ← isFat16 w
      return true
    else return false
  else return ← isPresent w

def startUp : Driver := ((checkIfSdCardIsPresent w false).run (openDev atPowerUp)).2

/-- The loop of `list_files_on_sd_card`, for at most `n` calls. -/
def listMore : Nat → StateM Driver Unit
  | 0 => return ()
  | n + 1 => do if (← findNext w) = 0 then listMore n else return ()

/-- No file is found twice, so that the root directory bounds the calls. -/
def listFilesOnSdCard : StateM Driver Unit := do
  if (← findFirst w) = 0 then listMore w (16 * maxRootDirSectors (← get).bootSectorData)
  else return ()

def driverCalls : SdCardDriver Driver where
  fopen name d := (fopen w name).run d
  read file d := (AlteraSdCard.read w file).run d
  fclose file d := ((fclose w file).run d).2

variable {K : Type*} [Field K] [LinearOrder K] (strtof : List UInt8 → K) (sqrt : K → K)

structure Recording (K : Type*) where
  mfccBuffer : Nat → K
  stack : Word → DistanceTable K

def analyse (m : Locals K × Driver) (r : Recording K) : Locals K × Driver :=
  let d := ((listFilesOnSdCard w).run m.2).2
  compareWords (driverCalls w) strtof sqrt r.stack r.mfccBuffer m.1 d

def session (l : Locals K) (recordings : List (Recording K)) : Locals K × Driver :=
  recordings.foldl (analyse w strtof sqrt) (l, startUp w)

def driverAtOpen (m : Locals K × Driver) (word : Word) : Driver :=
  driverAt (driverCalls w) strtof m.1 ((listFilesOnSdCard w).run m.2).2 word

end Code

section Relations

variable {w : World} {R : Driver → Driver → Prop} [IsPreorder Driver R]

theorem along_checkIfSdCardIsPresent (h : Elementary w R) (hset : Recognising R)
    (connected : Bool) : Along R (checkIfSdCardIsPresent w connected) := by
  refine .ite (fun _ => ?_) fun _ => h.look
  refine h.look.bind fun present => .ite (fun _ => ?_) fun _ => .pure _
  exact (along_isFat16 h hset).bind fun _ => .pure _

theorem along_listMore (h : Elementary w R) (n : Nat) : Along R (listMore w n) := by
  induction n with
  | zero => exact .pure _
  | succ n ih =>
      refine (along_findNext h).bind fun found => ?_
      exact .ite (fun _ => ih) fun _ => .pure _

theorem along_listFilesOnSdCard (h : Elementary w R) : Along R (listFilesOnSdCard w) := by
  refine (along_findFirst h).bind fun found => .ite (fun _ => ?_) fun _ => .pure _
  exact Along.get.bind fun d => along_listMore h _

end Relations

section Presence

variable (w : World)

structure Opened (d : Driver) : Prop where
  devicePointer : d.devicePointer = true
  flags : d.initialized = d.isSdCardFormatedAsFat16

/-- A card was found at each look from `first` on and before `last`. -/
def FoundBetween (first last : Nat) : Prop :=
  ∀ n, first ≤ n → n < last → (w.slot n).isSome = true

/-- The flag is kept as long as each look finds a card, and lost for good otherwise. -/
structure TracksSlot (d d' : Driver) : Prop where
  looks : d.looks ≤ d'.looks
  opened : Opened d → Opened d'
  flag : Opened d → (d'.isSdCardFormatedAsFat16 = true ↔
    d.isSdCardFormatedAsFat16 = true ∧ FoundBetween w d.looks d'.looks)

theorem foundBetween_self (a : Nat) : FoundBetween w a a :=
  fun _ hle hlt => absurd hlt (not_lt.mpr hle)

theorem foundBetween_succ (a : Nat) : FoundBetween w a (a + 1) ↔ (w.slot a).isSome = true := by
  constructor
  · intro h
    exact h a le_rfl (Nat.lt_succ_self a)
  · intro h n hle hlt
    obtain rfl : n = a := by omega
    exact h

theorem foundBetween_trans {a b c : Nat} (hab : a ≤ b) (hbc : b ≤ c) :
    FoundBetween w a c ↔ FoundBetween w a b ∧ FoundBetween w b c := by
  constructor
  · intro h
    exact ⟨fun n ha hb => h n ha (hb.trans_le hbc), fun n hb hc => h n (hab.trans hb) hc⟩
  · rintro ⟨hfirst, hlast⟩ n ha hc
    rcases lt_or_ge n b with hb | hb
    · exact hfirst n ha hb
    · exact hlast n hb hc

instance : IsPreorder Driver (TracksSlot w) where
  refl d := by
    refine ⟨le_rfl, id, fun _ => ?_⟩
    exact (and_iff_left (foundBetween_self w d.looks)).symm
  trans a b c hab hbc := by
    refine ⟨hab.looks.trans hbc.looks, fun h => hbc.opened (hab.opened h), fun h => ?_⟩
    rw [hbc.flag (hab.opened h), hab.flag h, foundBetween_trans w hab.looks hbc.looks,
      and_assoc]

theorem tracksSlot_of_eq {d d' : Driver} (hlooks : d'.looks = d.looks)
    (hdevice : d'.devicePointer = d.devicePointer) (hinit : d'.initialized = d.initialized)
    (hflag : d'.isSdCardFormatedAsFat16 = d.isSdCardFormatedAsFat16) : TracksSlot w d d' := by
  refine ⟨hlooks.ge, ?_, ?_⟩
  · rintro ⟨hopen, hflags⟩
    exact ⟨hdevice.trans hopen, by rw [hinit, hflag, hflags]⟩
  · intro _
    rw [hflag, hlooks]
    exact (and_iff_left (foundBetween_self w d.looks)).symm

theorem tracksSlot_isPresent : Along (TracksSlot w) (isPresent w) := by
  intro d
  change TracksSlot w d (isPresent w d).2
  simp only [isPresent]
  split_ifs with hpresent hinit
  · rw [Bool.and_eq_true] at hpresent
    refine ⟨Nat.le_succ _, fun h => ⟨h.devicePointer, h.flags⟩, fun _ => ?_⟩
    change _ ↔ _ ∧ FoundBetween w d.looks (d.looks + 1)
    rw [foundBetween_succ, and_iff_left hpresent.2]
  · refine ⟨Nat.le_succ _, fun h => ⟨h.devicePointer, rfl⟩, fun h => ?_⟩
    change false = true ↔ _ ∧ FoundBetween w d.looks (d.looks + 1)
    rw [foundBetween_succ]
    simp only [Bool.false_eq_true, false_iff, not_and]
    intro _ hslot
    exact hpresent (by rw [h.devicePointer, hslot]; rfl)
  · refine ⟨Nat.le_succ _, fun h => ⟨h.devicePointer, h.flags⟩, fun h => ?_⟩
    change _ ↔ _ ∧ FoundBetween w d.looks (d.looks + 1)
    have hflag : ¬ d.isSdCardFormatedAsFat16 = true := by
      rwa [← h.flags]
    simp [hflag]

theorem tracksSlot_transfer (sector : BitVec 32) :
    Along (TracksSlot w) (transfer w sector) := by
  intro d
  change TracksSlot w d (transfer w sector d).2
  rw [transfer]
  split
  · split <;> exact tracksSlot_of_eq w rfl rfl rfl rfl
  · exact refl_of (TracksSlot w) d

theorem elementary_tracksSlot : Elementary w (TracksSlot w) where
  look := tracksSlot_isPresent w
  transfer := tracksSlot_transfer w
  setFile _ _ _ _ := tracksSlot_of_eq w rfl rfl rfl rfl
  setSearch _ _ := tracksSlot_of_eq w rfl rfl rfl rfl

theorem tracksSlot_fopen (name : String) : Along (TracksSlot w) (fopen w name) :=
  along_fopen (elementary_tracksSlot w) (fun _ _ => tracksSlot_of_eq w rfl rfl rfl rfl) name

theorem tracksSlot_fclose (file : Int) : Along (TracksSlot w) (fclose w file) :=
  along_fclose (elementary_tracksSlot w) (fun _ _ => tracksSlot_of_eq w rfl rfl rfl rfl) file

theorem tracksSlot_getValuesFromSdCardFile {K : Type*} (strtof : List UInt8 → K)
    (filename : String) (output : Nat → K) (d : Driver) :
    TracksSlot w d
      (getValuesFromSdCardFile (driverCalls w) strtof filename output d).driver := by
  apply related_getValuesFromSdCardFile
  · exact tracksSlot_fopen w
  · exact along_read (elementary_tracksSlot w)
  · exact tracksSlot_fclose w

end Presence

section StartUp

variable (w : World)

theorem elementary_keepsOpened : Elementary w (Keeps Opened) where
  look := by
    intro d h
    change Opened (isPresent w d).2
    simp only [isPresent]
    split_ifs
    · exact ⟨h.devicePointer, h.flags⟩
    · exact ⟨h.devicePointer, rfl⟩
    · exact ⟨h.devicePointer, h.flags⟩
  transfer sector := by
    intro d h
    change Opened (transfer w sector d).2
    rw [transfer]
    split
    · split <;> exact ⟨h.devicePointer, h.flags⟩
    · exact h
  setFile _ _ _ _ h := ⟨h.devicePointer, h.flags⟩
  setSearch _ _ h := ⟨h.devicePointer, h.flags⟩

theorem recognising_keepsOpened : Recognising (Keeps Opened) where
  setPartition _ _ h := ⟨h.devicePointer, h.flags⟩
  setBootSector _ h := ⟨h.devicePointer, h.flags⟩
  setFlags _ _ h := ⟨h.devicePointer, rfl⟩

theorem opened_startUp : Opened (startUp w) :=
  along_checkIfSdCardIsPresent (elementary_keepsOpened w) recognising_keepsOpened false
    (openDev atPowerUp) ⟨rfl, rfl⟩

end StartUp

section Session

variable (w : World) {K : Type*} (strtof : List UInt8 → K)

theorem tracksSlot_driverAtOpen (m : Locals K × Driver) (word : Word) :
    TracksSlot w m.2 (driverAtOpen w strtof m word) := by
  have hlist : TracksSlot w m.2 ((listFilesOnSdCard w).run m.2).2 :=
    along_listFilesOnSdCard (elementary_tracksSlot w) m.2
  have hcall := @tracksSlot_getValuesFromSdCardFile w K strtof
  cases word with
  | rock => exact hlist
  | paper => exact trans_of (TracksSlot w) hlist (hcall _ _ _)
  | scissors =>
      exact trans_of (TracksSlot w) hlist (trans_of (TracksSlot w) (hcall _ _ _) (hcall _ _ _))

variable [Field K] [LinearOrder K] (sqrt : K → K)

theorem tracksSlot_from_open (m : Locals K × Driver) (r : Recording K) (word : Word) :
    TracksSlot w (driverAtOpen w strtof m word) (analyse w strtof sqrt m r).2 := by
  have hcall := @tracksSlot_getValuesFromSdCardFile w K strtof
  rw [analyse, compareWords_driver]
  cases word with
  | rock =>
      exact trans_of (TracksSlot w) (hcall _ _ _)
        (trans_of (TracksSlot w) (hcall _ _ _) (hcall _ _ _))
  | paper => exact trans_of (TracksSlot w) (hcall _ _ _) (hcall _ _ _)
  | scissors => exact hcall _ _ _

theorem tracksSlot_analyse (m : Locals K × Driver) (r : Recording K) :
    TracksSlot w m.2 (analyse w strtof sqrt m r).2 :=
  trans_of (TracksSlot w) (tracksSlot_driverAtOpen w strtof m .rock)
    (tracksSlot_from_open w strtof sqrt m r .rock)

theorem tracksSlot_session (l : Locals K) (recordings : List (Recording K)) :
    TracksSlot w (startUp w) (session w strtof sqrt l recordings).2 := by
  induction recordings using List.reverseRecOn with
  | nil => exact refl_of (TracksSlot w) _
  | append_singleton recordings r ih =>
      rw [session, List.foldl_concat]
      exact trans_of (TracksSlot w) ih (tracksSlot_analyse w strtof sqrt _ r)

/-- A FAT16 card was found at each look from `first` on and before `last`. -/
def HoldsFat16 (first last : Nat) : Prop :=
  ∀ n, first ≤ n → n < last → ∃ card, w.slot n = some card ∧ card.isFormatedAsFat16 = true

/-- Every analysis that runs with a FAT16 card in the slot opens its files with
the flag set. -/
def OpensInitialized (l : Locals K) (recordings : List (Recording K)) : Prop :=
  ∀ earlier r later, recordings = earlier ++ r :: later →
    HoldsFat16 w (session w strtof sqrt l earlier).2.looks
        (session w strtof sqrt l (earlier ++ [r])).2.looks →
      ∀ word, (driverAtOpen w strtof (session w strtof sqrt l earlier)
        word).isSdCardFormatedAsFat16 = true

/-- The flag is set at the opening of the files exactly if the card that was in
the slot at start-up was recognised, and no look since has found the slot empty. -/
theorem opensInitialized_iff (l : Locals K) (recordings : List (Recording K)) :
    OpensInitialized w strtof sqrt l recordings ↔
      ∀ earlier r later, recordings = earlier ++ r :: later →
        HoldsFat16 w (session w strtof sqrt l earlier).2.looks
            (session w strtof sqrt l (earlier ++ [r])).2.looks →
          (startUp w).isSdCardFormatedAsFat16 = true ∧
            FoundBetween w (startUp w).looks (session w strtof sqrt l earlier).2.looks := by
  refine forall₅_congr fun earlier r later hsplit hfat16 => ?_
  have hrun := tracksSlot_session w strtof sqrt l earlier
  have hopened := hrun.opened (opened_startUp w)
  rw [← hrun.flag (opened_startUp w)]
  constructor
  · intro h
    exact (((tracksSlot_driverAtOpen w strtof _ .rock).flag hopened).mp (h .rock)).1
  · intro hflag word
    rw [(tracksSlot_driverAtOpen w strtof _ word).flag hopened]
    refine ⟨hflag, fun n hfirst hlast => ?_⟩
    have hend := (tracksSlot_from_open w strtof sqrt
      (session w strtof sqrt l earlier) r word).looks
    have hanalyse : (session w strtof sqrt l (earlier ++ [r])).2.looks =
        (analyse w strtof sqrt (session w strtof sqrt l earlier) r).2.looks := by
      simp [session]
    obtain ⟨card, hslot, -⟩ := hfat16 n hfirst (hanalyse ▸ hlast.trans_le hend)
    rw [hslot]
    rfl

def fat16Card : Card where
  csd := 0x0400
  sectorAt _ offset :=
    if offset = 12 then 0x02
    else if offset = 13 then 0x01
    else if offset = 19 then 0x88
    else if offset = 20 then 0x13
    else if offset = 0x1fe then 0x55
    else if offset = 0x1ff then 0xaa
    else 0

def insertedLater : World where
  slot n := if n = 0 then none else some fat16Card
  timesOut _ := false

/-- The card is in the slot during the whole recording, but it has never been
examined. -/
theorem not_opensInitialized_insertedLater :
    ¬ OpensInitialized insertedLater (fun _ => (0 : ℚ)) id
        { buffer := fun _ _ => 0, value := fun _ => .nan }
        [{ mfccBuffer := fun _ => 0, stack := fun _ _ _ => 0 }] := by
  intro h
  have hstart : (startUp insertedLater).isSdCardFormatedAsFat16 = false ∧
      (startUp insertedLater).looks = 1 := ⟨rfl, rfl⟩
  have hflag := h [] _ [] rfl (fun n hfirst _ => ?_) .rock
  · have hkept := (tracksSlot_driverAtOpen insertedLater (fun _ => (0 : ℚ)) _ .rock).flag
      (opened_startUp insertedLater) |>.mp hflag
    exact absurd (hkept.1.symm.trans hstart.1) (by decide)
  · have hn : n ≠ 0 := by
      rintro rfl
      exact absurd (hstart.2 ▸ hfirst) (by decide)
    exact ⟨fat16Card, if_neg hn, by decide⟩

end Session

end RockPaperScissors.SdCardSession
