import RockPaperScissors.SdCardSession

namespace RockPaperScissors.SdCardRecognition

open RockPaperScissors.Library.StateProgram
open RockPaperScissors.WordDecision
open RockPaperScissors.AlteraSdCard
open RockPaperScissors.SdCardSession

/-- The card is in the slot at every look, and no transfer times out. -/
structure Stays (w : World) (card : Card) : Prop where
  slot : ∀ n, w.slot n = some card
  timesOut : ∀ n, w.timesOut n = false

def Powered (d : Driver) : Prop := d.devicePointer = true

def Examined (card : Card) (start : BitVec 32) (found : Bool) (d : Driver) : Prop :=
  found = endsWithSignature (card.sectorAt (start * 512)) ∧
    (found = true → d.bootSectorData = bootSectorOf (card.sectorAt (start * 512)))

/-- The sector that the partition table names, where there is one. -/
def masterBootRecord (card : Card) : Option (BitVec 32) :=
  if endsWithSignature (card.sectorAt 0) then fatPartition (card.sectorAt 0) else none

variable {w : World} {card : Card}

theorem Stays.look (h : Stays w card) {d : Driver} (hd : Powered d) :
    (isPresent w).run d = (true, { d with looks := d.looks + 1 }) := by
  change isPresent w d = _
  rw [Powered] at hd
  simp [isPresent, hd, h.slot]

theorem Stays.isPresent (h : Stays w card) :
    Ensures Powered (isPresent w) fun present d => present = true ∧ Powered d := by
  intro d hd
  rw [h.look hd]
  exact ⟨rfl, hd⟩

theorem Stays.transfer (h : Stays w card) (sector : BitVec 32) :
    Ensures Powered (transfer w sector) fun moved d =>
      moved = true ∧ Powered d ∧ d.buffer = card.sectorAt (sector * 512) := by
  intro d hd
  change (AlteraSdCard.transfer w sector d).1 = true ∧
    (AlteraSdCard.transfer w sector d).2.devicePointer = true ∧
    (AlteraSdCard.transfer w sector d).2.buffer = _
  rw [Powered] at hd
  simp [AlteraSdCard.transfer, h.slot, h.timesOut, hd]

theorem Stays.readSectorData (h : Stays w card) (sectorIndex partitionOffset : BitVec 32) :
    Ensures Powered (readSectorData w sectorIndex partitionOffset) fun moved d =>
      moved = true ∧ Powered d ∧
        d.buffer = card.sectorAt ((sectorIndex + partitionOffset) * 512) := by
  refine h.isPresent.bind fun present => .ite (fun _ => ?_) fun hpresent => ?_
  · exact (h.transfer _).mono (fun d hd => hd.2) fun _ _ hmoved => hmoved
  · exact .pure fun d hd => absurd hd.1 hpresent

theorem Stays.checkForDosFat (h : Stays w card) (start : BitVec 32) :
    Ensures Powered (checkForDosFat w start) (Examined card start) := by
  have hsector : (0 : BitVec 32) + start = start := BitVec.zero_add start
  refine (h.readSectorData 0 start).bind fun moved => .get_bind fun d hd => ?_
  obtain ⟨rfl, -, hbuffer⟩ := hd
  rw [hsector] at hbuffer
  rw [hbuffer, Bool.and_true]
  refine .ite (fun hsignature => ?_) fun hsignature => ?_
  · apply Ensures.modify_bind
    rintro d rfl
    apply Ensures.pure
    rintro d rfl
    exact ⟨hsignature.symm, fun _ => congrArg bootSectorOf hbuffer⟩
  · refine .pure fun d hd => ⟨(Bool.eq_false_iff.mpr hsignature).symm, fun h => ?_⟩
    exact absurd h Bool.false_ne_true

theorem Stays.checkForMasterBootRecord (h : Stays w card) :
    Ensures Powered (checkForMasterBootRecord w) fun found d =>
      Powered d ∧ masterBootRecord card = if found then some d.fatPartitionOffset else none := by
  refine (h.readSectorData 0 0).bind fun moved => .ite (fun _ => ?_) fun hmoved => ?_
  · refine .get_bind fun d hd => ?_
    obtain ⟨-, hpowered, hbuffer⟩ := hd
    have hsector : ((0 : BitVec 32) + 0) * 512 = 0 := by decide
    rw [hsector] at hbuffer
    rw [hbuffer]
    refine .ite (fun hsignature => ?_) fun hsignature => ?_
    · rw [masterBootRecord, if_pos hsignature]
      cases fatPartition (card.sectorAt 0) with
      | none =>
          apply Ensures.pure
          rintro d rfl
          exact ⟨hpowered, rfl⟩
      | some offset =>
          apply Ensures.modify_bind
          rintro d rfl
          apply Ensures.pure
          rintro d rfl
          exact ⟨hpowered, rfl⟩
    · rw [masterBootRecord, if_neg hsignature]
      apply Ensures.pure
      rintro d rfl
      exact ⟨hpowered, rfl⟩
  · exact .pure fun d hd => absurd hd.1 hmoved

theorem fileSystemStart_eq (card : Card) :
    card.fileSystemStart =
      if card.csd &&& 0x8000 = 0 then
        if card.csd &&& 0x0c00 = 0x0400 then some 0
        else if card.csd &&& 0x0c00 = 0x0000 then masterBootRecord card
        else none
      else none := by
  rw [Card.fileSystemStart, masterBootRecord]
  split_ifs <;> simp_all

theorem Stays.checkForFileSystem (h : Stays w card) (haccepted : card.csd &&& 0x8000 = 0) :
    Ensures Powered (checkForFileSystem w card.csd) fun found d =>
      (found && d.bootSectorData.bitsForClusterIndex == 16) = card.isFormatedAsFat16 := by
  have hexamined : ∀ {start found d}, card.fileSystemStart = some start →
      Examined card start found d →
      (found && d.bootSectorData.bitsForClusterIndex == 16) = card.isFormatedAsFat16 := by
    intro start found d hstart hd
    obtain ⟨hfound, hboot⟩ := hd
    rw [Card.isFormatedAsFat16, hstart, Option.any_some, ← hfound]
    cases found with
    | true => rw [hboot rfl]
    | false => rfl
  have hnone : ∀ {d : Driver}, card.fileSystemStart = none →
      (false && d.bootSectorData.bitsForClusterIndex == 16) = card.isFormatedAsFat16 := by
    intro d hstart
    rw [Card.isFormatedAsFat16, hstart]
    rfl
  have hstart := fileSystemStart_eq card
  rw [if_pos haccepted] at hstart
  refine .ite (fun hfirst => ?_) fun hfirst => .ite (fun hrecord => ?_) fun hrecord => ?_
  · rw [if_pos hfirst] at hstart
    exact (h.checkForDosFat 0).mono (fun _ => id) fun _ _ => hexamined hstart
  · rw [if_neg hfirst, if_pos hrecord] at hstart
    refine h.checkForMasterBootRecord.bind fun found => .ite (fun hfound => ?_) fun hfound => ?_
    · subst hfound
      refine .get_bind fun d hd => ?_
      obtain ⟨hpowered, hpartition⟩ := hd
      refine (h.checkForDosFat d.fatPartitionOffset).mono ?_ fun _ _ =>
        hexamined (hstart.trans hpartition)
      rintro d rfl
      exact hpowered
    · exact .pure fun d hd => hnone (hstart.trans (by rw [hd.2, if_neg hfound]))
  · rw [if_neg hfirst, if_neg hrecord] at hstart
    exact .pure fun _ _ => hnone hstart

theorem Stays.lookForFat16 (h : Stays w card) :
    Ensures Powered (lookForFat16 w) fun result _ => result = card.isFormatedAsFat16 := by
  refine h.isPresent.bind fun present => .ite (fun _ => .get_bind fun d hd => ?_) fun hpresent => ?_
  · have hcsd : csdFileFormat w d = card.csd := by rw [csdFileFormat, h.slot]
    rw [hcsd]
    apply Ensures.modify_bind
    rintro d rfl
    refine .ite (fun haccepted => ?_) fun hrejected => ?_
    · refine ((h.checkForFileSystem haccepted.1).mono ?_ fun _ _ => id).bind fun found =>
        .get_bind fun d hd => .pure ?_
      · rintro d rfl
        exact hd.2
      · rintro d rfl
        exact hd
    · refine .pure fun d _ => ?_
      rw [Card.isFormatedAsFat16, fileSystemStart_eq]
      split_ifs <;> simp_all
  · exact .pure fun d hd => absurd hd.1 hpresent

structure Unexamined (d : Driver) : Prop where
  powered : Powered d
  initialized : d.initialized = false

theorem Stays.isPresent_unexamined (h : Stays w card) :
    Ensures Unexamined (AlteraSdCard.isPresent w) fun present d =>
      present = true ∧ Unexamined d := by
  intro d hd
  rw [h.look hd.powered]
  exact ⟨rfl, hd.powered, hd.initialized⟩

theorem Stays.recognise (h : Stays w card) :
    Ensures Unexamined (recognise w) fun _ d =>
      d.isSdCardFormatedAsFat16 = card.isFormatedAsFat16 := by
  refine .get_bind fun d hd => .ite (fun _ => ?_) fun hexamined => ?_
  · refine (h.lookForFat16.mono ?_ fun _ _ => id).bind fun result => ?_
    · rintro d rfl
      exact hd.powered
    · intro d hresult
      exact hresult
  · exact absurd hd.initialized hexamined

theorem Stays.isFat16 (h : Stays w card) :
    Ensures Unexamined (isFat16 w) fun _ d =>
      d.isSdCardFormatedAsFat16 = card.isFormatedAsFat16 := by
  refine h.isPresent_unexamined.bind fun present => .ite (fun _ => ?_) fun hpresent => ?_
  · refine (h.recognise.mono (fun _ hd => hd.2) fun _ _ => id).bind fun _ => ?_
    refine .get_bind fun d hd => .pure ?_
    rintro d rfl
    exact hd
  · intro d hd
    exact absurd hd.1 hpresent

theorem Stays.startUp_isSdCardFormatedAsFat16 (h : Stays w card) :
    (startUp w).isSdCardFormatedAsFat16 = card.isFormatedAsFat16 := by
  have hcheck : Ensures Unexamined (checkIfSdCardIsPresent w false) fun _ d =>
      d.isSdCardFormatedAsFat16 = card.isFormatedAsFat16 := by
    refine h.isPresent_unexamined.bind fun present => .ite (fun _ => ?_) fun hpresent => ?_
    · exact (h.isFat16.mono (fun _ hd => hd.2) fun _ _ => id).bind fun _ => .pure fun _ => id
    · intro d hd
      exact absurd hd.1 hpresent
  exact hcheck (openDev atPowerUp) ⟨rfl, rfl⟩

/-- At every opening of a file in every session, the flag tells whether the card
that stays is a FAT16 card. -/
theorem Stays.driverAtOpen_isSdCardFormatedAsFat16 {K : Type*} [Field K] [LinearOrder K]
    (h : Stays w card) (strtof : List UInt8 → K) (sqrt : K → K) (l : Locals K)
    (recordings : List (Recording K)) (word : Word) :
    (driverAtOpen w strtof (session w strtof sqrt l recordings) word).isSdCardFormatedAsFat16 =
      card.isFormatedAsFat16 := by
  have hrun := trans_of (TracksSlot w) (tracksSlot_session w strtof sqrt l recordings)
    (tracksSlot_driverAtOpen w strtof _ word)
  have hfound : FoundBetween w (startUp w).looks
      (driverAtOpen w strtof (session w strtof sqrt l recordings) word).looks := by
    intro n _ _
    rw [h.slot]
    rfl
  rw [Bool.eq_iff_iff, hrun.flag (opened_startUp w), and_iff_left hfound,
    h.startUp_isSdCardFormatedAsFat16]

end RockPaperScissors.SdCardRecognition
