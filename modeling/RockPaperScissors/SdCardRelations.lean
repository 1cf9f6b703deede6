import RockPaperScissors.AlteraSdCard
import RockPaperScissors.Library.StateProgram

namespace RockPaperScissors.SdCardRelations

open RockPaperScissors.Library.StateProgram
open RockPaperScissors.ReferenceFile
open RockPaperScissors.AlteraSdCard

/-- The relation holds of all that the functions are made of, apart from the
recognition of a card and from changes of `in_use`. -/
structure Elementary (w : World) (R : Driver → Driver → Prop) : Prop where
  look : Along R (isPresent w)
  transfer : ∀ sector, Along R (transfer w sector)
  setFile : ∀ index f, (∀ r : FileRecord, (f r).inUse = r.inUse) →
    ∀ d, R d (setFile index f d)
  setSearch : ∀ (f : FindData → FindData) d, R d { d with searchData := f d.searchData }

theorem along_setFile {w : World} {R : Driver → Driver → Prop} (h : Elementary w R)
    {index : Nat} {f : FileRecord → FileRecord} (hf : ∀ r, (f r).inUse = r.inUse) :
    Along R (modify (setFile index f) : StateM Driver PUnit) :=
  .modify (h.setFile index f hf)

section Functions

variable {w : World} {R : Driver → Driver → Prop} [IsPreorder Driver R]

theorem along_look_and_flag (h : Elementary w R) {α : Type} {m n : StateM Driver α}
    (hm : Along R m) (hn : Along R n) :
    Along R (do
      if (← isPresent w) && (← get).isSdCardFormatedAsFat16 then m else n) := by
  refine h.look.bind fun present => Along.get.bind fun d => ?_
  exact .ite (fun _ => hm) fun _ => hn

theorem along_readSectorData (h : Elementary w R) (sectorIndex partitionOffset : BitVec 32) :
    Along R (readSectorData w sectorIndex partitionOffset) := by
  refine h.look.bind fun present => ?_
  exact .ite (fun _ => h.transfer _) fun _ => .pure _

theorem along_fetchSector (h : Elementary w R) (sectorIndex partitionOffset : BitVec 32) :
    Along R (fetchSector w sectorIndex partitionOffset) := by
  refine Along.get.bind fun d => ?_
  exact .ite (fun _ => along_readSectorData h _ _) fun _ => .pure _

theorem along_getClusterFlag (h : Elementary w R) (clusterIndex : BitVec 32) :
    Along R (getClusterFlag w clusterIndex) := by
  refine Along.get.bind fun d => (along_fetchSector h _ _).bind fun found => ?_
  exact .ite (fun _ => Along.get.bind fun _ => .pure _) fun _ => .pure _

theorem along_readFileRecordAtOffset (h : Elementary w R) (offset sectorInCluster : Nat) :
    Along R (readFileRecordAtOffset w offset sectorInCluster) := by
  refine .ite (fun _ => ?_) fun _ => .pure _
  exact along_look_and_flag h (Along.get.bind fun d => .pure _) (.pure _)

theorem along_readRootDirSector (h : Elementary w R) (sectorIndex : Nat) :
    Along R (readRootDirSector w sectorIndex) :=
  Along.get.bind fun _ => along_readSectorData h _ _

theorem along_storeEntry (h : Elementary w R) (index : Nat) (found : Option DirectoryEntry) :
    Along R (modify (storeEntry index found) : StateM Driver PUnit) := by
  refine .modify fun d => ?_
  cases found with
  | none => exact refl_of R d
  | some entry =>
      rw [storeEntry]
      exact h.setFile index _ (by simp) d

theorem along_findRecord (h : Elementary w R) (index sectorIndex : Nat)
    (name extension : Nat → BitVec 8) (n fileCounter : Nat) :
    Along R (findRecord w index sectorIndex name extension n fileCounter) := by
  induction n generalizing fileCounter with
  | zero => exact .pure _
  | succ n ih =>
      refine (along_readFileRecordAtOffset h _ _).bind fun found => ?_
      refine (along_storeEntry h index found).bind fun _ => Along.get.bind fun d => ?_
      exact .ite (fun _ => .pure _) fun _ => ih _

theorem along_findInSectors (h : Elementary w R) (index : Nat)
    (name extension : Nat → BitVec 8) (n sectorIndex : Nat) :
    Along R (findInSectors w index name extension n sectorIndex) := by
  induction n generalizing sectorIndex with
  | zero => exact .pure _
  | succ n ih =>
      refine (along_readRootDirSector h sectorIndex).bind fun found => ?_
      refine .ite (fun _ => ?_) fun _ => .pure _
      refine (along_findRecord h index sectorIndex name extension 16 0).bind fun matched => ?_
      exact .ite (fun _ => .pure _) fun _ => ih _

theorem along_findFileInDirectory (h : Elementary w R) (fileName : List (BitVec 8))
    (index : Nat) : Along R (findFileInDirectory w fileName index) :=
  Along.get.bind fun _ => along_findInSectors h index _ _ _ _

theorem along_readByte (h : Elementary w R) (index : Nat) (dataSector : BitVec 32) :
    Along R (readByte w index dataSector) := by
  refine Along.get.bind fun d => (along_fetchSector h _ _).bind fun found => ?_
  refine .ite (fun _ => Along.get.bind fun d => ?_) fun _ => .pure _
  refine (along_setFile h ?_).bind fun _ => .pure _
  intro r
  rfl

theorem along_read (h : Elementary w R) (fileHandle : Int) : Along R (read w fileHandle) := by
  refine Along.get.bind fun d => .ite (fun _ => ?_) fun _ => .pure _
  refine .ite (fun _ => ?_) fun _ => along_readByte h _ _
  refine .ite (fun _ => ?_) fun _ => ?_
  · refine (along_getClusterFlag h _).bind fun flag => ?_
    cases flag with
    | none => exact .pure _
    | some nextCluster =>
        refine .ite (fun _ => .pure _) fun _ => ?_
        refine (along_setFile h ?_).bind fun _ =>
          Along.get.bind fun d => along_readByte h _ _
        intro r
        rfl
  · refine (along_setFile h ?_).bind fun _ => along_readByte h _ _
    intro r
    rfl

theorem along_fopen (h : Elementary w R)
    (hopen : ∀ index d, R d (setFile index openFile d)) (name : String) :
    Along R (fopen w name) := by
  refine along_look_and_flag h (.ite (fun _ => ?_) fun _ => .pure _) (.pure _)
  refine Along.get.bind fun d => ?_
  split
  · next index _ =>
      refine (along_findFileInDirectory h _ index).bind fun found => ?_
      refine .ite (fun _ => ?_) fun _ => .pure _
      exact (Along.modify (hopen index)).bind fun _ => Along.get.bind fun _ => .pure _
  · exact .pure _

theorem along_fclose (h : Elementary w R)
    (hclose : ∀ index d, R d (setFile index (fun r => { r with inUse := false }) d))
    (fileHandle : Int) : Along R (fclose w fileHandle) := by
  refine along_look_and_flag h (Along.get.bind fun d => ?_) (.pure _)
  refine .ite (fun _ => ?_) fun _ => .pure _
  exact (Along.modify (hclose _)).bind fun _ => .pure _

theorem along_nextRecord (h : Elementary w R) (sectorIndex n fileCounter : Nat) :
    Along R (nextRecord w sectorIndex n fileCounter) := by
  induction n generalizing fileCounter with
  | zero => exact .pure _
  | succ n ih =>
      refine (along_readFileRecordAtOffset h _ _).bind fun found => ?_
      cases found with
      | none => exact ih _
      | some entry => exact .ite (fun _ => .pure _) fun _ => ih _

theorem along_nextInSectors (h : Elementary w R) (n sectorIndex fileCounter : Nat) :
    Along R (nextInSectors w n sectorIndex fileCounter) := by
  induction n generalizing sectorIndex fileCounter with
  | zero => exact .pure _
  | succ n ih =>
      refine (along_readRootDirSector h sectorIndex).bind fun found => ?_
      refine .ite (fun _ => ?_) fun _ => .pure _
      refine (along_nextRecord h sectorIndex _ fileCounter).bind fun record => ?_
      cases record with
      | none => exact ih _ _
      | some found =>
          refine (Along.modify fun d => ?_).bind fun _ => .pure _
          exact h.setSearch (fun data => { data with
            currentSectorInCluster := sectorIndex, fileIndexInSector := found }) d

theorem along_findNext (h : Elementary w R) : Along R (findNext w) := by
  refine along_look_and_flag h (Along.get.bind fun d => ?_) (.pure _)
  exact .ite (fun _ => along_nextInSectors h _ _ _) fun _ => .pure _

theorem along_findFirst (h : Elementary w R) : Along R (findFirst w) := by
  refine along_look_and_flag h ?_ (.pure _)
  exact (Along.modify (h.setSearch fun _ => _)).bind fun _ => along_findNext h

end Functions

section Recognition

variable {w : World} {R : Driver → Driver → Prop} [IsPreorder Driver R]

/-- The relation holds of the assignments the recognition of a card makes. -/
structure Recognising (R : Driver → Driver → Prop) : Prop where
  setPartition : ∀ offset d, R d { d with fatPartitionOffset := offset }
  setBootSector : ∀ d,
    R d (clearActiveFiles { d with bootSectorData := bootSectorOf d.buffer })
  setFlags : ∀ result d, R d { d with isSdCardFormatedAsFat16 := result, initialized := result }

theorem along_checkForDosFat (h : Elementary w R) (hset : Recognising R)
    (start : BitVec 32) : Along R (checkForDosFat w start) := by
  refine (along_readSectorData h 0 start).bind fun result => Along.get.bind fun d => ?_
  refine .ite (fun _ => ?_) fun _ => .pure _
  exact (Along.modify hset.setBootSector).bind fun _ => .pure _

theorem along_checkForMasterBootRecord (h : Elementary w R) (hset : Recognising R) :
    Along R (checkForMasterBootRecord w) := by
  refine (along_readSectorData h 0 0).bind fun found => .ite (fun _ => ?_) fun _ => .pure _
  refine Along.get.bind fun d => .ite (fun _ => ?_) fun _ => .pure _
  split
  · exact (Along.modify (hset.setPartition _)).bind fun _ => .pure _
  · exact .pure _

theorem along_lookForFat16 (h : Elementary w R) (hset : Recognising R) :
    Along R (lookForFat16 w) := by
  refine h.look.bind fun present => .ite (fun _ => ?_) fun _ => .pure _
  refine Along.get.bind fun d => (Along.modify (hset.setPartition 0)).bind fun _ => ?_
  refine .ite (fun _ => ?_) fun _ => .pure _
  refine Along.bind ?_ fun result => Along.get.bind fun _ => .pure _
  refine .ite (fun _ => along_checkForDosFat h hset 0) fun _ => .ite (fun _ => ?_)
    fun _ => .pure _
  refine (along_checkForMasterBootRecord h hset).bind fun found => ?_
  exact .ite (fun _ => Along.get.bind fun d => along_checkForDosFat h hset _) fun _ => .pure _

theorem along_recognise (h : Elementary w R) (hset : Recognising R) :
    Along R (recognise w) := by
  refine Along.get.bind fun d => .ite (fun _ => ?_) fun _ => .pure _
  refine (along_lookForFat16 h hset).bind fun result => .modify fun d => ?_
  exact trans_of R (hset.setFlags result d)
    (h.setSearch (fun data => { data with valid := false }) _)

theorem along_isFat16 (h : Elementary w R) (hset : Recognising R) : Along R (isFat16 w) := by
  refine h.look.bind fun present => .ite (fun _ => ?_) fun _ => ?_
  · exact (along_recognise h hset).bind fun _ => Along.get.bind fun _ => .pure _
  · exact (Along.modify (hset.setFlags false)).bind fun _ => .pure _

end Recognition

end RockPaperScissors.SdCardRelations
