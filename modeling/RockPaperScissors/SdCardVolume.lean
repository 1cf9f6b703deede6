import RockPaperScissors.SdCardRecognition

namespace RockPaperScissors.SdCardVolume

open RockPaperScissors.AlteraSdCard
open RockPaperScissors.Library.StateProgram
open RockPaperScissors.ReferenceFile
open RockPaperScissors.SdCardRecognition
open RockPaperScissors.SdCardSession

section Volume

/-- A card with the numbers that its file system was recognised with. -/
structure Volume where
  card : Card
  boot : BootSector
  start : BitVec 32

def Volume.sector (v : Volume) (index : BitVec 32) : Sector :=
  v.card.sectorAt (index * 512)

def Volume.clusterFlag (v : Volume) (cluster : BitVec 32) : BitVec 16 :=
  halfWordAt (v.sector (cluster / 256 + v.start + v.boot.firstFatSectorOffset))
    (2 * (cluster.toNat % 256))

def Volume.chain (v : Volume) (first : BitVec 16) : Nat → BitVec 32
  | 0 => first.setWidth 32
  | i + 1 => (v.clusterFlag (v.chain first i)).setWidth 32

def Volume.Linked (v : Volume) (first : BitVec 16) (i : Nat) : Prop :=
  ∀ j, j < i → v.clusterFlag (v.chain first j) &&& 0xfff8 ≠ 0xfff8

instance (v : Volume) (first : BitVec 16) (i : Nat) : Decidable (v.Linked first i) :=
  inferInstanceAs (Decidable (∀ j, j < i → _))

def Volume.clusterSize (v : Volume) : Nat := v.boot.sectorsPerCluster.toNat

def Volume.dataSector (v : Volume) (first : BitVec 16) (s : Nat) : BitVec 32 :=
  v.boot.dataSectorOffset +
    (v.chain first (s / v.clusterSize) - 2) * v.boot.sectorsPerCluster.setWidth 32 +
    BitVec.ofNat 32 (s % v.clusterSize)

/-- The byte at a position of a file, unless the file or its chain of clusters ends
before. -/
def Volume.fileByte (v : Volume) (entry : DirectoryEntry) (p : Nat) : Option (BitVec 8) :=
  if p < entry.fileSizeInBytes.toNat ∧ v.Linked entry.startClusterIndex (p / 512 / v.clusterSize)
  then some (v.sector (v.dataSector entry.startClusterIndex (p / 512) + v.start) (p % 512))
  else none

theorem Volume.Linked.of_le {v : Volume} {first : BitVec 16} {i j : Nat} (h : v.Linked first i)
    (hle : j ≤ i) : v.Linked first j :=
  fun k hk => h k (hk.trans_le hle)

/-- What can be read of a file is a prefix of it. -/
theorem Volume.fileByte_isSome_of_le {v : Volume} {entry : DirectoryEntry} {p q : Nat}
    (h : (v.fileByte entry p).isSome) (hle : q ≤ p) : (v.fileByte entry q).isSome := by
  by_cases hp : p < entry.fileSizeInBytes.toNat ∧
      v.Linked entry.startClusterIndex (p / 512 / v.clusterSize)
  · have hq : q / 512 / v.clusterSize ≤ p / 512 / v.clusterSize :=
      Nat.div_le_div_right (Nat.div_le_div_right hle)
    rw [Volume.fileByte, if_pos ⟨hle.trans_lt hp.1, hp.2.of_le hq⟩]
    rfl
  · rw [Volume.fileByte, if_neg hp] at h
    exact absurd h (by decide)

end Volume

section Transfers

/-- The driver knows the volume, and its buffer memory holds the sector that it
takes it to hold. -/
structure Mounted (v : Volume) (d : Driver) : Prop where
  devicePointer : d.devicePointer = true
  boot : d.bootSectorData = v.boot
  start : d.fatPartitionOffset = v.start
  buffer : d.buffer = v.sector d.currentSectorIndex

def Looked (d d' : Driver) : Prop := ∃ n, d' = { d with looks := n }

/-- Nothing but the count of the looks and the buffer memory has changed, which
holds the sector `index`. -/
def Loaded (v : Volume) (index : BitVec 32) (d d' : Driver) : Prop :=
  ∃ n, d' = { d with
    looks := n
    buffer := v.sector index
    currentSectorIndex := index }

variable {w : World} {v : Volume} {d d' : Driver}

theorem Mounted.of_looked (h : Mounted v d) (hlooked : Looked d d') : Mounted v d' := by
  obtain ⟨n, rfl⟩ := hlooked
  exact ⟨h.devicePointer, h.boot, h.start, h.buffer⟩

theorem Mounted.of_loaded (h : Mounted v d) {index : BitVec 32} (hloaded : Loaded v index d d') :
    Mounted v d' := by
  obtain ⟨n, rfl⟩ := hloaded
  exact ⟨h.devicePointer, h.boot, h.start, rfl⟩

theorem Mounted.setFile (h : Mounted v d) (index : Nat) (f : FileRecord → FileRecord) :
    Mounted v (setFile index f d) :=
  ⟨h.devicePointer, h.boot, h.start, h.buffer⟩

theorem Looked.refl (d : Driver) : Looked d d := ⟨d.looks, rfl⟩

theorem isPresent_steady (hw : Stays w v.card) (hd : Powered d) :
    Ensures (fun t => t = d) (isPresent w) fun present t => present = true ∧ Looked d t := by
  rintro d rfl
  rw [hw.look hd]
  exact ⟨rfl, d.looks + 1, rfl⟩

theorem transfer_steady (hw : Stays w v.card) (index : BitVec 32) :
    Ensures (fun t => Looked d t) (transfer w index) fun done t =>
      done = true ∧ Loaded v index d t := by
  rintro _ ⟨n, rfl⟩
  have hrun : (transfer w index).run { d with looks := n } = (true, { d with
      looks := n
      buffer := v.sector index
      currentSectorIndex := index }) := by
    change transfer w index { d with looks := n } = _
    simp only [transfer, hw.slot, hw.timesOut]
    rfl
  rw [hrun]
  exact ⟨rfl, n, rfl⟩

theorem readSectorData_steady (hw : Stays w v.card) (hd : Powered d)
    (sectorIndex partitionOffset : BitVec 32) :
    Ensures (fun t => t = d) (readSectorData w sectorIndex partitionOffset) fun done t =>
      done = true ∧ Loaded v (sectorIndex + partitionOffset) d t := by
  refine (isPresent_steady hw hd).bind fun present => .of_eq ?_
  rintro t ⟨rfl, hlooked⟩
  exact (transfer_steady hw _).mono (fun _ ht => ht ▸ hlooked) fun _ _ h => h

theorem fetchSector_steady (hw : Stays w v.card) (hd : Mounted v d)
    (sectorIndex partitionOffset : BitVec 32) :
    Ensures (fun t => t = d) (fetchSector w sectorIndex partitionOffset) fun done t =>
      done = true ∧ Loaded v (sectorIndex + partitionOffset) d t := by
  refine .get_bind ?_
  rintro d rfl
  refine .ite (fun _ => readSectorData_steady hw hd.devicePointer _ _) fun hcached => .pure ?_
  rintro d rfl
  refine ⟨rfl, d.looks, ?_⟩
  rw [not_not.mp hcached, ← hd.buffer]

theorem getClusterFlag_steady (hw : Stays w v.card) (hd : Mounted v d) (cluster : BitVec 32) :
    Ensures (fun t => t = d) (getClusterFlag w cluster) fun flag t =>
      flag = some (v.clusterFlag cluster) ∧ ∃ index, Loaded v index d t := by
  refine .get_bind ?_
  rintro d rfl
  refine (fetchSector_steady hw hd _ _).bind fun done => .of_eq ?_
  rintro t ⟨rfl, hloaded⟩
  refine .get_bind ?_
  rintro t rfl
  refine .pure ?_
  rintro t rfl
  refine ⟨?_, _, hloaded⟩
  obtain ⟨n, rfl⟩ := hloaded
  have hzero : ∀ x : BitVec 32, x + 0 = x := fun x => BitVec.add_zero x
  rw [Volume.clusterFlag, ← hd.start, ← hd.boot, hzero]

end Transfers

section Recognition

def volumeOf (card : Card) : Volume :=
  let start := card.fileSystemStart.getD 0
  { card := card
    boot := bootSectorOf (card.sectorAt (start * 512))
    start := start }

variable {w : World} {card : Card} {d : Driver}

/-- The sector `start` has been taken for the boot sector if `found` says so. -/
structure Booted (card : Card) (start : BitVec 32) (found : Bool) (d : Driver) : Prop where
  powered : Powered d
  buffer : d.buffer = card.sectorAt (d.currentSectorIndex * 512)
  partition : d.fatPartitionOffset = start
  boot : found = true → d.bootSectorData = bootSectorOf (card.sectorAt (start * 512))

theorem Booted.mounted {start : BitVec 32} (h : Booted card start true d)
    (hstart : card.fileSystemStart = some start) : Mounted (volumeOf card) d where
  devicePointer := h.powered
  boot := by
    rw [h.boot rfl, volumeOf, hstart]
    rfl
  start := by
    rw [h.partition, volumeOf, hstart]
    rfl
  buffer := h.buffer

theorem checkForDosFat_steady (hw : Stays w card) (hd : Powered d) :
    Ensures (fun t => t = d) (checkForDosFat w d.fatPartitionOffset)
      (Booted card d.fatPartitionOffset) := by
  have hsector : (0 : BitVec 32) + d.fatPartitionOffset = d.fatPartitionOffset :=
    BitVec.zero_add _
  refine (readSectorData_steady (v := volumeOf card) hw hd _ _).bind fun done => .get_bind ?_
  rintro t ⟨rfl, n, rfl⟩
  rw [hsector]
  refine .ite (fun _ => .modify_bind fun t ht => .pure ?_) fun _ => .pure ?_
  · rintro t rfl
    rw [ht]
    exact ⟨hd, rfl, rfl, fun _ => rfl⟩
  · rintro t rfl
    exact ⟨hd, rfl, rfl, fun h => absurd h Bool.false_ne_true⟩

theorem checkForMasterBootRecord_steady (hw : Stays w card) (hd : Powered d) :
    Ensures (fun t => t = d) (checkForMasterBootRecord w) fun found t =>
      Powered t ∧ (found = true → masterBootRecord card = some t.fatPartitionOffset) := by
  refine hw.checkForMasterBootRecord.mono ?_ ?_
  · rintro t rfl
    exact hd
  · rintro found t ⟨hpowered, hrecord⟩
    exact ⟨hpowered, fun hfound => hrecord.trans (if_pos hfound)⟩

theorem checkForFileSystem_steady (hw : Stays w card) (haccepted : card.csd &&& 0x8000 = 0)
    (hd : Powered d) (hoffset : d.fatPartitionOffset = 0) :
    Ensures (fun t => t = d) (checkForFileSystem w card.csd) fun found t =>
      found = true → Mounted (volumeOf card) t := by
  have hstart := fileSystemStart_eq card
  rw [if_pos haccepted] at hstart
  refine .ite (fun hfirst => ?_) fun hfirst => .ite (fun hrecord => ?_) fun _ => ?_
  · rw [if_pos hfirst, ← hoffset] at hstart
    rw [← hoffset]
    refine (checkForDosFat_steady hw hd).mono (fun _ => id) ?_
    rintro _ t hbooted rfl
    exact hbooted.mounted hstart
  · rw [if_neg hfirst, if_pos hrecord] at hstart
    refine (checkForMasterBootRecord_steady hw hd).bind fun found => ?_
    refine .ite (fun hfound => .get_bind ?_) fun _ => .pure fun _ _ h => absurd h Bool.false_ne_true
    rintro t ⟨hpowered, hpartition⟩
    refine (checkForDosFat_steady hw hpowered).mono (fun _ => id) ?_
    rintro _ t' hbooted rfl
    exact hbooted.mounted (hstart.trans (hpartition hfound))
  · exact .pure fun _ _ h => absurd h Bool.false_ne_true

theorem lookForFat16_steady (hw : Stays w card) (hd : Powered d) :
    Ensures (fun t => t = d) (lookForFat16 w) fun result t =>
      result = true → Mounted (volumeOf card) t := by
  refine (isPresent_steady (v := volumeOf card) hw hd).bind fun present => ?_
  refine .ite (fun _ => .get_bind ?_) fun _ => .pure fun _ _ h => absurd h Bool.false_ne_true
  rintro t ⟨-, n, rfl⟩
  have hcsd : csdFileFormat w { d with looks := n } = card.csd := by rw [csdFileFormat, hw.slot]
  rw [hcsd]
  apply Ensures.modify_bind
  rintro _ rfl
  refine .ite (fun haccepted => ?_) fun _ => .pure fun _ _ h => absurd h Bool.false_ne_true
  have hsystem := checkForFileSystem_steady (d := { d with looks := n, fatPartitionOffset := 0 })
    hw haccepted.1 hd rfl
  refine hsystem.bind fun found => .get_bind fun t' ht' => .pure ?_
  rintro t'' rfl hfound
  exact ht' (Bool.and_eq_true_iff.mp hfound).1

/-- The check at start-up leaves a FAT16 card mounted. -/
theorem mounted_startUp (hw : Stays w card) (hcard : card.isFormatedAsFat16 = true) :
    Mounted (volumeOf card) (startUp w) := by
  have hcheck : Ensures Unexamined (checkIfSdCardIsPresent w false) fun _ t =>
      t.isSdCardFormatedAsFat16 = true → Mounted (volumeOf card) t := by
    refine hw.isPresent_unexamined.bind fun present => .ite (fun _ => ?_) fun hpresent => ?_
    · refine Ensures.bind (Q := fun _ t =>
        t.isSdCardFormatedAsFat16 = true → Mounted (volumeOf card) t) ?_ fun _ => .pure fun _ => id
      refine (hw.isPresent_unexamined.mono (fun _ h => h.2) fun _ _ => id).bind fun present => ?_
      refine .ite (fun _ => ?_) fun hpresent => fun d hd => absurd hd.1 hpresent
      refine Ensures.bind (Q := fun _ t =>
        t.isSdCardFormatedAsFat16 = true → Mounted (volumeOf card) t) ?_ fun _ =>
        .get_bind fun t ht => .pure fun t' ht' => ht' ▸ ht
      refine .get_bind fun d hd => .ite (fun _ => ?_) fun hknown =>
        absurd hd.2.initialized hknown
      refine (lookForFat16_steady hw hd.2.powered).bind fun result => ?_
      intro t ht hresult
      have hmounted := ht hresult
      exact ⟨hmounted.devicePointer, hmounted.boot, hmounted.start, hmounted.buffer⟩
    · intro d hd
      exact absurd hd.1 hpresent
  refine hcheck (openDev atPowerUp) ⟨rfl, rfl⟩ ?_
  exact hw.startUp_isSdCardFormatedAsFat16.trans hcard

end Recognition

section RockCard

def sectorFrom (bytes : List (Nat × BitVec 8)) : Sector :=
  fun offset => (bytes.lookup offset).getD 0

/-- A card with one file: `ROCK.TXT`, which holds the four bytes `1,2,`. -/
def rockCard : Card where
  csd := 0x0400
  sectorAt address :=
    if address = 0 then
      sectorFrom [(12, 0x02), (13, 0x01), (14, 0x01), (17, 0x10), (20, 0x20), (22, 0x01),
        (0x1fe, 0x55), (0x1ff, 0xaa)]
    else if address = 0x200 then fun _ => 0xff
    else if address = 0x600 then
      sectorFrom [(0, 0x52), (1, 0x4f), (2, 0x43), (3, 0x4b), (4, 0x20), (5, 0x20), (6, 0x20),
        (7, 0x20), (8, 0x54), (9, 0x58), (10, 0x54), (26, 0x02), (28, 0x04)]
    else sectorFrom [(0, 0x31), (1, 0x2c), (2, 0x32), (3, 0x2c)]

def rockWorld : World where
  slot _ := some rockCard
  timesOut _ := false

theorem stays_rockWorld : Stays rockWorld rockCard := ⟨fun _ => rfl, fun _ => rfl⟩

theorem mountable_rockCard : rockCard.Mountable := by
  refine ⟨by decide, fun start hstart => ?_⟩
  obtain rfl : 0 = start := Option.some.inj hstart
  decide

end RockCard

end RockPaperScissors.SdCardVolume
