import RockPaperScissors.ReferenceFile

/-!
The driver of the SD card slot, as far as `main` uses it: files of the root
directory are listed, opened and read.  The branches for subdirectories and for
created or modified files are left out.
-/

namespace RockPaperScissors.AlteraSdCard

open RockPaperScissors.ReferenceFile

/-- 512 bytes of a card, or of the buffer memory. -/
abbrev Sector := Nat → BitVec 8

/-- What the driver can find out about a card: the first word of its CSD
register and the sector at each address. -/
structure Card where
  csd : BitVec 16
  sectorAt : BitVec 32 → Sector

/-- The card in the slot at each look the driver takes at it, and the transfers
after such a look that time out. -/
structure World where
  slot : Nat → Option Card
  timesOut : Nat → Bool

def halfWordAt (buffer : Sector) (offset : Nat) : BitVec 16 :=
  buffer (offset + 1) ++ buffer offset

def wordAt (buffer : Sector) (offset : Nat) : BitVec 32 :=
  halfWordAt buffer (offset + 2) ++ halfWordAt buffer offset

structure BootSector where
  sectorSizeInBytes : BitVec 16
  sectorsPerCluster : BitVec 8
  maxNumberOfDirEntries : BitVec 16
  numberOfSectorsInPartition : BitVec 16
  totalSectorCountIfAbove32MB : BitVec 32
  bitsForClusterIndex : Nat
  firstFatSectorOffset : BitVec 32
  rootDirectorySectorOffset : BitVec 32
  dataSectorOffset : BitVec 32

/-- The part of a file record that is read from a directory. -/
structure DirectoryEntry where
  name : Nat → BitVec 8
  extension : Nat → BitVec 8
  startClusterIndex : BitVec 16
  fileSizeInBytes : BitVec 32
  fileRecordSectorInCluster : Nat
  fileRecordOffset : Nat

structure FileRecord where
  entry : DirectoryEntry
  currentClusterIndex : BitVec 32
  currentSectorInCluster : BitVec 32
  currentBytePosition : BitVec 32
  inUse : Bool

structure FindData where
  currentSectorInCluster : Nat
  fileIndexInSector : Int
  valid : Bool

def maxFilesOpened : Nat := 20

/-- The driver's variables and its buffer memory.  `looks` counts how often the
slot has been looked at. -/
structure Driver where
  looks : Nat
  devicePointer : Bool
  initialized : Bool
  isSdCardFormatedAsFat16 : Bool
  fatPartitionOffset : BitVec 32
  bootSectorData : BootSector
  buffer : Sector
  currentSectorIndex : BitVec 32
  activeFiles : Nat → FileRecord
  searchData : FindData

def setFile (index : Nat) (f : FileRecord → FileRecord) (d : Driver) : Driver :=
  { d with activeFiles := Function.update d.activeFiles index (f (d.activeFiles index)) }

def clearActiveFiles (d : Driver) : Driver :=
  { d with activeFiles := fun index =>
      if index < maxFilesOpened then { d.activeFiles index with inUse := false }
      else d.activeFiles index }

section Sectors

variable (w : World)

def isPresent : StateM Driver Bool := fun d =>
  let present := d.devicePointer && (w.slot d.looks).isSome
  let d := { d with looks := d.looks + 1 }
  if present then (true, d)
  else if d.initialized then
    (false, clearActiveFiles { d with
      initialized := false
      searchData := { d.searchData with valid := false }
      isSdCardFormatedAsFat16 := false })
  else (false, d)

/-- The transfer that follows a look at the slot. -/
def transfer (sector : BitVec 32) : StateM Driver Bool := fun d =>
  match w.slot (d.looks - 1) with
  | some card =>
      if w.timesOut (d.looks - 1) then (false, d)
      else (true, { d with
        buffer := card.sectorAt (sector * 512)
        currentSectorIndex := sector })
  | none => (false, d)

def readSectorData (sectorIndex partitionOffset : BitVec 32) : StateM Driver Bool := do
  if ← isPresent w then transfer w (sectorIndex + partitionOffset) else return false

def fetchSector (sectorIndex partitionOffset : BitVec 32) : StateM Driver Bool := do
  if sectorIndex + partitionOffset ≠ (← get).currentSectorIndex then
    readSectorData w sectorIndex partitionOffset
  else return true

def getClusterFlag (clusterIndex : BitVec 32) : StateM Driver (Option (BitVec 16)) := do
  let d ← get
  let sectorIndex :=
    clusterIndex / 256 + d.fatPartitionOffset + d.bootSectorData.firstFatSectorOffset
  if ← fetchSector w sectorIndex 0 then
    return some (halfWordAt (← get).buffer (2 * (clusterIndex.toNat % 256)))
  else return none

end Sectors

section Recognition

/-- The first valid FAT partition of a master boot record. -/
def fatPartition (buffer : Sector) : Option (BitVec 32) :=
  (List.range 4).findSome? fun index =>
    let partitionDataOffset := index * 16 + 0x01be
    let type := buffer (partitionDataOffset + 0x04)
    let size := wordAt buffer (partitionDataOffset + 0x0C)
    if (type = 1 ∨ type = 4 ∨ type = 6 ∨ type = 14) ∧ 0 < size.toInt then
      some (wordAt buffer (partitionDataOffset + 0x08))
    else none

def endsWithSignature (buffer : Sector) : Bool := halfWordAt buffer 0x1fe == 0xaa55

def numClusters (sectorsPerCluster : BitVec 8) (numberOfSectorsInPartition : BitVec 16)
    (totalSectorCountIfAbove32MB : BitVec 32) : Int :=
  if 0 < numberOfSectorsInPartition.toNat then
    (numberOfSectorsInPartition.toNat / sectorsPerCluster.toNat : Nat)
  else (totalSectorCountIfAbove32MB / sectorsPerCluster.setWidth 32).toInt

/-- The assignments to `boot_sector_data`, for a sector size that is not 0. Its low
byte is read as a signed `char`. -/
def bootSectorOf (buffer : Sector) : BootSector :=
  let sectorSizeInBytes := ((buffer 12).setWidth 16 <<< 8) ||| (buffer 11).signExtend 16
  let sectorsPerCluster := buffer 13
  let maxNumberOfDirEntries := halfWordAt buffer 17
  let numberOfSectorsInPartition := halfWordAt buffer 19
  let totalSectorCountIfAbove32MB := wordAt buffer 32
  let firstFatSectorOffset := (halfWordAt buffer 14).setWidth 32
  let numberOfSectorsPerTable := (halfWordAt buffer 22).setWidth 32
  let secondFatSectorOffset := firstFatSectorOffset + numberOfSectorsPerTable
  let rootDirectorySectorOffset := secondFatSectorOffset + numberOfSectorsPerTable
  let numClusters :=
    numClusters sectorsPerCluster numberOfSectorsInPartition totalSectorCountIfAbove32MB
  { sectorSizeInBytes := sectorSizeInBytes
    sectorsPerCluster := sectorsPerCluster
    maxNumberOfDirEntries := maxNumberOfDirEntries
    numberOfSectorsInPartition := numberOfSectorsInPartition
    totalSectorCountIfAbove32MB := totalSectorCountIfAbove32MB
    bitsForClusterIndex :=
      if numClusters < 4087 then 12 else if numClusters ≤ 65517 then 16 else 32
    firstFatSectorOffset := firstFatSectorOffset
    rootDirectorySectorOffset := rootDirectorySectorOffset
    dataSectorOffset := rootDirectorySectorOffset +
      BitVec.ofNat 32 (32 * maxNumberOfDirEntries.toNat / sectorSizeInBytes.toNat) }

variable (w : World)

def checkForMasterBootRecord : StateM Driver Bool := do
  if ← readSectorData w 0 0 then
    let d ← get
    if endsWithSignature d.buffer then
      match fatPartition d.buffer with
      | some offset =>
          modify fun d => { d with fatPartitionOffset := offset }
          return true
      | none => return false
    else return false
  else return false

def checkForDosFat (fatPartitionStartSector : BitVec 32) : StateM Driver Bool := do
  let result ← readSectorData w 0 fatPartitionStartSector
  if endsWithSignature (← get).buffer && result then
    modify fun d => clearActiveFiles { d with bootSectorData := bootSectorOf d.buffer }
    return true
  else return false

/-- The CSD register of the card that the last look has found. -/
def csdFileFormat (d : Driver) : BitVec 16 :=
  match w.slot (d.looks - 1) with
  | some card => card.csd
  | none => 0

def checkForFileSystem (csd : BitVec 16) : StateM Driver Bool := do
  if csd &&& 0x0c00 = 0x0400 then checkForDosFat w 0
  else if csd &&& 0x0c00 = 0x0000 then
    if ← checkForMasterBootRecord w then checkForDosFat w (← get).fatPartitionOffset
    else return false
  else return false

def lookForFat16 : StateM Driver Bool := do
  if ← isPresent w then
    let csd := csdFileFormat w (← get)
    modify fun d => { d with fatPartitionOffset := 0 }
    if csd &&& 0x8000 = 0 ∧ csd &&& 0x0c00 ≠ 0x0c00 then
      let result ← checkForFileSystem w csd
      return result && (← get).bootSectorData.bitsForClusterIndex == 16
    else return false
  else return false

def recognise : StateM Driver Unit := do
  if (← get).initialized = false then
    let result ← lookForFat16 w
    modify fun d => { d with
      isSdCardFormatedAsFat16 := result
      initialized := result
      searchData := { d.searchData with valid := false } }
  else return ()

def isFat16 : StateM Driver Bool := do
  if ← isPresent w then
    recognise w
    return (← get).isSdCardFormatedAsFat16
  else
    modify fun d => { d with initialized := false, isSdCardFormatedAsFat16 := false }
    return false

/-- The sector in which a card's file system starts: the first one, or that of
the first FAT partition. -/
def Card.fileSystemStart (card : Card) : Option (BitVec 32) :=
  if card.csd &&& 0x8000 = 0 then
    if card.csd &&& 0x0c00 = 0x0400 then some 0
    else if card.csd &&& 0x0c00 = 0x0000 ∧ endsWithSignature (card.sectorAt 0) then
      fatPartition (card.sectorAt 0)
    else none
  else none

def Card.isFormatedAsFat16 (card : Card) : Bool :=
  card.fileSystemStart.any fun start =>
    endsWithSignature (card.sectorAt (start * 512)) &&
      (bootSectorOf (card.sectorAt (start * 512))).bitsForClusterIndex == 16

/-- A FAT16 card on which `Check_for_DOS_FAT` does not divide by zero. The number
of sectors in a cluster, its other divisor, is not zero on any FAT16 card. -/
structure Card.Mountable (card : Card) : Prop where
  isFormatedAsFat16 : card.isFormatedAsFat16 = true
  sectorSize : ∀ start ∈ card.fileSystemStart,
    (bootSectorOf (card.sectorAt (start * 512))).sectorSizeInBytes ≠ 0

end Recognition

section Names

def isDivider (c : BitVec 8) : Bool := c == 0x5C || c == 0x2F

def charToUpper (c : BitVec 8) : BitVec 8 := if 0x61 ≤ c ∧ c ≤ 0x7A then c - 0x20 else c

def compliantFrom : List (BitVec 8) → Int → Int → Int → Bool
  | [], _, _, _ => true
  | c :: rest, index, lastDirBreakPosition, lastPeriod =>
      if c = 0x20 ∨ (lastDirBreakPosition = index - 1 ∧ isDivider c) ∨
          (index - lastPeriod = 9 ∧ c ≠ 0x2E) ∨
          (lastDirBreakPosition ≠ lastPeriod ∧ 3 < index - lastPeriod ∧ ¬ isDivider c) then
        false
      else if isDivider c then compliantFrom rest (index + 1) index index
      else if c = 0x2E then compliantFrom rest (index + 1) lastDirBreakPosition index
      else compliantFrom rest (index + 1) lastDirBreakPosition lastPeriod

def checkFileNameForFat16Compliance (fileName : List (BitVec 8)) : Bool :=
  compliantFrom fileName 0 (-1) (-1) && !(fileName.getLast?.any isDivider)

/-- The loop that puts a file name into name and extension format. -/
def splitFrom : List (BitVec 8) → Nat → Option Nat → (Nat → BitVec 8) × (Nat → BitVec 8) →
    (Nat → BitVec 8) × (Nat → BitVec 8)
  | [], _, _, parts => parts
  | c :: rest, index, extIndex, (name, extension) =>
      if c = 0x2E then splitFrom rest (index + 1) (some index) (name, extension)
      else
        match extIndex with
        | none => splitFrom rest (index + 1) none (Function.update name index c, extension)
        | some i =>
            splitFrom rest (index + 1) (some i)
              (name, Function.update extension (index - i - 1) c)

def nameAndExtension (fileName : List (BitVec 8)) : (Nat → BitVec 8) × (Nat → BitVec 8) :=
  splitFrom fileName 0 none (fun _ => 0x20, fun _ => 0x20)

def matchFileRecordToNameExt (entry : DirectoryEntry) (name extension : Nat → BitVec 8) :
    Bool :=
  (List.range 8).all (fun i => charToUpper (entry.name i) == charToUpper (name i)) &&
    (List.range 3).all fun i => charToUpper (entry.extension i) == charToUpper (extension i)

def DirectoryEntry.isFile (entry : DirectoryEntry) : Bool :=
  entry.name 0 != 0xe5 && entry.name 0 != 0x00

end Names

section Files

variable (w : World)

def readFileRecordAtOffset (offset sectorInCluster : Nat) :
    StateM Driver (Option DirectoryEntry) := do
  if offset % 32 = 0 then
    if (← isPresent w) && (← get).isSdCardFormatedAsFat16 then
      let buffer := (← get).buffer
      return some {
        name := fun i => buffer (offset + i)
        extension := fun i => buffer (offset + i + 8)
        startClusterIndex := halfWordAt buffer (offset + 26)
        fileSizeInBytes := wordAt buffer (offset + 28)
        fileRecordSectorInCluster := sectorInCluster
        fileRecordOffset := offset }
    else return none
  else return none

def maxRootDirSectors (boot : BootSector) : Nat :=
  32 * boot.maxNumberOfDirEntries.toNat / boot.sectorSizeInBytes.toNat

def readRootDirSector (sectorIndex : Nat) : StateM Driver Bool := do
  let d ← get
  readSectorData w (BitVec.ofNat 32 sectorIndex + d.bootSectorData.rootDirectorySectorOffset)
    d.fatPartitionOffset

/-- A record that cannot be read leaves the old one in place. -/
def storeEntry (index : Nat) : Option DirectoryEntry → Driver → Driver
  | some entry, d => setFile index (fun r => { r with entry := entry }) d
  | none, d => d

/-- The loop over the `n` file records from `fileCounter` on. -/
def findRecord (index sectorIndex : Nat) (name extension : Nat → BitVec 8) :
    Nat → Nat → StateM Driver Bool
  | 0, _ => return false
  | n + 1, fileCounter => do
      let found ← readFileRecordAtOffset w (fileCounter * 32) sectorIndex
      modify (storeEntry index found)
      let entry := ((← get).activeFiles index).entry
      if entry.isFile && matchFileRecordToNameExt entry name extension then return true
      else findRecord index sectorIndex name extension n (fileCounter + 1)

/-- The loop over the `n` sectors of the root directory from `sectorIndex` on. -/
def findInSectors (index : Nat) (name extension : Nat → BitVec 8) :
    Nat → Nat → StateM Driver Bool
  | 0, _ => return false
  | n + 1, sectorIndex => do
      if ← readRootDirSector w sectorIndex then
        if ← findRecord w index sectorIndex name extension 16 0 then return true
        else findInSectors index name extension n (sectorIndex + 1)
      else return false

def findFileInDirectory (fileName : List (BitVec 8)) (index : Nat) : StateM Driver Bool := do
  let parts := nameAndExtension fileName
  let d ← get
  findInSectors w index parts.1 parts.2 (maxRootDirSectors d.bootSectorData) 0

def openedBefore (index : Nat) (d : Driver) : Bool :=
  (List.range maxFilesOpened).any fun i =>
    i != index && (d.activeFiles i).inUse &&
      ((d.activeFiles index).entry.fileRecordSectorInCluster ==
          (d.activeFiles i).entry.fileRecordSectorInCluster &&
        (d.activeFiles index).entry.fileRecordOffset ==
          (d.activeFiles i).entry.fileRecordOffset)

def openFile (r : FileRecord) : FileRecord :=
  { r with
    currentClusterIndex := r.entry.startClusterIndex.setWidth 32
    currentSectorInCluster := 0
    currentBytePosition := 0
    inUse := true }

/-- `alt_up_sd_card_fopen` for a name without a directory, without `create`. -/
def fopen (name : String) : StateM Driver Int := do
  if (← isPresent w) && (← get).isSdCardFormatedAsFat16 then
    let fileName := name.toList.map fun c => charToUpper (BitVec.ofNat 8 c.toNat)
    if checkFileNameForFat16Compliance fileName then
      let d ← get
      match (List.range maxFilesOpened).find? fun i => !(d.activeFiles i).inUse with
      | some index =>
          if ← findFileInDirectory w fileName index then
            modify (setFile index openFile)
            return if openedBefore index (← get) then -2 else index
          else return -1
      | none => return -1
    else return -1
  else return -1

/-- The end of `alt_up_sd_card_read`, where the sector is known. -/
def readByte (index : Nat) (dataSector : BitVec 32) : StateM Driver Int := do
  if ← fetchSector w dataSector (← get).fatPartitionOffset then
    let d ← get
    let byte := d.buffer ((d.activeFiles index).currentBytePosition.toNat % 512)
    modify (setFile index fun r => { r with currentBytePosition := r.currentBytePosition + 1 })
    return byte.toNat
  else return -2

def dataSectorOf (boot : BootSector) (r : FileRecord) : BitVec 32 :=
  boot.dataSectorOffset +
    (r.currentClusterIndex - 2) * boot.sectorsPerCluster.setWidth 32 + r.currentSectorInCluster

def read (fileHandle : Int) : StateM Driver Int := do
  let d ← get
  let index := fileHandle.toNat
  let r := d.activeFiles index
  if ValidHandle fileHandle ∧ r.inUse ∧
      r.currentBytePosition.toNat < r.entry.fileSizeInBytes.toNat then
    if 0 < r.currentBytePosition.toNat ∧ r.currentBytePosition.toNat % 512 = 0 then
      if r.currentSectorInCluster = d.bootSectorData.sectorsPerCluster.setWidth 32 - 1 then
        match ← getClusterFlag w r.currentClusterIndex with
        | some nextCluster =>
            if nextCluster &&& 0xfff8 = 0xfff8 then return -1
            else
              modify (setFile index fun r => { r with
                currentClusterIndex := nextCluster.setWidth 32
                currentSectorInCluster := 0 })
              let d ← get
              readByte w index (dataSectorOf d.bootSectorData (d.activeFiles index))
        | none => return -2
      else
        modify (setFile index fun r =>
          { r with currentSectorInCluster := r.currentSectorInCluster + 1 })
        readByte w index (dataSectorOf d.bootSectorData r + 1)
    else readByte w index (dataSectorOf d.bootSectorData r)
  else return -1

/-- `alt_up_sd_card_fclose` for a file that has not been modified.  The source
indexes `active_files` with the handle as it is; `main` passes valid ones only. -/
def fclose (fileHandle : Int) : StateM Driver Bool := do
  if (← isPresent w) && (← get).isSdCardFormatedAsFat16 then
    let d ← get
    if ValidHandle fileHandle ∧ (d.activeFiles fileHandle.toNat).inUse then
      modify (setFile fileHandle.toNat fun r => { r with inUse := false })
      return true
    else return false
  else return false

end Files

section Listing

variable (w : World)

def nextRecord (sectorIndex : Nat) : Nat → Nat → StateM Driver (Option Nat)
  | 0, _ => return none
  | n + 1, fileCounter => do
      match ← readFileRecordAtOffset w (fileCounter * 32) sectorIndex with
      | some entry =>
          if entry.isFile then return some fileCounter
          else nextRecord sectorIndex n (fileCounter + 1)
      | none => nextRecord sectorIndex n (fileCounter + 1)

def nextInSectors : Nat → Nat → Nat → StateM Driver Int
  | 0, _, _ => return -1
  | n + 1, sectorIndex, fileCounter => do
      if ← readRootDirSector w sectorIndex then
        match ← nextRecord w sectorIndex (16 - fileCounter) fileCounter with
        | some found =>
            modify fun d => { d with searchData := { d.searchData with
              currentSectorInCluster := sectorIndex
              fileIndexInSector := found } }
            return 0
        | none => nextInSectors n (sectorIndex + 1) 0
      else return -1

def findNext : StateM Driver Int := do
  if (← isPresent w) && (← get).isSdCardFormatedAsFat16 then
    let d ← get
    if d.searchData.valid then
      let sectorIndex := d.searchData.currentSectorInCluster
      nextInSectors w (maxRootDirSectors d.bootSectorData - sectorIndex) sectorIndex
        (d.searchData.fileIndexInSector + 1).toNat
    else return 3
  else return 2

def findFirst : StateM Driver Int := do
  if (← isPresent w) && (← get).isSdCardFormatedAsFat16 then
    modify fun d => { d with searchData :=
      { currentSectorInCluster := 0, fileIndexInSector := -1, valid := true } }
    findNext w
  else return 2

end Listing

end RockPaperScissors.AlteraSdCard
