import RockPaperScissors.SdCardContents

namespace RockPaperScissors.SdCardDirectory

open RockPaperScissors.AlteraSdCard
open RockPaperScissors.Library.StateProgram
open RockPaperScissors.SdCardRecognition
open RockPaperScissors.SdCardSession
open RockPaperScissors.SdCardVolume
open RockPaperScissors.SdCardContents

section Records

def recordAt (buffer : Sector) (offset sectorInCluster : Nat) : DirectoryEntry where
  name i := buffer (offset + i)
  extension i := buffer (offset + i + 8)
  startClusterIndex := halfWordAt buffer (offset + 26)
  fileSizeInBytes := wordAt buffer (offset + 28)
  fileRecordSectorInCluster := sectorInCluster
  fileRecordOffset := offset

def rootSectorIndex (v : Volume) (s : Nat) : BitVec 32 :=
  BitVec.ofNat 32 s + v.boot.rootDirectorySectorOffset + v.start

def rootRecord (v : Volume) (i : Nat) : DirectoryEntry :=
  recordAt (v.sector (rootSectorIndex v (i / 16))) (i % 16 * 32) (i / 16)

def rootSize (v : Volume) : Nat := 16 * maxRootDirSectors v.boot

theorem rootRecord_eq (v : Volume) {s k : Nat} (hk : k < 16) :
    rootRecord v (16 * s + k) = recordAt (v.sector (rootSectorIndex v s)) (k * 32) s := by
  have hdiv : (16 * s + k) / 16 = s := by omega
  have hmod : (16 * s + k) % 16 = k := by omega
  rw [rootRecord, hdiv, hmod]

def isNamed (v : Volume) (name extension : Nat → BitVec 8) (i : Nat) : Bool :=
  (rootRecord v i).isFile && matchFileRecordToNameExt (rootRecord v i) name extension

def lookup (v : Volume) (name : String) : Option Nat :=
  let fileName := name.toList.map fun c => charToUpper (BitVec.ofNat 8 c.toNat)
  let parts := nameAndExtension fileName
  if checkFileNameForFat16Compliance fileName then
    (List.range (rootSize v)).find? (isNamed v parts.1 parts.2)
  else none

end Records

section Search

variable {w : World} {v : Volume} {d : Driver}

theorem readFileRecordAtOffset_steady (hw : Stays w v.card) (hd : Mounted v d)
    (hformated : d.isSdCardFormatedAsFat16 = true) {offset : Nat} (hoffset : offset % 32 = 0)
    (s : Nat) :
    Ensures (fun t => t = d) (readFileRecordAtOffset w offset s) fun found t =>
      found = some (recordAt d.buffer offset s) ∧ Looked d t := by
  refine .ite (fun _ => ?_) fun h => absurd hoffset h
  refine (isPresent_steady hw hd.devicePointer).bind fun present => .get_bind ?_
  rintro t ⟨rfl, n, rfl⟩
  refine .ite (fun _ => .get_bind ?_) fun h => absurd hformated h
  rintro t rfl
  refine .pure ?_
  rintro t rfl
  exact ⟨rfl, n, rfl⟩

theorem readRootDirSector_steady (hw : Stays w v.card) (hd : Mounted v d) (s : Nat) :
    Ensures (fun t => t = d) (readRootDirSector w s) fun done t =>
      done = true ∧ Loaded v (rootSectorIndex v s) d t := by
  refine .get_bind ?_
  rintro d rfl
  rw [rootSectorIndex, ← hd.boot, ← hd.start]
  exact readSectorData_steady hw hd.devicePointer _ _

/-- The search has changed nothing but the record in the slot `index`, which is
free as before. -/
structure Searched (v : Volume) (index : Nat) (d t : Driver) : Prop where
  mounted : Mounted v t
  formated : t.isSdCardFormatedAsFat16 = true
  searchData : t.searchData = d.searchData
  others : ∀ i, i ≠ index → t.activeFiles i = d.activeFiles i
  inUse : (t.activeFiles index).inUse = (d.activeFiles index).inUse

theorem Searched.of_looked {index : Nat} {t t' : Driver} (h : Searched v index d t)
    (hlooked : Looked t t') : Searched v index d t' := by
  have hmounted := h.mounted.of_looked hlooked
  obtain ⟨n, rfl⟩ := hlooked
  exact ⟨hmounted, h.formated, h.searchData, h.others, h.inUse⟩

theorem Searched.of_loaded {index : Nat} {t t' : Driver} {sector : BitVec 32}
    (h : Searched v index d t) (hloaded : Loaded v sector t t') : Searched v index d t' := by
  have hmounted := h.mounted.of_loaded hloaded
  obtain ⟨n, rfl⟩ := hloaded
  exact ⟨hmounted, h.formated, h.searchData, h.others, h.inUse⟩

theorem Searched.of_setFile {index : Nat} {t : Driver} (h : Searched v index d t)
    {f : FileRecord → FileRecord} (hf : ∀ r, (f r).inUse = r.inUse) :
    Searched v index d (setFile index f t) where
  mounted := h.mounted.setFile index f
  formated := h.formated
  searchData := h.searchData
  others i hi := (Function.update_of_ne hi _ _).trans (h.others i hi)
  inUse := by
    simp only [setFile, Function.update_self, hf]
    exact h.inUse

/-- The search has come to the record at `place`, or found none. -/
structure Finds (v : Volume) (index : Nat) (place : Option Nat) (found : Bool) (t : Driver) :
    Prop where
  found : found = place.isSome
  entry : ∀ i, place = some i → (t.activeFiles index).entry = rootRecord v i

theorem findRecord_steady (hw : Stays w v.card) {index s : Nat} (name extension : Nat → BitVec 8)
    {n first : Nat} (hfirst : first + n ≤ 16) :
    Ensures (fun t => Searched v index d t ∧ t.buffer = v.sector (rootSectorIndex v s))
      (findRecord w index s name extension n first) fun found t =>
        Searched v index d t ∧
          Finds v index ((List.range' (16 * s + first) n).find? (isNamed v name extension))
            found t := by
  induction n generalizing first with
  | zero => exact .pure fun t ht => ⟨ht.1, rfl, fun i h => absurd h (by simp)⟩
  | succ n ih =>
      refine .of_eq fun t ht => ?_
      obtain ⟨hsearched, hbuffer⟩ := ht
      refine (readFileRecordAtOffset_steady hw hsearched.mounted hsearched.formated
        (Nat.mul_mod_left first 32) s).bind fun found => .modify_bind ?_
      rintro _ ⟨rfl, n', rfl⟩
      refine .get_bind ?_
      rintro _ rfl
      have hlooked := hsearched.of_looked ⟨n', rfl⟩
      have hstored := hlooked.of_setFile (f := fun r =>
        { r with entry := recordAt t.buffer (first * 32) s }) fun _ => rfl
      have hrecord : recordAt t.buffer (first * 32) s = rootRecord v (16 * s + first) := by
        rw [rootRecord_eq v (by omega), hbuffer]
      simp only [storeEntry, setFile, Function.update_self]
      rw [hrecord] at hstored ⊢
      rw [List.range'_succ, List.find?_cons]
      refine .ite (fun hmatch => .pure ?_) fun hother => ?_
      · rintro _ rfl
        rw [isNamed, hmatch]
        refine ⟨hstored, rfl, fun i hi => ?_⟩
        obtain rfl := Option.some.inj hi
        simp only [Function.update_self]
      · rw [isNamed, Bool.eq_false_iff.mpr hother]
        refine (@ih (first + 1) (by omega)).mono ?_ fun _ _ => id
        rintro _ rfl
        exact ⟨hstored, hbuffer⟩

theorem findInSectors_steady (hw : Stays w v.card) {index : Nat} (name extension : Nat → BitVec 8)
    (n s : Nat) :
    Ensures (Searched v index d) (findInSectors w index name extension n s) fun found t =>
      Searched v index d t ∧
        Finds v index ((List.range' (16 * s) (16 * n)).find? (isNamed v name extension))
          found t := by
  induction n generalizing s with
  | zero => exact .pure fun t ht => ⟨ht, rfl, fun i h => absurd h (by simp)⟩
  | succ n ih =>
      refine .of_eq fun t ht => ?_
      have hsplit : List.range' (16 * s) (16 * (n + 1)) =
          List.range' (16 * s) 16 ++ List.range' (16 * (s + 1)) (16 * n) := by
        rw [Nat.mul_succ, Nat.mul_succ, Nat.add_comm (16 * n)]
        exact List.range'_append_1.symm
      rw [hsplit, List.find?_append]
      refine (readRootDirSector_steady hw ht.mounted s).bind fun done => .of_eq ?_
      rintro t' ⟨rfl, hloaded⟩
      have hbuffer : t'.buffer = v.sector (rootSectorIndex v s) := by
        obtain ⟨_, rfl⟩ := hloaded
        rfl
      refine .ite (fun _ => ?_) fun h => absurd rfl h
      have hrecord : Ensures
          (fun t => Searched v index d t ∧ t.buffer = v.sector (rootSectorIndex v s))
          (findRecord w index s name extension 16 0) _ :=
        findRecord_steady hw name extension (Nat.le_refl (0 + 16))
      refine (hrecord.mono ?_ fun _ _ => id).bind fun found => ?_
      · rintro _ rfl
        exact ⟨ht.of_loaded hloaded, hbuffer⟩
      · rw [Nat.add_zero]
        refine .ite (fun hfound => .pure ?_) fun hnone => ?_
        · rintro t'' ⟨hsearched, hfinds⟩
          obtain ⟨i, hi⟩ := Option.isSome_iff_exists.mp (hfinds.found.symm.trans hfound)
          rw [hi] at hfinds ⊢
          exact ⟨hsearched, rfl, hfinds.entry⟩
        · refine .of_eq fun t'' ht'' => ?_
          have hfirst := ht''.2.found.symm.trans (Bool.eq_false_iff.mpr hnone)
          rw [Option.isSome_eq_false_iff, Option.isNone_iff_eq_none] at hfirst
          rw [hfirst, Option.none_or]
          exact (ih (s + 1)).mono (fun _ h => h ▸ ht''.1) fun _ _ => id

end Search

section Opening

variable {w : World} {v : Volume} {d : Driver}

def InUseAt (v : Volume) (i : Nat) (d : Driver) : Prop :=
  ∃ j < maxFilesOpened, (d.activeFiles j).inUse = true ∧
    (d.activeFiles j).entry.fileRecordSectorInCluster =
      (rootRecord v i).fileRecordSectorInCluster ∧
    (d.activeFiles j).entry.fileRecordOffset = (rootRecord v i).fileRecordOffset

instance (v : Volume) (i : Nat) (d : Driver) : Decidable (InUseAt v i d) :=
  inferInstanceAs (Decidable (∃ j < maxFilesOpened, _))

structure OpenedAt (v : Volume) (index i : Nat) (d t : Driver) : Prop where
  mounted : Mounted v t
  formated : t.isSdCardFormatedAsFat16 = true
  searchData : t.searchData = d.searchData
  others : ∀ j, j ≠ index → t.activeFiles j = d.activeFiles j
  inUse : (t.activeFiles index).inUse = true
  entry : (t.activeFiles index).entry = rootRecord v i
  positioned : Positioned v (t.activeFiles index) 0

theorem Searched.openedAt {index i : Nat} {t : Driver} (h : Searched v index d t)
    (hentry : (t.activeFiles index).entry = rootRecord v i) :
    OpenedAt v index i d (setFile index openFile t) where
  mounted := h.mounted.setFile index openFile
  formated := h.formated
  searchData := h.searchData
  others j hj := (Function.update_of_ne hj _ _).trans (h.others j hj)
  inUse := by simp only [setFile, Function.update_self, openFile]
  entry := by simpa only [setFile, Function.update_self, openFile] using hentry
  positioned := by
    simp only [setFile, Function.update_self]
    exact positioned_openFile v _

theorem OpenedAt.openedBefore_iff {index i : Nat} {t : Driver} (h : OpenedAt v index i d t)
    (hfree : (d.activeFiles index).inUse = false) :
    openedBefore index t = true ↔ InUseAt v i d := by
  simp only [openedBefore, List.any_eq_true, List.mem_range, Bool.and_eq_true, bne_iff_ne,
    beq_iff_eq, h.entry]
  constructor
  · rintro ⟨j, hj, ⟨hne, huse⟩, hsector, hoffset⟩
    rw [h.others j hne] at huse hsector hoffset
    exact ⟨j, hj, huse, hsector.symm, hoffset.symm⟩
  · rintro ⟨j, hj, huse, hsector, hoffset⟩
    have hne : j ≠ index := by
      rintro rfl
      exact absurd (hfree.symm.trans huse) Bool.false_ne_true
    rw [← h.others j hne] at huse hsector hoffset
    exact ⟨j, hj, ⟨hne, huse⟩, hsector.symm, hoffset.symm⟩

theorem findFileInDirectory_steady (hw : Stays w v.card) (hd : Mounted v d)
    (hformated : d.isSdCardFormatedAsFat16 = true) (fileName : List (BitVec 8)) (index : Nat) :
    Ensures (fun t => Looked d t) (findFileInDirectory w fileName index) fun found t =>
      Searched v index d t ∧
        Finds v index ((List.range (rootSize v)).find?
          (isNamed v (nameAndExtension fileName).1 (nameAndExtension fileName).2)) found t := by
  refine .get_bind ?_
  rintro _ ⟨n, rfl⟩
  have hsearched : Searched v index d { d with looks := n } :=
    ⟨hd.of_looked ⟨n, rfl⟩, hformated, rfl, fun _ _ => rfl, rfl⟩
  have hfind : Ensures (Searched v index d)
      (findInSectors w index (nameAndExtension fileName).1 (nameAndExtension fileName).2
        (maxRootDirSectors v.boot) 0) _ := findInSectors_steady hw _ _ _ _
  rw [List.range_eq_range', rootSize, ← hd.boot]
  rw [← hd.boot] at hfind
  exact hfind.mono (fun _ h => h ▸ hsearched) fun _ _ => id

theorem fopen_steady (hw : Stays w v.card) (hd : Mounted v d)
    (hformated : d.isSdCardFormatedAsFat16 = true) {index : Nat}
    (hfree : (List.range maxFilesOpened).find? (fun i => !(d.activeFiles i).inUse) = some index)
    (name : String) :
    Ensures (fun t => t = d) (fopen w name) fun file t =>
      (lookup v name = none → file = -1 ∧ Searched v index d t) ∧
        ∀ i, lookup v name = some i →
          file = (if InUseAt v i d then -2 else (index : Int)) ∧ OpenedAt v index i d t := by
  have hslot : (d.activeFiles index).inUse = false := by
    simpa using List.find?_some hfree
  refine (isPresent_steady hw hd.devicePointer).bind fun present => .get_bind ?_
  rintro _ ⟨rfl, n, rfl⟩
  have hlooked : Searched v index d { d with looks := n } :=
    ⟨hd.of_looked ⟨n, rfl⟩, hformated, rfl, fun _ _ => rfl, rfl⟩
  refine .ite (fun _ => ?_) fun h => absurd hformated h
  refine .ite (fun hname => .get_bind ?_) fun hname => .pure ?_
  · rintro _ rfl
    simp only [hfree]
    have hlookup := lookup.eq_1 v name
    simp only [hname, if_true] at hlookup
    have hfind := findFileInDirectory_steady hw hd hformated
      (name.toList.map fun c => charToUpper (BitVec.ofNat 8 c.toNat)) index
    rw [← hlookup] at hfind
    refine (hfind.mono ?_ fun _ _ => id).bind fun found => .of_eq ?_
    · rintro _ rfl
      exact ⟨n, rfl⟩
    · rintro t ⟨hsearched, hfinds⟩
      refine .ite (fun hfound => .modify_bind fun t' ht' => .get_bind ?_) fun hnone => .pure ?_
      · rintro _ rfl
        refine .pure ?_
        rintro _ rfl
        obtain ⟨i, hi⟩ := Option.isSome_iff_exists.mp (hfinds.found.symm.trans hfound)
        have hopened := hsearched.openedAt (hfinds.entry i hi)
        rw [← ht'] at hopened
        refine ⟨fun h => ?_, fun j hj => ?_⟩
        · rw [hi] at h
          exact absurd h (Option.some_ne_none i)
        · obtain rfl : i = j := Option.some.inj (hi.symm.trans hj)
          exact ⟨if_congr (hopened.openedBefore_iff hslot) rfl rfl, hopened⟩
      · rintro _ rfl
        have hmissing := hfinds.found.symm.trans (Bool.eq_false_iff.mpr hnone)
        rw [Option.isSome_eq_false_iff, Option.isNone_iff_eq_none] at hmissing
        rw [hmissing]
        exact ⟨fun _ => ⟨rfl, hsearched⟩, fun i hi => absurd hi.symm (Option.some_ne_none i)⟩
  · rintro _ rfl
    have hmissing : lookup v name = none := by
      rw [lookup.eq_1]
      exact if_neg hname
    rw [hmissing]
    exact ⟨fun _ => ⟨rfl, hlooked⟩, fun i hi => absurd hi.symm (Option.some_ne_none i)⟩

end Opening

end RockPaperScissors.SdCardDirectory
