import RockPaperScissors.SdCardVolume

namespace RockPaperScissors.SdCardContents

open RockPaperScissors.AlteraSdCard
open RockPaperScissors.Library.StateProgram
open RockPaperScissors.ReferenceFile
open RockPaperScissors.SdCardRecognition
open RockPaperScissors.SdCardSession
open RockPaperScissors.SdCardVolume

section Sectors

theorem succ_of_last {s c : Nat} (hc : 0 < c) (h : s % c = c - 1) :
    (s + 1) / c = s / c + 1 ∧ (s + 1) % c = 0 := by
  rw [Nat.div_mod_unique hc]
  refine ⟨?_, hc⟩
  have hsplit := Nat.mod_add_div s c
  rw [Nat.mul_succ]
  omega

theorem succ_of_inner {s c : Nat} (hc : 0 < c) (h : s % c ≠ c - 1) :
    (s + 1) / c = s / c ∧ (s + 1) % c = s % c + 1 := by
  rw [Nat.div_mod_unique hc]
  have hsplit := Nat.mod_add_div s c
  have hlt := Nat.mod_lt s hc
  omega

theorem last_sector_iff {v : Volume} (hsize : 0 < v.clusterSize) (s : Nat) :
    BitVec.ofNat 32 (s % v.clusterSize) = v.boot.sectorsPerCluster.setWidth 32 - 1 ↔
      s % v.clusterSize = v.clusterSize - 1 := by
  rw [Volume.clusterSize] at hsize ⊢
  have hlt := Nat.mod_lt s hsize
  have hbound := v.boot.sectorsPerCluster.isLt
  have hone : (1 : BitVec 32).toNat = 1 := rfl
  constructor
  · intro h
    have hnat := congrArg BitVec.toNat h
    simp only [BitVec.toNat_ofNat, BitVec.toNat_sub, BitVec.toNat_setWidth, hone] at hnat
    omega
  · intro h
    apply BitVec.eq_of_toNat_eq
    simp only [BitVec.toNat_ofNat, BitVec.toNat_sub, BitVec.toNat_setWidth, hone, h]
    omega

end Sectors

section Position

variable {w : World} {v : Volume} {d : Driver}

structure Positioned (v : Volume) (r : FileRecord) (p : Nat) : Prop where
  position : r.currentBytePosition.toNat = p
  le_size : p ≤ r.entry.fileSizeInBytes.toNat
  linked : v.Linked r.entry.startClusterIndex ((p - 1) / 512 / v.clusterSize)
  cluster : r.currentClusterIndex =
    v.chain r.entry.startClusterIndex ((p - 1) / 512 / v.clusterSize)
  sector : r.currentSectorInCluster = BitVec.ofNat 32 ((p - 1) / 512 % v.clusterSize)

/-- Of what concerns the files, nothing but the position in the slot `index` has
changed, which is `p` now. -/
structure ReadTo (v : Volume) (index p : Nat) (d t : Driver) : Prop where
  mounted : Mounted v t
  formated : t.isSdCardFormatedAsFat16 = d.isSdCardFormatedAsFat16
  others : ∀ i, i ≠ index → t.activeFiles i = d.activeFiles i
  entry : (t.activeFiles index).entry = (d.activeFiles index).entry
  inUse : (t.activeFiles index).inUse = (d.activeFiles index).inUse
  positioned : Positioned v (t.activeFiles index) p

theorem positioned_openFile (v : Volume) (r : FileRecord) : Positioned v (openFile r) 0 where
  position := rfl
  le_size := Nat.zero_le _
  linked := by
    intro j hj
    simp at hj
  cluster := by simp [openFile, Volume.chain]
  sector := by simp [openFile]

theorem readByte_steady (hw : Stays w v.card) (hd : Mounted v d) {index p : Nat}
    {sector : BitVec 32} {byte : BitVec 8}
    (hposition : (d.activeFiles index).currentBytePosition.toNat = p)
    (hlt : p < (d.activeFiles index).entry.fileSizeInBytes.toNat)
    (hlinked : v.Linked (d.activeFiles index).entry.startClusterIndex (p / 512 / v.clusterSize))
    (hcluster : (d.activeFiles index).currentClusterIndex =
      v.chain (d.activeFiles index).entry.startClusterIndex (p / 512 / v.clusterSize))
    (hsector : (d.activeFiles index).currentSectorInCluster =
      BitVec.ofNat 32 (p / 512 % v.clusterSize))
    (hbyte : v.sector (sector + v.start) (p % 512) = byte) :
    Ensures (fun t => t = d) (readByte w index sector) fun result t =>
      result = (byte.toNat : Int) ∧ ReadTo v index (p + 1) d t := by
  refine .get_bind ?_
  rintro d rfl
  refine (fetchSector_steady hw hd _ _).bind fun done => .of_eq ?_
  rintro t ⟨rfl, hloaded⟩
  refine .get_bind ?_
  rintro t rfl
  refine .modify_bind fun t' ht' => .pure ?_
  rintro _ rfl
  subst ht'
  have hmounted := (hd.of_loaded hloaded).setFile index fun r =>
    { r with currentBytePosition := r.currentBytePosition + 1 }
  obtain ⟨n, rfl⟩ := hloaded
  constructor
  · rw [← hbyte, ← hd.start, ← hposition]
  · refine ⟨hmounted, rfl, ?_, ?_, ?_, ?_⟩
    · intro i hi
      exact Function.update_of_ne hi _ _
    · simp only [setFile, Function.update_self]
    · simp only [setFile, Function.update_self]
    · have hfits : p + 1 < 2 ^ 32 :=
        (Nat.succ_le_of_lt hlt).trans_lt (d.activeFiles index).entry.fileSizeInBytes.isLt
      constructor
      · simp only [setFile, Function.update_self, BitVec.toNat_add, hposition]
        exact Nat.mod_eq_of_lt hfits
      · simp only [setFile, Function.update_self]
        exact hlt
      · simpa only [setFile, Function.update_self, Nat.add_sub_cancel] using hlinked
      · simpa only [setFile, Function.update_self, Nat.add_sub_cancel] using hcluster
      · simpa only [setFile, Function.update_self, Nat.add_sub_cancel] using hsector

theorem ReadTo.of_setFile {index p : Nat} {f : FileRecord → FileRecord} {d t d' : Driver}
    (hf : ∀ r, (f r).entry = r.entry ∧ (f r).inUse = r.inUse)
    (hfiles : d'.activeFiles = d.activeFiles)
    (hformated : d'.isSdCardFormatedAsFat16 = d.isSdCardFormatedAsFat16)
    (h : ReadTo v index p (setFile index f d') t) : ReadTo v index p d t := by
  obtain ⟨hmounted, hformated', hothers, hentry, hinUse, hpositioned⟩ := h
  refine ⟨hmounted, hformated'.trans hformated, ?_, ?_, ?_, hpositioned⟩
  · intro i hi
    rw [hothers i hi, ← hfiles]
    exact Function.update_of_ne hi _ _
  · rw [hentry, ← hfiles]
    simp only [setFile, Function.update_self, (hf _).1]
  · rw [hinUse, ← hfiles]
    simp only [setFile, Function.update_self, (hf _).2]

theorem ReadTo.refl_of_loaded {index p : Nat} {d t : Driver} (hd : Mounted v d)
    {sector : BitVec 32} (hloaded : Loaded v sector d t)
    (hp : Positioned v (d.activeFiles index) p) : ReadTo v index p d t := by
  have hmounted := hd.of_loaded hloaded
  obtain ⟨n, rfl⟩ := hloaded
  exact ⟨hmounted, rfl, fun _ _ => rfl, rfl, rfl, hp⟩

/-- What a read returns at the position `p` of a file. -/
def delivered (v : Volume) (entry : DirectoryEntry) (p : Nat) : Int :=
  (v.fileByte entry p).elim (-1) fun byte => byte.toNat

theorem dataSectorOf_eq {r : FileRecord} {s : Nat}
    (hcluster : r.currentClusterIndex = v.chain r.entry.startClusterIndex (s / v.clusterSize))
    (hsector : r.currentSectorInCluster = BitVec.ofNat 32 (s % v.clusterSize)) :
    dataSectorOf v.boot r = v.dataSector r.entry.startClusterIndex s := by
  rw [dataSectorOf, Volume.dataSector, hcluster, hsector]

theorem fileByte_eq_some {entry : DirectoryEntry} {p : Nat}
    (hlt : p < entry.fileSizeInBytes.toNat)
    (hlinked : v.Linked entry.startClusterIndex (p / 512 / v.clusterSize)) :
    v.fileByte entry p =
      some (v.sector (v.dataSector entry.startClusterIndex (p / 512) + v.start) (p % 512)) :=
  if_pos ⟨hlt, hlinked⟩

theorem readByte_delivered (hw : Stays w v.card) (hd : Mounted v d) {index p : Nat}
    {s : BitVec 32} (hposition : (d.activeFiles index).currentBytePosition.toNat = p)
    (hlt : p < (d.activeFiles index).entry.fileSizeInBytes.toNat)
    (hlinked : v.Linked (d.activeFiles index).entry.startClusterIndex (p / 512 / v.clusterSize))
    (hcluster : (d.activeFiles index).currentClusterIndex =
      v.chain (d.activeFiles index).entry.startClusterIndex (p / 512 / v.clusterSize))
    (hsector : (d.activeFiles index).currentSectorInCluster =
      BitVec.ofNat 32 (p / 512 % v.clusterSize))
    (hdata : s = dataSectorOf v.boot (d.activeFiles index)) :
    Ensures (fun t => t = d) (readByte w index s) fun result t =>
      result = delivered v (d.activeFiles index).entry p ∧
        ReadTo v index
          (if (v.fileByte (d.activeFiles index).entry p).isSome then p + 1 else p) d t := by
  have hbyte := fileByte_eq_some hlt hlinked
  rw [delivered, hbyte]
  apply readByte_steady hw hd hposition hlt hlinked hcluster hsector
  rw [hdata, dataSectorOf_eq hcluster hsector]

theorem readByte_moved (hw : Stays w v.card) {t : Driver} (ht : Mounted v t)
    (hfiles : t.activeFiles = d.activeFiles)
    (hformated : t.isSdCardFormatedAsFat16 = d.isSdCardFormatedAsFat16) {index p : Nat}
    {f : FileRecord → FileRecord}
    (hf : ∀ r, (f r).entry = r.entry ∧ (f r).inUse = r.inUse)
    (hposition : (f (d.activeFiles index)).currentBytePosition.toNat = p)
    (hlt : p < (d.activeFiles index).entry.fileSizeInBytes.toNat)
    (hlinked : v.Linked (d.activeFiles index).entry.startClusterIndex (p / 512 / v.clusterSize))
    (hcluster : (f (d.activeFiles index)).currentClusterIndex =
      v.chain (d.activeFiles index).entry.startClusterIndex (p / 512 / v.clusterSize))
    (hsector : (f (d.activeFiles index)).currentSectorInCluster =
      BitVec.ofNat 32 (p / 512 % v.clusterSize))
    {sector : BitVec 32} (hdata : sector = dataSectorOf v.boot (f (d.activeFiles index))) :
    Ensures (fun t' => t' = setFile index f t) (readByte w index sector) fun result t' =>
      result = delivered v (d.activeFiles index).entry p ∧
        ReadTo v index
          (if (v.fileByte (d.activeFiles index).entry p).isSome then p + 1 else p) d t' := by
  have hrecord : (setFile index f t).activeFiles index = f (d.activeFiles index) := by
    rw [← hfiles]
    exact Function.update_self _ _ _
  have hentry := (hf (d.activeFiles index)).1
  have hread := readByte_delivered (s := sector) hw (ht.setFile index f)
    (hrecord.symm ▸ hposition) (by rwa [hrecord, hentry]) (by rwa [hrecord, hentry])
    (by rwa [hrecord, hentry]) (by rwa [hrecord]) (by rwa [hrecord])
  rw [hrecord, hentry] at hread
  exact hread.mono (fun _ => id) fun _ _ h => ⟨h.1, h.2.of_setFile hf hfiles hformated⟩

theorem read_steady (hw : Stays w v.card) (hd : Mounted v d) (hsize : 0 < v.clusterSize)
    {index p : Nat} (hindex : index < maxFilesOpened)
    (hinUse : (d.activeFiles index).inUse = true)
    (hp : Positioned v (d.activeFiles index) p) :
    Ensures (fun t => t = d) (AlteraSdCard.read w index) fun result t =>
      result = delivered v (d.activeFiles index).entry p ∧
        ReadTo v index
          (if (v.fileByte (d.activeFiles index).entry p).isSome then p + 1 else p) d t := by
  have hvalid : ValidHandle index := ⟨Int.natCast_nonneg _, by exact_mod_cast hindex⟩
  refine .get_bind ?_
  rintro d rfl
  simp only [Int.toNat_natCast]
  refine .ite (fun hopen => ?_) fun hend => ?_
  · have hlt : p < (d.activeFiles index).entry.fileSizeInBytes.toNat := hp.position ▸ hopen.2.2
    refine .ite (fun hboundary => ?_) fun hinner => ?_
    · rw [hp.position] at hboundary
      obtain ⟨s, hs⟩ : ∃ s, p / 512 = s + 1 := ⟨p / 512 - 1, by omega⟩
      have hbefore : (p - 1) / 512 = s := by omega
      have hlinked := hp.linked
      have hcluster := hp.cluster
      have hsector := hp.sector
      rw [hbefore] at hlinked hcluster hsector
      refine .ite (fun hlast => ?_) fun hnext => ?_
      · rw [hd.boot, hsector, last_sector_iff hsize] at hlast
        obtain ⟨hdiv, hmod⟩ := succ_of_last hsize hlast
        refine (getClusterFlag_steady hw hd _).bind fun flag => .of_eq ?_
        rintro t ⟨rfl, index', hloaded⟩
        have hmounted := hd.of_loaded hloaded
        have hreadTo := ReadTo.refl_of_loaded hd hloaded hp
        have hfiles : t.activeFiles = d.activeFiles := by
          obtain ⟨n, rfl⟩ := hloaded
          rfl
        rw [hcluster]
        refine .ite (fun hendOfChain => ?_) fun hlink => ?_
        · refine .pure ?_
          rintro t rfl
          have hnone : v.fileByte (d.activeFiles index).entry p = none := by
            rw [Volume.fileByte, if_neg]
            rintro ⟨_, hchain⟩
            refine hchain (s / v.clusterSize) ?_ hendOfChain
            rw [hs, hdiv]
            exact Nat.lt_succ_self _
          rw [delivered, hnone]
          exact ⟨rfl, hreadTo⟩
        · have hchain : v.Linked (d.activeFiles index).entry.startClusterIndex
              (p / 512 / v.clusterSize) := by
            intro j hj
            rw [hs, hdiv] at hj
            rcases Nat.lt_succ_iff_lt_or_eq.mp hj with hlt' | rfl
            · exact hlinked j hlt'
            · exact hlink
          refine .modify_bind fun t' ht' => .get_bind ?_
          rintro t'' rfl
          rw [ht']
          refine readByte_moved (f := fun r => { r with
              currentClusterIndex :=
                (v.clusterFlag (v.chain (d.activeFiles index).entry.startClusterIndex
                  (s / v.clusterSize))).setWidth 32
              currentSectorInCluster := 0 }) hw hmounted hfiles hreadTo.formated
            (fun r => ⟨rfl, rfl⟩) hp.position hlt hchain ?_ ?_ ?_
          · rw [hs, hdiv]
            rfl
          · rw [hs, hmod]
            rfl
          · rw [← hfiles, ← hmounted.boot]
            simp only [setFile, Function.update_self]
      · rw [hd.boot, hsector, last_sector_iff hsize] at hnext
        obtain ⟨hdiv, hmod⟩ := succ_of_inner hsize hnext
        refine .modify_bind ?_
        rintro d rfl
        refine readByte_moved (f := fun r => { r with
            currentSectorInCluster := r.currentSectorInCluster + 1 }) hw hd rfl rfl
          (fun r => ⟨rfl, rfl⟩) hp.position hlt ?_ ?_ ?_ ?_
        · rwa [hs, hdiv]
        · rw [hs, hdiv]
          exact hcluster
        · rw [hs, hmod, BitVec.ofNat_add, ← hsector]
          rfl
        · rw [hd.boot, dataSectorOf, dataSectorOf, BitVec.add_assoc]
    · have hsame : (p - 1) / 512 = p / 512 := by
        rw [hp.position] at hinner
        omega
      have hlinked := hp.linked
      have hcluster := hp.cluster
      have hsector := hp.sector
      rw [hsame] at hlinked hcluster hsector
      exact readByte_delivered hw hd hp.position hlt hlinked hcluster hsector (by rw [hd.boot])
  · refine .pure ?_
    rintro d rfl
    have hnone : v.fileByte (d.activeFiles index).entry p = none := by
      rw [Volume.fileByte, if_neg]
      rintro ⟨hlt, _⟩
      exact hend ⟨hvalid, hinUse, hp.position.symm ▸ hlt⟩
    rw [delivered, hnone]
    exact ⟨rfl, hd, rfl, fun _ _ => rfl, rfl, rfl, hp⟩

end Position

section Interleaving

variable {w : World} {v : Volume}

def positionAfter (v : Volume) (entry : DirectoryEntry) : Nat → Nat
  | 0 => 0
  | count + 1 =>
      let p := positionAfter v entry count
      if (v.fileByte entry p).isSome then p + 1 else p

theorem positionAfter_spec (v : Volume) (entry : DirectoryEntry) (count : Nat) :
    positionAfter v entry count = count ∨
      positionAfter v entry count ≤ count ∧
        v.fileByte entry (positionAfter v entry count) = none := by
  induction count with
  | zero => exact .inl rfl
  | succ count ih =>
      cases hbyte : v.fileByte entry (positionAfter v entry count) with
      | none =>
          have hstays : positionAfter v entry (count + 1) = positionAfter v entry count := by
            rw [positionAfter, if_neg (by rw [hbyte]; decide)]
          rw [hstays]
          refine .inr ⟨?_, hbyte⟩
          rcases ih with ih | ih <;> omega
      | some byte =>
          have hmoves : positionAfter v entry (count + 1) = positionAfter v entry count + 1 := by
            rw [positionAfter, if_pos (by rw [hbyte]; rfl)]
          rcases ih with ih | ih
          · exact .inl (hmoves.trans (by rw [ih]))
          · rw [hbyte] at ih
            exact absurd ih.2 (Option.some_ne_none byte)

/-- The end of the file comes at the same read, however it is reached. -/
theorem delivered_positionAfter (v : Volume) (entry : DirectoryEntry) (count : Nat) :
    delivered v entry (positionAfter v entry count) = delivered v entry count := by
  rcases positionAfter_spec v entry count with heq | ⟨hle, hnone⟩
  · rw [heq]
  · have hend : v.fileByte entry count = none := by
      by_contra hsome
      have := v.fileByte_isSome_of_le (Option.isSome_iff_ne_none.mpr hsome) hle
      rw [hnone] at this
      exact absurd this (by decide)
    rw [delivered, delivered, hnone, hend]

/-- One read through each of the handles, in their order. -/
def readThrough (w : World) : List Nat → StateM Driver (List Int)
  | [] => return []
  | index :: rest => do
      let byte ← AlteraSdCard.read w index
      return byte :: (← readThrough w rest)

/-- The slots of `opened` hold their files, read as often as `counts` says. -/
structure Reading (v : Volume) (files : Nat → DirectoryEntry) (opened : Set Nat)
    (counts : Nat → Nat) (d : Driver) : Prop where
  mounted : Mounted v d
  slot_lt : ∀ i ∈ opened, i < maxFilesOpened
  inUse : ∀ i ∈ opened, (d.activeFiles i).inUse = true
  entry : ∀ i ∈ opened, (d.activeFiles i).entry = files i
  positioned : ∀ i ∈ opened, Positioned v (d.activeFiles i) (positionAfter v (files i) (counts i))

variable {files : Nat → DirectoryEntry} {opened : Set Nat}

theorem read_reading (hw : Stays w v.card) (hsize : 0 < v.clusterSize) {counts : Nat → Nat}
    {index : Nat} (hindex : index ∈ opened) :
    Ensures (Reading v files opened counts) (AlteraSdCard.read w index) fun byte t =>
      byte = delivered v (files index) (counts index) ∧
        Reading v files opened (Function.update counts index (counts index + 1)) t := by
  refine .of_eq fun d hd => ?_
  refine (read_steady hw hd.mounted hsize (hd.slot_lt index hindex) (hd.inUse index hindex)
    (hd.positioned index hindex)).mono (fun _ => id) ?_
  rintro byte t ⟨hbyte, hread⟩
  rw [hd.entry index hindex] at hbyte hread
  rw [delivered_positionAfter] at hbyte
  refine ⟨hbyte, hread.mounted, hd.slot_lt, ?_, ?_, ?_⟩
  · intro i hi
    rcases eq_or_ne i index with rfl | hne
    · rw [hread.inUse, hd.inUse i hi]
    · rw [hread.others i hne, hd.inUse i hi]
  · intro i hi
    rcases eq_or_ne i index with rfl | hne
    · rw [hread.entry, hd.entry i hi]
    · rw [hread.others i hne, hd.entry i hi]
  · intro i hi
    rcases eq_or_ne i index with rfl | hne
    · rw [Function.update_self]
      exact hread.positioned
    · rw [Function.update_of_ne hne, hread.others i hne]
      exact hd.positioned i hi

theorem readThrough_reading (hw : Stays w v.card) (hsize : 0 < v.clusterSize)
    {handles : List Nat} (hhandles : ∀ i ∈ handles, i ∈ opened) (counts : Nat → Nat) :
    Ensures (Reading v files opened counts) (readThrough w handles) fun bytes _ =>
      ∀ k i, handles[k]? = some i →
        bytes[k]? = some (delivered v (files i) (counts i + (handles.take k).count i)) := by
  induction handles generalizing counts with
  | nil => exact .pure fun _ _ k i h => absurd h (by simp)
  | cons index rest ih =>
      refine (read_reading hw hsize (hhandles index List.mem_cons_self)).bind fun byte => ?_
      refine .of_eq fun t ht => ?_
      have hrest := ih (fun i hi => hhandles i (List.mem_cons_of_mem index hi))
        (Function.update counts index (counts index + 1))
      refine (hrest.mono (fun s (hs : s = t) => hs ▸ ht.2) fun _ _ h => h).bind fun bytes => .pure ?_
      intro _ hbytes k i hk
      cases k with
      | zero =>
          obtain rfl : index = i := by simpa using hk
          simp [ht.1]
      | succ k =>
          rw [List.getElem?_cons_succ] at hk ⊢
          rw [hbytes k i hk, List.take_succ_cons, List.count_cons]
          rcases eq_or_ne i index with rfl | hne
          · simp only [Function.update_self, BEq.rfl, if_true]
            congr 2
            omega
          · rw [Function.update_of_ne hne, if_neg (by simpa using hne.symm), Nat.add_zero]

/-- However the reads of several open files are interleaved, each file is
delivered byte after byte, and -1 from its end on. -/
theorem readThrough_interleaved (hw : Stays w v.card) (hsize : 0 < v.clusterSize) {d : Driver}
    (hd : Mounted v d) {handles : List Nat}
    (hopen : ∀ i ∈ handles, i < maxFilesOpened ∧ (d.activeFiles i).inUse = true ∧
      Positioned v (d.activeFiles i) 0) {k i : Nat} (hk : handles[k]? = some i) :
    ((readThrough w handles).run d).1[k]? =
      some (delivered v (d.activeFiles i).entry ((handles.take k).count i)) := by
  have hreading : Reading v (fun i => (d.activeFiles i).entry) {i | i ∈ handles} (fun _ => 0) d :=
    ⟨hd, fun i hi => (hopen i hi).1, fun i hi => (hopen i hi).2.1, fun _ _ => rfl,
      fun i hi => (hopen i hi).2.2⟩
  have hbytes := readThrough_reading hw hsize (fun i hi => hi) (fun _ => 0) d hreading k i hk
  rwa [Nat.zero_add] at hbytes

def rockOpenedTwice : Driver :=
  setFile 1 openFile (setFile 0 openFile { startUp rockWorld with activeFiles := fun _ =>
    { entry :=
        { name := fun _ => 0, extension := fun _ => 0, startClusterIndex := 2
          fileSizeInBytes := 4, fileRecordSectorInCluster := 0, fileRecordOffset := 0 }
      currentClusterIndex := 0
      currentSectorInCluster := 0
      currentBytePosition := 0
      inUse := false } })

theorem readThrough_interleaved_rock :
    ((readThrough rockWorld [0, 1, 0]).run rockOpenedTwice).1[2]? = some 0x2c := by
  have hstart := mounted_startUp stays_rockWorld mountable_rockCard.isFormatedAsFat16
  have hmounted : Mounted (volumeOf rockCard) rockOpenedTwice :=
    ⟨hstart.devicePointer, hstart.boot, hstart.start, hstart.buffer⟩
  refine (readThrough_interleaved stays_rockWorld (by decide) hmounted ?_
    (k := 2) (i := 0) rfl).trans (by decide)
  intro i hi
  obtain rfl | rfl | rfl : i = 0 ∨ i = 1 ∨ i = 0 := by simpa using hi
  · exact ⟨by decide, rfl, positioned_openFile _ _⟩
  · exact ⟨by decide, rfl, positioned_openFile _ _⟩
  · exact ⟨by decide, rfl, positioned_openFile _ _⟩

end Interleaving

end RockPaperScissors.SdCardContents
