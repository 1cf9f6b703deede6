import RockPaperScissors.SdCardListing
import RockPaperScissors.SdCardNames
import RockPaperScissors.SdCardReference

namespace RockPaperScissors.SdCardEnumeration

open RockPaperScissors.Library.StateProgram
open RockPaperScissors.AlteraSdCard
open RockPaperScissors.SdCardRecognition
open RockPaperScissors.SdCardSession
open RockPaperScissors.SdCardListing
open RockPaperScissors.SdCardVolume
open RockPaperScissors.SdCardDirectory
open RockPaperScissors.SdCardNames
open RockPaperScissors.SdCardReference
open RockPaperScissors.WordDecision

section Code

variable (w : World)

/-- The name that the last successful search has copied: its record is still in
the buffer memory. -/
def foundName (d : Driver) : List (BitVec 8) :=
  copyFileRecordNameToString (recordAt d.buffer (d.searchData.fileIndexInSector.toNat * 32)
    d.searchData.currentSectorInCluster)

def printMore : Nat → StateM Driver (List (List (BitVec 8)))
  | 0 => return [foundName (← get)]
  | n + 1 => do
      let name := foundName (← get)
      if (← findNext w) = 0 then return name :: (← printMore n) else return [name]

def printFilesOnSdCard : StateM Driver (List (List (BitVec 8))) := do
  if (← findFirst w) = 0 then
    printMore w (16 * maxRootDirSectors (← get).bootSectorData)
  else return []

theorem printMore_snd (n : Nat) (d : Driver) :
    ((printMore w n).run d).2 = ((listMore w n).run d).2 := by
  induction n generalizing d with
  | zero => rfl
  | succ n ih =>
      change ((if ((findNext w).run d).1 = 0 then _ else _ : StateM Driver _).run _).2 =
        ((if ((findNext w).run d).1 = 0 then _ else _ : StateM Driver Unit).run _).2
      split
      · exact ih ((findNext w).run d).2
      · rfl

theorem printFilesOnSdCard_snd (d : Driver) :
    ((printFilesOnSdCard w).run d).2 = ((listFilesOnSdCard w).run d).2 := by
  change ((if ((findFirst w).run d).1 = 0 then _ else _ : StateM Driver _).run _).2 =
    ((if ((findFirst w).run d).1 = 0 then _ else _ : StateM Driver Unit).run _).2
  split
  · exact printMore_snd w _ ((findFirst w).run d).2
  · rfl

end Code

section Filter

theorem filter_range'_of_find? {p : Nat → Bool} {a n i : Nat}
    (h : (List.range' a n).find? p = some i) :
    (List.range' a n).filter p = i :: (List.range' (i + 1) (a + n - (i + 1))).filter p := by
  induction n generalizing a with
  | zero => exact absurd h (by simp)
  | succ n ih =>
      rw [List.range'_succ, List.find?_cons] at h
      rw [List.range'_succ]
      cases hp : p a with
      | true =>
          rw [hp] at h
          obtain rfl := Option.some.inj h
          have hrest : a + (n + 1) - (a + 1) = n := by omega
          rw [List.filter_cons_of_pos hp, hrest]
      | false =>
          rw [hp] at h
          rw [List.filter_cons_of_neg (by simp [hp]), ih h]
          congr 3
          omega

theorem filter_range'_of_find?_eq_none {p : Nat → Bool} {a n : Nat}
    (h : (List.range' a n).find? p = none) : (List.range' a n).filter p = [] := by
  rw [List.filter_eq_nil_iff]
  exact List.find?_eq_none.mp h

end Filter

section Search

variable {w : World} {v : Volume} {d : Driver}

def isUsed (v : Volume) (i : Nat) : Bool := (rootRecord v i).isFile

structure Kept (v : Volume) (d t : Driver) : Prop where
  mounted : Mounted v t
  formated : t.isSdCardFormatedAsFat16 = true
  searchData : t.searchData = d.searchData

theorem Kept.of_looked {t t' : Driver} (h : Kept v d t) (hlooked : Looked t t') :
    Kept v d t' := by
  have hmounted := h.mounted.of_looked hlooked
  obtain ⟨n, rfl⟩ := hlooked
  exact ⟨hmounted, h.formated, h.searchData⟩

theorem Kept.of_loaded {t t' : Driver} {sector : BitVec 32} (h : Kept v d t)
    (hloaded : Loaded v sector t t') : Kept v d t' := by
  have hmounted := h.mounted.of_loaded hloaded
  obtain ⟨n, rfl⟩ := hloaded
  exact ⟨hmounted, h.formated, h.searchData⟩

/-- The search stands at the record `i`, which is in the buffer memory. -/
structure StandsAt (v : Volume) (i : Nat) (t : Driver) : Prop where
  mounted : Mounted v t
  formated : t.isSdCardFormatedAsFat16 = true
  valid : t.searchData.valid = true
  sector : t.searchData.currentSectorInCluster = i / 16
  fileIndex : t.searchData.fileIndexInSector = (i % 16 : Nat)
  buffer : t.buffer = v.sector (rootSectorIndex v (i / 16))

theorem StandsAt.foundName {i : Nat} {t : Driver} (h : StandsAt v i t) :
    foundName t = copyFileRecordNameToString (rootRecord v i) := by
  rw [SdCardEnumeration.foundName, h.buffer, h.fileIndex, h.sector, rootRecord, Int.toNat_natCast]

structure Ends (v : Volume) (place : Option Nat) (d : Driver) (result : Int) (t : Driver) :
    Prop where
  missing : place = none → result ≠ 0 ∧ Kept v d t
  found : ∀ i, place = some i → result = 0 ∧ StandsAt v i t

theorem nextRecord_steady (hw : Stays w v.card) {s n first : Nat} (hfirst : first + n ≤ 16) :
    Ensures (fun t => Kept v d t ∧ t.buffer = v.sector (rootSectorIndex v s))
      (nextRecord w s n first) fun found t =>
        (Kept v d t ∧ t.buffer = v.sector (rootSectorIndex v s)) ∧
          (List.range' (16 * s + first) n).find? (isUsed v) = found.map (16 * s + ·) := by
  induction n generalizing first with
  | zero => exact .pure fun t ht => ⟨ht, rfl⟩
  | succ n ih =>
      refine .of_eq fun t ht => ?_
      obtain ⟨hkept, hbuffer⟩ := ht
      refine (readFileRecordAtOffset_steady hw hkept.mounted hkept.formated
        (Nat.mul_mod_left first 32) s).bind fun found => .of_eq ?_
      rintro t' ⟨rfl, hlooked⟩
      have hkept' := hkept.of_looked hlooked
      have hbuffer' : t'.buffer = v.sector (rootSectorIndex v s) := by
        obtain ⟨_, rfl⟩ := hlooked
        exact hbuffer
      have hrecord : recordAt t.buffer (first * 32) s = rootRecord v (16 * s + first) := by
        rw [rootRecord_eq v (by omega), hbuffer]
      rw [hrecord, List.range'_succ, List.find?_cons]
      refine .ite (fun hused => .pure ?_) fun hfree => ?_
      · rintro _ rfl
        rw [isUsed, hused]
        exact ⟨⟨hkept', hbuffer'⟩, rfl⟩
      · rw [isUsed, Bool.eq_false_iff.mpr hfree]
        refine (@ih (first + 1) (by omega)).mono ?_ fun _ _ => id
        rintro _ rfl
        exact ⟨hkept', hbuffer'⟩

theorem nextInSectors_steady (hw : Stays w v.card) (hvalid : d.searchData.valid = true)
    {first : Nat} (hfirst : first ≤ 16) (n s : Nat) :
    Ensures (Kept v d) (nextInSectors w n s first)
      (Ends v ((List.range' (16 * s + first) (16 * n - first)).find? (isUsed v)) d) := by
  induction n generalizing s first with
  | zero =>
      rw [Nat.mul_zero, Nat.zero_sub]
      exact .pure fun t ht => ⟨fun _ => ⟨by decide, ht⟩, fun i hi => absurd hi (by simp)⟩
  | succ n ih =>
      refine .of_eq fun t ht => ?_
      have hsplit : List.range' (16 * s + first) (16 * (n + 1) - first) =
          List.range' (16 * s + first) (16 - first) ++ List.range' (16 * (s + 1) + 0) (16 * n - 0) := by
        have hlength : 16 * (n + 1) - first = 16 - first + 16 * n := by omega
        have hnext : 16 * (s + 1) = 16 * s + first + (16 - first) := by omega
        rw [hlength, ← List.range'_append_1, ← hnext]
        rfl
      rw [hsplit, List.find?_append]
      refine (readRootDirSector_steady hw ht.mounted s).bind fun done => .of_eq ?_
      rintro t' ⟨rfl, hloaded⟩
      have hbuffer : t'.buffer = v.sector (rootSectorIndex v s) := by
        obtain ⟨_, rfl⟩ := hloaded
        rfl
      refine .ite (fun _ => ?_) fun h => absurd rfl h
      have hrecord := nextRecord_steady (d := d) (s := s) hw (Nat.add_sub_cancel' hfirst).le
      refine (hrecord.mono ?_ fun _ _ => id).bind fun found => .of_eq fun t'' ht'' => ?_
      · rintro _ rfl
        exact ⟨ht.of_loaded hloaded, hbuffer⟩
      · obtain ⟨⟨hkept, hbuffer''⟩, hfind⟩ := ht''
        rw [hfind]
        cases found with
        | none =>
            rw [Option.map_none, Option.none_or]
            exact (ih (Nat.zero_le 16) (s + 1)).mono (fun _ h => h ▸ hkept) fun _ _ => id
        | some k =>
            have hk : k < 16 := by
              have hmem : 16 * s + k ∈ List.range' (16 * s + first) (16 - first) :=
                List.mem_of_find?_eq_some hfind
              rw [List.mem_range'_1] at hmem
              omega
            have hdiv : (16 * s + k) / 16 = s := by omega
            have hmod : (16 * s + k) % 16 = k := by omega
            refine .modify_bind fun u hu => .pure ?_
            rintro _ rfl
            subst hu
            refine ⟨fun h => absurd h (Option.some_ne_none _), fun i hi => ?_⟩
            obtain rfl := Option.some.inj hi
            refine ⟨rfl, ⟨hkept.mounted.devicePointer, hkept.mounted.boot, hkept.mounted.start,
              hkept.mounted.buffer⟩, hkept.formated, ?_, hdiv.symm, ?_, ?_⟩
            · exact (congrArg FindData.valid hkept.searchData).trans hvalid
            · rw [hmod]
            · rw [hdiv]
              exact hbuffer''

theorem findNext_steady (hw : Stays w v.card) (hd : Kept v d d)
    (hvalid : d.searchData.valid = true) (hcounter : fileCounter d ≤ 16) :
    Ensures (fun t => t = d) (findNext w)
      (Ends v ((List.range' (passed d) (rootSize v - passed d)).find? (isUsed v)) d) := by
  refine (isPresent_steady hw hd.mounted.devicePointer).bind fun present => .get_bind ?_
  rintro t ⟨rfl, hlooked⟩
  have hkept := hd.of_looked hlooked
  have hsearch := hkept.searchData
  refine .ite (fun _ => .get_bind ?_) fun h => absurd hkept.formated h
  rintro _ rfl
  refine .ite (fun _ => ?_) fun h => absurd (by rw [hsearch]; exact hvalid) h
  have hnext := nextInSectors_steady (d := d) hw hvalid hcounter
    (maxRootDirSectors v.boot - d.searchData.currentSectorInCluster)
    d.searchData.currentSectorInCluster
  have hrest : 16 * (maxRootDirSectors v.boot - d.searchData.currentSectorInCluster) -
      fileCounter d = rootSize v - passed d := by
    rw [rootSize, passed]
    omega
  rw [hrest] at hnext
  rw [hkept.mounted.boot, hsearch]
  exact hnext.mono (fun _ h => h ▸ hkept) fun _ _ => id

theorem StandsAt.passed {i : Nat} (h : StandsAt v i d) : passed d = i + 1 ∧ fileCounter d ≤ 16 := by
  have hcounter : fileCounter d = i % 16 + 1 := by
    rw [fileCounter, h.fileIndex]
    omega
  rw [SdCardListing.passed, hcounter, h.sector]
  omega

theorem printMore_steady (hw : Stays w v.card) {n i : Nat} (hd : StandsAt v i d)
    (hn : rootSize v ≤ n + (i + 1)) :
    Ensures (fun t => t = d) (printMore w n) fun names _ =>
      names = (i :: (List.range' (i + 1) (rootSize v - (i + 1))).filter (isUsed v)).map
        fun j => copyFileRecordNameToString (rootRecord v j) := by
  induction n generalizing i d with
  | zero =>
      have hlast : rootSize v - (i + 1) = 0 := by omega
      refine .get_bind ?_
      rintro t rfl
      refine .pure fun _ _ => ?_
      rw [hd.foundName, hlast]
      rfl
  | succ n ih =>
      refine .get_bind ?_
      rintro t rfl
      obtain ⟨hpassed, hcounter⟩ := hd.passed
      have hnext := findNext_steady hw ⟨hd.mounted, hd.formated, rfl⟩ hd.valid hcounter
      rw [hpassed] at hnext
      refine hnext.bind fun result => .of_eq fun t' ht' => ?_
      cases hfind : (List.range' (i + 1) (rootSize v - (i + 1))).find? (isUsed v) with
      | none =>
          rw [hfind] at ht'
          refine .ite (fun h => absurd h (ht'.missing rfl).1) fun _ => .pure fun _ _ => ?_
          rw [filter_range'_of_find?_eq_none hfind, hd.foundName]
          rfl
      | some j =>
          rw [hfind] at ht'
          obtain ⟨hresult, hstands⟩ := ht'.found j rfl
          have hj := List.mem_of_find?_eq_some hfind
          rw [List.mem_range'_1] at hj
          refine .ite (fun _ => ?_) fun h => absurd hresult h
          refine (ih hstands (by omega)).bind fun names => .pure ?_
          rintro _ rfl
          have hend : i + 1 + (rootSize v - (i + 1)) = rootSize v := by omega
          rw [filter_range'_of_find? hfind, hend, hd.foundName]
          rfl

theorem findFirst_steady (hw : Stays w v.card) (hd : Mounted v d)
    (hformated : d.isSdCardFormatedAsFat16 = true) :
    Ensures (fun t => t = d) (findFirst w) fun result t =>
      ((List.range' 0 (rootSize v)).find? (isUsed v) = none → result ≠ 0) ∧
        ∀ i, (List.range' 0 (rootSize v)).find? (isUsed v) = some i →
          result = 0 ∧ StandsAt v i t := by
  refine (isPresent_steady hw hd.devicePointer).bind fun present => .get_bind ?_
  rintro _ ⟨rfl, n, rfl⟩
  refine .ite (fun _ => ?_) fun h => absurd hformated h
  apply Ensures.modify_bind
  rintro _ rfl
  refine .of_eq fun t ht => ?_
  have hmounted : Mounted v t := by
    rw [ht]
    exact ⟨hd.devicePointer, hd.boot, hd.start, hd.buffer⟩
  have hformated' : t.isSdCardFormatedAsFat16 = true := by
    rw [ht]
    exact hformated
  have hpassed : passed t = 0 ∧ fileCounter t ≤ 16 ∧ t.searchData.valid = true := by
    rw [ht]
    exact ⟨rfl, Nat.zero_le 16, rfl⟩
  have hnext := findNext_steady hw ⟨hmounted, hformated', rfl⟩ hpassed.2.2 hpassed.2.1
  rw [hpassed.1, Nat.sub_zero] at hnext
  exact hnext.mono (fun _ => id) fun result t' h =>
    ⟨fun hnone => (h.missing hnone).1, h.found⟩

def fileNames (v : Volume) : List (List (BitVec 8)) :=
  ((List.range (rootSize v)).filter (isUsed v)).map
    fun i => copyFileRecordNameToString (rootRecord v i)

theorem printFilesOnSdCard_steady (hw : Stays w v.card) (hd : Mounted v d)
    (hformated : d.isSdCardFormatedAsFat16 = true) :
    Ensures (fun t => t = d) (printFilesOnSdCard w) fun names _ => names = fileNames v := by
  rw [fileNames, List.range_eq_range']
  refine (findFirst_steady hw hd hformated).bind fun result => .of_eq fun t ht => ?_
  cases hfind : (List.range' 0 (rootSize v)).find? (isUsed v) with
  | none =>
      refine .ite (fun h => absurd h (ht.1 hfind)) fun _ => .pure fun _ _ => ?_
      rw [filter_range'_of_find?_eq_none hfind]
      rfl
  | some i =>
      obtain ⟨hresult, hstands⟩ := ht.2 i hfind
      refine .ite (fun _ => .get_bind ?_) fun h => absurd hresult h
      rintro _ rfl
      rw [filter_range'_of_find? hfind, Nat.zero_add, hstands.mounted.boot]
      exact printMore_steady hw hstands (Nat.le_add_right _ _)

end Search

section Sessions

variable {w : World} {card : Card} {K : Type*} [Field K] [LinearOrder K]

def rockName : ShortName where
  base := [0x52, 0x4f, 0x43, 0x4b]
  extension := [0x54, 0x58, 0x54]
  base_ne_nil := by decide
  base_le := by decide
  extension_le := by decide
  base_plain := by decide
  extension_plain := by decide

end Sessions

end RockPaperScissors.SdCardEnumeration
