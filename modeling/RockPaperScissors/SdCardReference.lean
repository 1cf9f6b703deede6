import RockPaperScissors.ReferenceRefinement
import RockPaperScissors.ReferenceStores
import RockPaperScissors.SdCardDirectory
import RockPaperScissors.SdCardLeaks

/-!
The driver under a whole run of `main` against the driver that the program is meant
to see, where a name opens the bytes of its file and a read takes the next of them.
-/

namespace RockPaperScissors.SdCardReference

open RockPaperScissors.Library.StateProgram
open RockPaperScissors.Library.Tokenizer
open RockPaperScissors.MfccMatcher
open RockPaperScissors.ReferenceFile
open RockPaperScissors.WordDecision
open RockPaperScissors.ReferenceRefinement
open RockPaperScissors.ReferenceStores (HoldsFields holdsFields_performStores
  storeTokens_eq_performStores)
open RockPaperScissors.AlteraSdCard
open RockPaperScissors.SdCardRelations
open RockPaperScissors.SdCardHandles
open RockPaperScissors.SdCardLeaks
open RockPaperScissors.SdCardRecognition
open RockPaperScissors.SdCardSession
open RockPaperScissors.SdCardVolume
open RockPaperScissors.SdCardContents
open RockPaperScissors.SdCardDirectory

section Bytes

theorem length_filterMap_range {α : Type*} {f : Nat → Option α} {n : Nat}
    (h : ∀ i < n, (f i).isSome) : ((List.range n).filterMap f).length = n := by
  induction n with
  | zero => rfl
  | succ n ih =>
      obtain ⟨a, ha⟩ := Option.isSome_iff_exists.mp (h n n.lt_succ_self)
      rw [List.range_succ, List.filterMap_append, List.length_append,
        ih fun i hi => h i (hi.trans n.lt_succ_self)]
      simp [ha]

theorem getElem?_filterMap_range {α : Type*} {f : Nat → Option α}
    (hclosed : ∀ {i j}, (f i).isSome → j ≤ i → (f j).isSome) (n k : Nat) :
    ((List.range n).filterMap f)[k]? = if k < n then f k else none := by
  induction n with
  | zero => rfl
  | succ n ih =>
      rw [List.range_succ, List.filterMap_append]
      cases hn : f n with
      | none =>
          have hlast : [n].filterMap f = [] := by simp [hn]
          rw [hlast, List.append_nil, ih]
          rcases Nat.lt_trichotomy k n with hlt | rfl | hgt
          · rw [if_pos hlt, if_pos (hlt.trans n.lt_succ_self)]
          · rw [if_neg (lt_irrefl k), if_pos k.lt_succ_self, hn]
          · rw [if_neg (by omega), if_neg (by omega)]
      | some a =>
          have hlast : [n].filterMap f = [a] := by simp [hn]
          have hlength : ((List.range n).filterMap f).length = n :=
            length_filterMap_range fun i hi => hclosed (by rw [hn]; rfl) hi.le
          rw [hlast]
          rcases Nat.lt_trichotomy k n with hlt | rfl | hgt
          · rw [List.getElem?_append_left (by rwa [hlength]), ih, if_pos hlt,
              if_pos (hlt.trans n.lt_succ_self)]
          · rw [List.getElem?_append_right hlength.le, hlength, if_pos k.lt_succ_self, hn,
              Nat.sub_self]
            rfl
          · rw [List.getElem?_append_right (by omega), hlength, if_neg (by omega)]
            exact List.getElem?_eq_none (by simp; omega)

def fileBytes (v : Volume) (entry : DirectoryEntry) : List (BitVec 8) :=
  (List.range entry.fileSizeInBytes.toNat).filterMap (v.fileByte entry)

theorem getElem?_fileBytes (v : Volume) (entry : DirectoryEntry) (p : Nat) :
    (fileBytes v entry)[p]? = v.fileByte entry p := by
  rw [fileBytes, getElem?_filterMap_range v.fileByte_isSome_of_le]
  split
  · rfl
  · next hend => exact (if_neg fun h => hend h.1).symm

end Bytes

section Drivers

/-- The driver as `main` is meant to see it. -/
def volumeDriver (v : Volume) : SdCardDriver (List (BitVec 8)) where
  fopen name _ :=
    match lookup v name with
    | some i => (0, fileBytes v (rootRecord v i))
    | none => (-1, [])
  read _
    | [] => (-1, [])
    | byte :: bytes => (byte.toNat, bytes)
  fclose _ _ := []

structure Free (v : Volume) (d : Driver) : Prop where
  mounted : Mounted v d
  formated : d.isSdCardFormatedAsFat16 = true
  inUse : ∀ i < maxFilesOpened, (d.activeFiles i).inUse = false

/-- One file is open, in the first slot, and `bytes` are still to be read. -/
structure Delivering (v : Volume) (file : Int) (d : Driver) (bytes : List (BitVec 8)) : Prop where
  file : file = (0 : Nat)
  mounted : Mounted v d
  formated : d.isSdCardFormatedAsFat16 = true
  inUse : (d.activeFiles 0).inUse = true
  others : ∀ i < maxFilesOpened, i ≠ 0 → (d.activeFiles i).inUse = false
  bytes : ∃ p, Positioned v (d.activeFiles 0) p ∧
    bytes = (fileBytes v (d.activeFiles 0).entry).drop p

variable {w : World} {v : Volume}

theorem Free.slot {d : Driver} (h : Free v d) :
    (List.range maxFilesOpened).find? (fun i => !(d.activeFiles i).inUse) = some 0 := by
  have hfirst : (d.activeFiles 0).inUse = false := h.inUse 0 (by decide)
  have hrange : List.range maxFilesOpened = 0 :: List.range' 1 19 := by decide
  rw [hrange, List.find?_cons, hfirst]
  rfl

theorem Free.not_inUseAt {d : Driver} (h : Free v d) (i : Nat) : ¬ InUseAt v i d := by
  rintro ⟨j, hj, huse, -⟩
  exact absurd ((h.inUse j hj).symm.trans huse) Bool.false_ne_true

theorem Free.fopen (hw : Stays w v.card) {d : Driver} (h : Free v d) (name : String) :
    Ensures (fun t => t = d) (fopen w name) fun file t =>
      file = ((volumeDriver v).fopen name []).1 ∧
        (file = -1 → Free v t) ∧
        (file ≠ -1 → Delivering v file t ((volumeDriver v).fopen name []).2) := by
  refine (fopen_steady hw h.mounted h.formated h.slot name).mono (fun _ => id) ?_
  rintro file t ⟨hmissing, hopened⟩
  cases hlookup : lookup v name with
  | none =>
      obtain ⟨rfl, hsearched⟩ := hmissing hlookup
      have hfile : (-1 : Int) = ((volumeDriver v).fopen name []).1 := by
        simp only [volumeDriver, hlookup]
      refine ⟨hfile, fun _ => ⟨hsearched.mounted, hsearched.formated, fun i hi => ?_⟩,
        fun hne => absurd rfl hne⟩
      rcases eq_or_ne i 0 with rfl | hne
      · exact hsearched.inUse.trans (h.inUse 0 hi)
      · exact (congrArg FileRecord.inUse (hsearched.others i hne)).trans (h.inUse i hi)
  | some i =>
      obtain ⟨hfile, hopen⟩ := hopened i hlookup
      rw [if_neg (h.not_inUseAt i)] at hfile
      subst hfile
      have hopened' : (volumeDriver v).fopen name [] = (0, fileBytes v (rootRecord v i)) := by
        simp only [volumeDriver, hlookup]
      rw [hopened']
      refine ⟨rfl, fun h => absurd h (by decide), fun _ => ⟨rfl, hopen.mounted, hopen.formated,
        hopen.inUse, fun j hj hne => ?_, 0, hopen.positioned, ?_⟩⟩
      · exact (congrArg FileRecord.inUse (hopen.others j hne)).trans (h.inUse j hj)
      · rw [hopen.entry]
        rfl

theorem Delivering.read (hw : Stays w v.card) (hsize : 0 < v.clusterSize) {file : Int}
    {d : Driver} {bytes : List (BitVec 8)} (h : Delivering v file d bytes) :
    Ensures (fun t => t = d) (AlteraSdCard.read w file) fun byte t =>
      byte = ((volumeDriver v).read file bytes).1 ∧
        Delivering v file t ((volumeDriver v).read file bytes).2 := by
  obtain ⟨rfl, hmounted, hformated, hinUse, hothers, p, hpositioned, rfl⟩ := h
  refine (read_steady hw hmounted hsize (by decide) hinUse hpositioned).mono (fun _ => id) ?_
  rintro byte t ⟨hbyte, hread⟩
  have hrest : ∀ i < maxFilesOpened, i ≠ 0 → (t.activeFiles i).inUse = false := fun i hi hne =>
    (congrArg FileRecord.inUse (hread.others i hne)).trans (hothers i hi hne)
  have hnext := getElem?_fileBytes v (d.activeFiles 0).entry p
  have hpositioned' := hread.positioned
  cases hfile : v.fileByte (d.activeFiles 0).entry p with
  | none =>
      rw [hfile] at hnext hpositioned'
      have hend : (fileBytes v (d.activeFiles 0).entry).drop p = [] :=
        List.drop_eq_nil_of_le (List.getElem?_eq_none_iff.mp hnext)
      rw [delivered, hfile] at hbyte
      rw [hend]
      refine ⟨hbyte, rfl, hread.mounted, hread.formated.trans hformated,
        hread.inUse.trans hinUse, hrest, p, hpositioned', ?_⟩
      rw [hread.entry, hend]
      rfl
  | some b =>
      rw [hfile] at hnext hpositioned'
      obtain ⟨hlt, hget⟩ := List.getElem?_eq_some_iff.mp hnext
      have hstep : (fileBytes v (d.activeFiles 0).entry).drop p =
          b :: (fileBytes v (d.activeFiles 0).entry).drop (p + 1) := by
        rw [List.drop_eq_getElem_cons hlt, hget]
      rw [delivered, hfile] at hbyte
      rw [hstep]
      refine ⟨hbyte, rfl, hread.mounted, hread.formated.trans hformated,
        hread.inUse.trans hinUse, hrest, p + 1, hpositioned', ?_⟩
      rw [hread.entry]
      rfl

theorem Delivering.fclose (hw : Stays w v.card) {file : Int} {d : Driver}
    {bytes : List (BitVec 8)} (h : Delivering v file d bytes) :
    Ensures (fun t => t = d) (fclose w file) fun _ t => Free v t := by
  obtain ⟨rfl, hmounted, hformated, hinUse, hothers, -⟩ := h
  refine (isPresent_steady hw hmounted.devicePointer).bind fun present => .get_bind ?_
  rintro _ ⟨rfl, n, rfl⟩
  refine .ite (fun _ => .get_bind ?_) fun hflag => absurd hformated hflag
  rintro _ rfl
  refine .ite (fun _ => .modify_bind fun t ht => .pure ?_) fun hslot => ?_
  · rintro _ rfl
    subst ht
    refine ⟨(hmounted.of_looked ⟨n, rfl⟩).setFile 0 _, hformated, fun i hi => ?_⟩
    rcases eq_or_ne i 0 with rfl | hne
    · simp only [setFile, Int.toNat_natCast, Function.update_self]
    · simp only [setFile, Int.toNat_natCast, Function.update_of_ne hne]
      exact hothers i hi hne
  · exact absurd ⟨by decide, hinUse⟩ hslot

/-- The driver does what `main` is meant to see. -/
theorem driverCalls_refines (hw : Stays w v.card) (hsize : 0 < v.clusterSize) :
    Refines (driverCalls w) (volumeDriver v) (fun d _ => Free v d) (Delivering v) where
  fopen hidle := (hidle.fopen hw _ _ rfl).1
  refused := by
    intro name d bytes hidle hrefused
    have hopen := hidle.fopen hw name d rfl
    exact hopen.2.1 (hopen.1.trans hrefused)
  opened := by
    intro name d bytes hidle hopened
    have hopen := hidle.fopen hw name d rfl
    have hdelivering := hopen.2.2 fun h => hopened (hopen.1.symm.trans h)
    rw [hopen.1] at hdelivering
    exact hdelivering
  read hopen := (hopen.read hw hsize _ rfl).1
  moved hopen := (hopen.read hw hsize _ rfl).2
  fclose hopen := hopen.fclose hw _ rfl

end Drivers

section References

variable (v : Volume)

def fileText (entry : DirectoryEntry) : List UInt8 :=
  (fileBytes v entry).map fun byte => UInt8.ofInt byte.toNat

/-- The text of the first file with a name, if the buffer can hold it. -/
def referenceText (name : String) : Option (List UInt8) :=
  ((lookup v name).map fun i => fileText v (rootRecord v i)).filter
    fun text => text.length < bufferLength

theorem readBytes_volumeDriver (file : Int) (room : Nat) (bytes : List (BitVec 8)) :
    (readBytes (volumeDriver v) file room bytes).1 =
        (if bytes.length ≤ room then some (bytes.map fun byte => UInt8.ofInt byte.toNat)
          else none) ∧
      (bytes.length ≤ room → (readBytes (volumeDriver v) file room bytes).2.1 = -1) := by
  have hread : ∀ (byte : BitVec 8) rest,
      (volumeDriver v).read file (byte :: rest) = ((byte.toNat : Int), rest) := fun _ _ => rfl
  have hend : (volumeDriver v).read file [] = (-1, []) := rfl
  have hbyte : ∀ byte : BitVec 8, (byte.toNat : Int) ≥ 0 := fun byte => Int.natCast_nonneg _
  induction room generalizing bytes with
  | zero =>
      cases bytes with
      | nil => simp [readBytes, hend]
      | cons byte bytes => simp [readBytes, hread, hbyte]
  | succ room ih =>
      cases bytes with
      | nil => simp [readBytes, hend]
      | cons byte bytes =>
          obtain ⟨htext, hlast⟩ := ih bytes
          simp only [readBytes, hread, if_pos (hbyte byte), htext, List.length_cons,
            Nat.succ_le_succ_iff]
          refine ⟨?_, hlast⟩
          split <;> rfl

variable {K : Type*} (strtof : List UInt8 → K)

/-- What a call for the reference of a word can be relied on for. -/
structure LoadsFields {σ : Type*} (text : Option (List UInt8)) (output : Nat → K)
    (o : Outcome K σ) : Prop where
  returned : o.returned = text.isSome
  stored : ∀ t, text = some t → o.byte = -1 ∧ o.outputIndex = (fields t).length ∧
    HoldsFields strtof (fields t) output o.output
  kept : text = none → o.output = output

theorem loadsFields_volumeDriver (name : String) (output : Nat → K) (bytes : List (BitVec 8)) :
    LoadsFields strtof (referenceText v name) output
      (getValuesFromSdCardFile (volumeDriver v) strtof name output bytes) := by
  cases hlookup : lookup v name with
  | none =>
      have htext : referenceText v name = none := by rw [referenceText, hlookup]; rfl
      have hopen : (volumeDriver v).fopen name bytes = (-1, []) := by
        simp only [volumeDriver, hlookup]
      rw [htext]
      simp only [getValuesFromSdCardFile, hopen]
      exact ⟨rfl, fun t ht => absurd ht.symm (Option.some_ne_none t), fun _ => rfl⟩
  | some i =>
      have hopen : (volumeDriver v).fopen name bytes = (0, fileBytes v (rootRecord v i)) := by
        simp only [volumeDriver, hlookup]
      have htext : referenceText v name =
          if (fileBytes v (rootRecord v i)).length ≤ bufferLength - 1 then
            some (fileText v (rootRecord v i)) else none := by
        rw [referenceText, hlookup, Option.map_some, Option.filter_some]
        have hlength : (fileText v (rootRecord v i)).length =
            (fileBytes v (rootRecord v i)).length := List.length_map _
        simp only [hlength, decide_eq_true_eq]
        exact if_congr (Nat.lt_iff_le_pred (by decide)) rfl rfl
      obtain ⟨hbuffer, hlast⟩ := readBytes_volumeDriver v 0 (bufferLength - 1)
        (fileBytes v (rootRecord v i))
      have hopened : (0 : Int) ≠ -1 := by decide
      simp only [getValuesFromSdCardFile, hopen, if_neg hopened]
      generalize readBytes (volumeDriver v) 0 _ _ = result at hbuffer hlast ⊢
      obtain ⟨text, last, rest⟩ := result
      rw [htext]
      by_cases hfits : (fileBytes v (rootRecord v i)).length ≤ bufferLength - 1
      · rw [if_pos hfits] at hbuffer ⊢
        obtain rfl : text = some (fileText v (rootRecord v i)) := hbuffer
        refine ⟨rfl, fun t ht => ?_, fun h => absurd h (Option.some_ne_none _)⟩
        obtain rfl := Option.some.inj ht
        refine ⟨hlast hfits, ?_, ?_⟩
        · change (storeTokens strtof _ output 0).2 = _
          rw [storeTokens_snd, Nat.zero_add, tokens_eq_filter]
          rfl
        · change HoldsFields strtof _ output (storeTokens strtof _ output 0).1
          rw [storeTokens_eq_performStores, fields, ← tokens_eq_filter]
          exact holdsFields_performStores strtof _ output
      · rw [if_neg hfits] at hbuffer ⊢
        obtain rfl : text = none := hbuffer
        exact ⟨rfl, fun t ht => absurd ht.symm (Option.some_ne_none t), fun _ => rfl⟩

end References

section Sessions

variable {w : World} {v : Volume} {card : Card}

theorem elementary_free (hw : Stays w v.card) : Elementary w (Keeps (Free v)) where
  look := by
    intro d h
    obtain ⟨-, n, hlooked⟩ := isPresent_steady hw h.mounted.devicePointer d rfl
    rw [hlooked]
    exact ⟨h.mounted.of_looked ⟨n, rfl⟩, h.formated, h.inUse⟩
  transfer sector := by
    intro d h
    obtain ⟨-, n, hloaded⟩ := transfer_steady hw sector d (Looked.refl d)
    rw [hloaded]
    exact ⟨h.mounted.of_loaded ⟨n, rfl⟩, h.formated, h.inUse⟩
  setFile index f hf := by
    intro d h
    refine ⟨h.mounted.setFile index f, h.formated, fun i hi => ?_⟩
    rw [inUse_setFile hf]
    exact h.inUse i hi
  setSearch f := by
    intro d h
    exact ⟨⟨h.mounted.devicePointer, h.mounted.boot, h.mounted.start, h.mounted.buffer⟩,
      h.formated, h.inUse⟩

theorem Free.listed (hw : Stays w v.card) {d : Driver} (h : Free v d) :
    Free v ((listFilesOnSdCard w).run d).2 :=
  along_listFilesOnSdCard (elementary_free hw) d h

theorem free_startUp (hw : Stays w card) (hcard : card.isFormatedAsFat16 = true) :
    Free (volumeOf card) (startUp w) := by
  have hformated := hw.startUp_isSdCardFormatedAsFat16.trans hcard
  have hknown := knownInUseAmong_startUp w
  refine ⟨mounted_startUp hw hcard, hformated, fun i hi => ?_⟩
  rw [← Bool.not_eq_true]
  exact fun huse => hknown.among (hknown.opened.flags.trans hformated) i hi huse

theorem bitsForClusterIndex_of_zero {buffer : Sector} (h : buffer 13 = 0) :
    (bootSectorOf buffer).bitsForClusterIndex = 12 := by
  have hclusters : ∀ sectors total, numClusters 0 sectors total = 0 := by
    intro sectors total
    simp [numClusters]
  simp only [bootSectorOf, h, hclusters]
  rfl

theorem clusterSize_pos (hcard : card.isFormatedAsFat16 = true) :
    0 < (volumeOf card).clusterSize := by
  rw [Card.isFormatedAsFat16, Option.any_eq_true] at hcard
  obtain ⟨start, hstart, hboot⟩ := hcard
  have hbits := beq_iff_eq.mp (Bool.and_eq_true_iff.mp hboot).2
  rw [Nat.pos_iff_ne_zero]
  intro hzero
  have hsectors : card.sectorAt (start * 512) 13 = 0 := by
    have hvolume : (volumeOf card).boot = bootSectorOf (card.sectorAt (start * 512)) := by
      rw [volumeOf, hstart]
      rfl
    rw [Volume.clusterSize, hvolume] at hzero
    exact BitVec.eq_of_toNat_eq hzero
  rw [bitsForClusterIndex_of_zero hsectors] at hbits
  exact absurd hbits (by decide)

variable {K : Type*} [Field K] [LinearOrder K] (strtof : List UInt8 → K) (sqrt : K → K)

/-- An analysis over the files of a volume. -/
def analyseVolume (v : Volume) (l : Locals K) (r : Recording K) : Locals K :=
  (compareWords (volumeDriver v) strtof sqrt r.stack r.mfccBuffer l []).1

theorem analyse_eq (hw : Stays w v.card) (hsize : 0 < v.clusterSize) {m : Locals K × Driver}
    (hm : Free v m.2) (r : Recording K) :
    (analyse w strtof sqrt m r).1 = analyseVolume strtof sqrt v m.1 r ∧
      Free v (analyse w strtof sqrt m r).2 := by
  exact (driverCalls_refines hw hsize).compareWords strtof sqrt r.stack r.mfccBuffer m.1
    (t := []) (hm.listed hw)

theorem foldl_analyse_eq (hw : Stays w v.card) (hsize : 0 < v.clusterSize)
    (recordings : List (Recording K)) {m : Locals K × Driver} (hm : Free v m.2) :
    (recordings.foldl (analyse w strtof sqrt) m).1 =
        recordings.foldl (analyseVolume strtof sqrt v) m.1 ∧
      Free v (recordings.foldl (analyse w strtof sqrt) m).2 := by
  induction recordings generalizing m with
  | nil => exact ⟨rfl, hm⟩
  | cons r recordings ih =>
      obtain ⟨hlocals, hfree⟩ := analyse_eq strtof sqrt hw hsize hm r
      rw [List.foldl_cons, List.foldl_cons, ← hlocals]
      exact ih hfree

theorem free_session (hw : Stays w card) (hcard : card.isFormatedAsFat16 = true)
    (l : Locals K) (recordings : List (Recording K)) :
    Free (volumeOf card) (session w strtof sqrt l recordings).2 :=
  (foldl_analyse_eq strtof sqrt hw (clusterSize_pos hcard) recordings
    (m := (l, startUp w)) (free_startUp hw hcard)).2

def silentRecording : Recording ℚ where
  mfccBuffer _ := 0
  stack _ _ _ := 0

def unsetLocals : Locals ℚ where
  buffer _ _ := 0
  value _ := .nan

end Sessions

end RockPaperScissors.SdCardReference
