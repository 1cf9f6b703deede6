import RockPaperScissors.SdCardHandles

namespace RockPaperScissors.SdCardLeaks

open RockPaperScissors.Library.StateProgram
open RockPaperScissors.ReferenceFile
open RockPaperScissors.WordDecision
open RockPaperScissors.AlteraSdCard
open RockPaperScissors.SdCardRelations
open RockPaperScissors.SdCardSession
open RockPaperScissors.SdCardHandles

/-- The slots in use are among `slots`, and none is once the card is forgotten. -/
structure Settled (slots : Set Nat) (d : Driver) : Prop where
  opened : Opened d
  among : InUseAmong slots d
  forgotten : d.initialized = false → InUseAmong ∅ d

theorem Settled.known {slots : Set Nat} {d : Driver} (h : Settled slots d) :
    KnownInUseAmong slots d :=
  ⟨h.opened, fun _ => h.among⟩

theorem settled_empty {d : Driver} (hopened : Opened d) (hfree : InUseAmong ∅ d) :
    Settled ∅ d :=
  ⟨hopened, hfree, fun _ => hfree⟩

variable (w : World)

/-- No slot is in use once the card is forgotten. -/
def FreeOnceForgotten (d : Driver) : Prop := d.initialized = false → InUseAmong ∅ d

theorem elementary_freeOnceForgotten : Elementary w (Keeps FreeOnceForgotten) where
  look := by
    intro d h
    change (isPresent w d).2.initialized = false → InUseAmong ∅ (isPresent w d).2
    simp only [isPresent]
    split_ifs
    · exact h
    · exact fun _ => .clearActiveFiles ∅ _
    · exact h
  transfer sector := by
    intro d h
    change (transfer w sector d).2.initialized = false → InUseAmong ∅ (transfer w sector d).2
    rw [transfer]
    split
    · split <;> exact h
    · exact h
  setFile index f hf d h hforgotten :=
    (elementary_inUseAmong w ∅).setFile index f hf d (h hforgotten)
  setSearch _ _ h := h

theorem elementary_settled (slots : Set Nat) : Elementary w (Keeps (Settled slots)) where
  look d h :=
    ⟨(elementary_keepsOpened w).look d h.opened, (elementary_inUseAmong w slots).look d h.among,
      (elementary_freeOnceForgotten w).look d h.forgotten⟩
  transfer sector d h :=
    ⟨(elementary_keepsOpened w).transfer sector d h.opened,
      (elementary_inUseAmong w slots).transfer sector d h.among,
      (elementary_freeOnceForgotten w).transfer sector d h.forgotten⟩
  setFile index f hf d h :=
    ⟨(elementary_keepsOpened w).setFile index f hf d h.opened,
      (elementary_inUseAmong w slots).setFile index f hf d h.among,
      (elementary_freeOnceForgotten w).setFile index f hf d h.forgotten⟩
  setSearch _ _ h := ⟨⟨h.opened.devicePointer, h.opened.flags⟩, h.among, h.forgotten⟩

section Search

def Matches (index : Nat) (name extension : Nat → BitVec 8) (d : Driver) : Bool :=
  (d.activeFiles index).entry.isFile &&
    matchFileRecordToNameExt (d.activeFiles index).entry name extension

variable {index : Nat} {name extension : Nat → BitVec 8}

theorem entry_isPresent (d : Driver) (i : Nat) :
    ((isPresent w d).2.activeFiles i).entry = (d.activeFiles i).entry := by
  simp only [isPresent]
  split_ifs
  · rfl
  · simp only [clearActiveFiles]
    split <;> rfl
  · rfl

theorem matches_isPresent (d : Driver) :
    Matches index name extension (isPresent w d).2 = Matches index name extension d := by
  rw [Matches, Matches, entry_isPresent]

theorem matches_transfer (sector : BitVec 32) (d : Driver) :
    Matches index name extension (transfer w sector d).2 = Matches index name extension d := by
  rw [transfer]
  split
  · split <;> rfl
  · rfl

def Mismatch (index : Nat) (name extension : Nat → BitVec 8) (d : Driver) : Prop :=
  Matches index name extension d = false

theorem mismatch_look :
    Ensures (Mismatch index name extension) (isPresent w) fun _ =>
      Mismatch index name extension := by
  intro d hd
  exact (matches_isPresent w d).trans hd

theorem mismatch_readRootDirSector (sectorIndex : Nat) :
    Ensures (Mismatch index name extension) (readRootDirSector w sectorIndex) fun _ =>
      Mismatch index name extension := by
  refine .get_bind fun d hd => ?_
  refine Ensures.mono ?_ (fun t ht => (ht ▸ hd : Mismatch index name extension t))
    fun _ _ => id
  refine (mismatch_look w).bind fun present => .ite (fun _ => ?_) fun _ => .pure fun _ => id
  intro t ht
  exact (matches_transfer w _ t).trans ht

theorem mismatch_readFileRecordAtOffset (offset sectorInCluster : Nat) :
    Ensures (Mismatch index name extension) (readFileRecordAtOffset w offset sectorInCluster)
      fun found d => Mismatch index name extension d ∧
        (found.isSome = true → d.isSdCardFormatedAsFat16 = true) := by
  refine .ite (fun _ => ?_) fun _ => .pure fun d hd => ⟨hd, by simp⟩
  refine (mismatch_look w).bind fun present => .get_bind fun d hd => .ite (fun hflag => ?_)
    fun _ => ?_
  · refine .get_bind ?_
    rintro d rfl
    apply Ensures.pure
    rintro d rfl
    exact ⟨hd, fun _ => (Bool.and_eq_true_iff.mp hflag).2⟩
  · apply Ensures.pure
    rintro d rfl
    exact ⟨hd, by simp⟩

/-- After a record that does not match, one that matches has been read. -/
theorem findRecord_of_mismatch (sectorIndex n fileCounter : Nat) :
    Ensures (Mismatch index name extension)
      (findRecord w index sectorIndex name extension n fileCounter) fun found d =>
        (found = true → d.isSdCardFormatedAsFat16 = true) ∧
          (found = false → Mismatch index name extension d) := by
  induction n generalizing fileCounter with
  | zero => exact .pure fun d hd => ⟨by simp, fun _ => hd⟩
  | succ n ih =>
      refine (mismatch_readFileRecordAtOffset w _ sectorIndex).bind fun entry =>
        .modify_bind fun d hd => .get_bind ?_
      rintro t rfl
      refine .ite (fun hmatch => ?_) fun hno => ?_
      · apply Ensures.pure
        rintro t rfl
        refine ⟨fun _ => ?_, by simp⟩
        cases entry with
        | none => exact absurd (hd.1.symm.trans hmatch) Bool.false_ne_true
        | some entry => exact hd.2 rfl
      · refine (ih (fileCounter + 1)).mono ?_ fun _ _ => id
        rintro t rfl
        exact Bool.eq_false_iff.mpr hno

/-- The search goes on in the next sectors only from a record that does not match. -/
theorem searchOn {P : Driver → Prop} {sectorIndex n : Nat}
    (hrecord : Ensures P (findRecord w index sectorIndex name extension 16 0) fun found d =>
      (found = true → d.isSdCardFormatedAsFat16 = true) ∧
        (found = false → Mismatch index name extension d))
    (hlater : Ensures (Mismatch index name extension)
      (findInSectors w index name extension n (sectorIndex + 1)) fun found d =>
        found = true → d.isSdCardFormatedAsFat16 = true) :
    Ensures P (do
      if ← findRecord w index sectorIndex name extension 16 0 then return true
      else findInSectors w index name extension n (sectorIndex + 1)) fun found d =>
        found = true → d.isSdCardFormatedAsFat16 = true := by
  refine hrecord.bind fun found => ?_
  cases found with
  | true => exact .ite (fun _ => .pure fun d hd => hd.1) fun h => absurd rfl h
  | false =>
      refine .ite (fun h => absurd h Bool.false_ne_true) fun _ => ?_
      exact hlater.mono (fun d hd => hd.2 rfl) fun _ _ => id

theorem findInSectors_of_mismatch (n sectorIndex : Nat) :
    Ensures (Mismatch index name extension)
      (findInSectors w index name extension n sectorIndex) fun found d =>
        found = true → d.isSdCardFormatedAsFat16 = true := by
  induction n generalizing sectorIndex with
  | zero => exact .pure fun d _ => by simp
  | succ n ih =>
      refine (mismatch_readRootDirSector w sectorIndex).bind fun present =>
        .ite (fun _ => ?_) fun _ => .pure fun d _ => by simp
      exact searchOn w (findRecord_of_mismatch w sectorIndex 16 0) (ih (sectorIndex + 1))

def lookedAt (d : Driver) : Driver := { d with looks := d.looks + 1 }

theorem isPresent_eq_false {d : Driver} (hslot : (w.slot d.looks).isSome = false) :
    (isPresent w d).1 = false := by
  simp only [isPresent, hslot, Bool.and_false, Bool.false_eq_true, if_false]
  split_ifs <;> rfl

theorem isPresent_of_isSome {d : Driver} (hopen : d.devicePointer = true)
    (hslot : (w.slot d.looks).isSome = true) : isPresent w d = (true, lookedAt d) := by
  simp [isPresent, hopen, hslot, lookedAt]

theorem look_of_isSome {d : Driver} (hopen : d.devicePointer = true)
    (hslot : (w.slot d.looks).isSome = true) :
    Ensures (fun t => t = d) (isPresent w) fun present t => present = true ∧ t = lookedAt d := by
  rintro t rfl
  have hrun := isPresent_of_isSome w hopen hslot
  exact ⟨congrArg Prod.fst hrun, congrArg Prod.snd hrun⟩

theorem run_readRootDirSector {d : Driver} {card : Card} (hopen : d.devicePointer = true)
    (hslot : w.slot d.looks = some card) (sectorIndex : Nat) :
    ∃ sector, (readRootDirSector w sectorIndex).run d =
      if w.timesOut d.looks then (false, lookedAt d)
      else (true, { lookedAt d with
        buffer := card.sectorAt (sector * 512)
        currentSectorIndex := sector }) := by
  have hrun : isPresent w d = (true, lookedAt d) := isPresent_of_isSome w hopen (by simp [hslot])
  have hlast : (lookedAt d).looks - 1 = d.looks := Nat.add_sub_cancel _ _
  refine ⟨BitVec.ofNat 32 sectorIndex + d.bootSectorData.rootDirectorySectorOffset +
    d.fatPartitionOffset, ?_⟩
  change (if (isPresent w d).1 then transfer w _ else pure false) (isPresent w d).2 = _
  rw [hrun, if_pos rfl, transfer, hlast, hslot]

theorem readRootDirSector_of_none {d : Driver} (hslot : w.slot d.looks = none)
    (sectorIndex : Nat) : ((readRootDirSector w sectorIndex).run d).1 = false := by
  have habsent : (isPresent w d).1 = false := isPresent_eq_false w (by simp [hslot])
  change ((if (isPresent w d).1 then transfer w _ else pure false) (isPresent w d).2).1 = false
  rw [habsent, if_neg Bool.false_ne_true]
  rfl

theorem readRootDirSector_eq_true {d : Driver} (hopen : d.devicePointer = true)
    (sectorIndex : Nat) :
    Ensures (fun t => t = d) (readRootDirSector w sectorIndex) fun found t =>
      found = true → (w.slot d.looks).isSome = true ∧ w.timesOut d.looks = false ∧
        t.looks = d.looks + 1 ∧ t.devicePointer = true ∧
        t.isSdCardFormatedAsFat16 = d.isSdCardFormatedAsFat16 := by
  rintro t rfl
  cases hslot : w.slot t.looks with
  | none =>
      intro hfound
      rw [readRootDirSector_of_none w hslot] at hfound
      cases hfound
  | some card =>
      obtain ⟨sector, hrun⟩ := run_readRootDirSector w hopen hslot sectorIndex
      rw [hrun]
      split_ifs with htime
      · exact False.elim
      · exact fun _ => ⟨rfl, Bool.eq_false_iff.mpr htime, rfl, hopen, rfl⟩

theorem findRecord_of_present {d : Driver} (hopen : d.devicePointer = true)
    (hflag : d.isSdCardFormatedAsFat16 = true) (hslot : (w.slot d.looks).isSome = true)
    (sectorIndex n fileCounter : Nat) :
    Ensures (fun t => t = d)
      (findRecord w index sectorIndex name extension (n + 1) fileCounter) fun found t =>
        (found = true → t.isSdCardFormatedAsFat16 = true) ∧
          (found = false → Mismatch index name extension t) := by
  have hread : Ensures (fun t => t = d)
      (readFileRecordAtOffset w (fileCounter * 32) sectorIndex) fun found t =>
        found.isSome = true ∧ t.isSdCardFormatedAsFat16 = true := by
    refine .ite (fun _ => ?_) fun h => absurd (Nat.mul_mod_left _ _) h
    refine (look_of_isSome w hopen hslot).bind fun present => .get_bind fun t ht =>
      .ite (fun _ => .get_bind ?_) fun hnot => ?_
    · rintro t rfl
      apply Ensures.pure
      rintro t rfl
      exact ⟨rfl, ht.2 ▸ hflag⟩
    · exact absurd (by rw [ht.1, ht.2]; exact hflag) hnot
  refine hread.bind fun entry => .modify_bind fun t ht => .get_bind ?_
  rintro u rfl
  refine .ite (fun hmatch => ?_) fun hno => ?_
  · apply Ensures.pure
    rintro u rfl
    refine ⟨fun _ => ?_, by simp⟩
    cases entry with
    | none => exact ht.2
    | some entry => exact ht.2
  · refine (findRecord_of_mismatch w sectorIndex n (fileCounter + 1)).mono ?_ fun _ _ => id
    rintro u rfl
    exact Bool.eq_false_iff.mpr hno

end Search

def upperCase (name : String) : List (BitVec 8) :=
  name.toList.map fun c => charToUpper (BitVec.ofNat 8 c.toNat)

/-- The card is taken out between the look for the first sector of the root
directory and the look for its first record, and the record that was read last
into slot 0 is the one that is asked for now. -/
structure StaleMatch (name : String) (d : Driver) : Prop where
  flag : d.isSdCardFormatedAsFat16 = true
  compliant : checkFileNameForFat16Compliance (upperCase name) = true
  sectors : 0 < maxRootDirSectors d.bootSectorData
  opening : (w.slot d.looks).isSome = true
  sectorLook : (w.slot (d.looks + 1)).isSome = true
  sectorRead : w.timesOut (d.looks + 1) = false
  recordLook : w.slot (d.looks + 2) = none
  stale : Matches 0 (nameAndExtension (upperCase name)).1
    (nameAndExtension (upperCase name)).2 d = true

section Opening

variable {w} {name : String} {d : Driver}

/-- The record found by a search has been read in this search, unless the
search has met the stale one. -/
theorem findFileInDirectory_eq_true (fileName : List (BitVec 8)) (hopen : d.devicePointer = true)
    (hflag : d.isSdCardFormatedAsFat16 = true)
    (hstale : ¬ (w.timesOut d.looks = false ∧ w.slot (d.looks + 1) = none ∧
      (w.slot d.looks).isSome = true ∧ 0 < maxRootDirSectors d.bootSectorData ∧
      Matches 0 (nameAndExtension fileName).1 (nameAndExtension fileName).2 d = true)) :
    Ensures (fun t => t = d) (findFileInDirectory w fileName 0) fun found t =>
      found = true → t.isSdCardFormatedAsFat16 = true := by
  refine .get_bind ?_
  rintro t rfl
  cases hmatch : Matches 0 (nameAndExtension fileName).1 (nameAndExtension fileName).2 t with
  | false =>
      refine (findInSectors_of_mismatch w _ 0).mono ?_ fun _ _ => id
      rintro t rfl
      exact hmatch
  | true =>
      cases hsectors : maxRootDirSectors t.bootSectorData with
      | zero => exact .pure fun _ _ h => absurd h Bool.false_ne_true
      | succ n =>
          refine (readRootDirSector_eq_true w hopen 0).bind fun found =>
            .ite (fun hfound => ?_) fun _ => .pure fun _ _ h => absurd h Bool.false_ne_true
          refine .of_eq fun u hu => ?_
          obtain ⟨hslot, htime, hlooks, huopen, huflag⟩ := hu hfound
          have hthere : (w.slot u.looks).isSome = true := by
            rw [hlooks, Option.isSome_iff_ne_none]
            intro hnone
            exact hstale ⟨htime, hnone, hslot, by omega, hmatch⟩
          have hrecord := @findRecord_of_present w 0 (nameAndExtension fileName).1
            (nameAndExtension fileName).2 u huopen (huflag.trans hflag) hthere 0 15 0
          exact searchOn w hrecord (findInSectors_of_mismatch w n 1)

theorem find_free_slot (h : InUseAmong ∅ d) :
    (List.range maxFilesOpened).find? (fun i => !(d.activeFiles i).inUse) = some 0 := by
  have hfree : (d.activeFiles 0).inUse = false := by
    rw [← Bool.not_eq_true]
    exact h 0 (by decide)
  have hrange : List.range maxFilesOpened = 0 :: (List.range 19).map Nat.succ :=
    List.range_succ_eq_map
  rw [hrange, List.find?_cons_of_pos (by simp [hfree])]

theorem look_of_settled (hd : Settled ∅ d) :
    Ensures (fun t => t = d) (isPresent w) fun present t => Settled ∅ t ∧
      (present = true → (w.slot d.looks).isSome = true ∧ t = lookedAt d) := by
  rintro t rfl
  refine ⟨(elementary_settled w ∅).look t hd, fun hpresent => ?_⟩
  cases hslot : (w.slot t.looks).isSome with
  | true => exact ⟨rfl, (look_of_isSome w hd.opened.devicePointer hslot t rfl).2⟩
  | false =>
      have habsent := isPresent_eq_false w hslot
      exact absurd (habsent.symm.trans hpresent) Bool.false_ne_true

theorem settled_openFile (h : Settled ∅ d) (hflag : d.isSdCardFormatedAsFat16 = true) :
    Settled {0} (setFile 0 openFile d) where
  opened := ⟨h.opened.devicePointer, h.opened.flags⟩
  among := inUseAmong_openFile h.among
  forgotten hforgotten :=
    absurd (hforgotten.symm.trans (h.opened.flags.trans hflag)) Bool.false_ne_true

theorem fopen_of_settled (hd : Settled ∅ d) (hstale : ¬ StaleMatch w name d) :
    Ensures (fun t => t = d) (fopen w name) fun file t =>
      file = -1 ∧ Settled ∅ t ∨
        ∃ index : Nat, index < maxFilesOpened ∧ file = index ∧ Settled {index} t := by
  have hrefused : ∀ {P : Driver → Prop}, (∀ t, P t → Settled ∅ t) →
      Ensures P (pure (-1) : StateM Driver Int) fun file t =>
        file = -1 ∧ Settled ∅ t ∨
          ∃ index : Nat, index < maxFilesOpened ∧ file = index ∧ Settled {index} t :=
    fun hP => .pure fun t ht => Or.inl ⟨rfl, hP t ht⟩
  refine (look_of_settled hd).bind fun present => .get_bind fun t ht => ?_
  refine .ite (fun hflag => .ite (fun hcompliant => .get_bind ?_) fun _ => hrefused ?_)
    fun _ => hrefused ?_
  · rintro t rfl
    obtain ⟨hpresent, hflag⟩ := Bool.and_eq_true_iff.mp hflag
    obtain ⟨hslot, rfl⟩ := ht.2 hpresent
    rw [find_free_slot ht.1.among]
    have hsearch : Ensures (fun t => t = lookedAt d)
        (findFileInDirectory w (upperCase name) 0) fun found t =>
          Settled ∅ t ∧ (found = true → t.isSdCardFormatedAsFat16 = true) := by
      have hfound := findFileInDirectory_eq_true (w := w) (upperCase name)
        ht.1.opened.devicePointer hflag ?_
      · rintro t rfl
        exact ⟨along_findFileInDirectory (elementary_settled w ∅) _ 0 _ ht.1, hfound _ rfl⟩
      · rintro ⟨htime, hnone, hthere, hsectors, hmatch⟩
        exact hstale ⟨hflag, hcompliant, hsectors, hslot, hthere, htime, hnone, hmatch⟩
    refine hsearch.bind fun found => .ite (fun hfound => .modify_bind fun t ht => ?_) fun _ =>
      hrefused fun t ht => ht.1
    have hopen := settled_openFile ht.1 (ht.2 hfound)
    refine .get_bind ?_
    rintro u rfl
    apply Ensures.pure
    rintro u rfl
    refine Or.inr ⟨0, by decide, ?_, hopen⟩
    rw [openedBefore_eq_false hopen.among]
    rfl
  · rintro t rfl
    exact ht.1
  · rintro t rfl
    exact ht.1

end Opening

section Leak

/-- The card is forgotten and slot 0 is in use nevertheless. -/
structure Lost (d : Driver) : Prop where
  initialized : d.initialized = false
  flag : d.isSdCardFormatedAsFat16 = false
  inUse : (d.activeFiles 0).inUse = true

theorem elementary_lost : Elementary w (Keeps Lost) where
  look := by
    intro d h
    change Lost (isPresent w d).2
    simp only [isPresent]
    split_ifs with hpresent hknown
    · exact ⟨h.initialized, h.flag, h.inUse⟩
    · exact absurd (h.initialized.symm.trans hknown) Bool.false_ne_true
    · exact ⟨h.initialized, h.flag, h.inUse⟩
  transfer sector := by
    intro d h
    change Lost (transfer w sector d).2
    rw [transfer]
    split
    · split <;> exact ⟨h.initialized, h.flag, h.inUse⟩
    · exact h
  setFile index f hf d h := ⟨h.initialized, h.flag, (inUse_setFile hf d 0).trans h.inUse⟩
  setSearch _ _ h := ⟨h.initialized, h.flag, h.inUse⟩

theorem fclose_of_lost (file : Int) : Ensures Lost (fclose w file) fun _ => Lost := by
  refine (elementary_lost w).look.ensures_of_keeps.bind fun present => .get_bind fun d hd =>
    .ite (fun hflag => ?_) fun _ => .pure ?_
  · exact absurd (hd.flag.symm.trans (Bool.and_eq_true_iff.mp hflag).2) Bool.false_ne_true
  · rintro d rfl
    exact hd

variable {w} {name : String} {d : Driver}

theorem forget_of_none (hknown : d.initialized = true) (hslot : w.slot d.looks = none) :
    Ensures (fun t => t = d) (isPresent w) fun present t =>
      present = false ∧ t.initialized = false ∧ t.isSdCardFormatedAsFat16 = false := by
  rintro t rfl
  refine ⟨isPresent_eq_false w (by simp [hslot]), ?_⟩
  change (isPresent w t).2.initialized = false ∧
    (isPresent w t).2.isSdCardFormatedAsFat16 = false
  simp [isPresent, hslot, hknown, clearActiveFiles]

theorem findRecord_of_stale {index : Nat} {name extension : Nat → BitVec 8}
    (hknown : d.initialized = true) (hslot : w.slot d.looks = none)
    (hmatch : Matches index name extension d = true) (sectorIndex n fileCounter : Nat) :
    Ensures (fun t => t = d)
      (findRecord w index sectorIndex name extension (n + 1) fileCounter) fun found t =>
        found = true ∧ t.initialized = false ∧ t.isSdCardFormatedAsFat16 = false := by
  have hlook : Ensures (fun t => t = d) (isPresent w) fun present t =>
      (present = false ∧ t.initialized = false ∧ t.isSdCardFormatedAsFat16 = false) ∧
        Matches index name extension t = true := by
    rintro t rfl
    exact ⟨forget_of_none hknown hslot t rfl, (matches_isPresent w t).trans hmatch⟩
  have hread : Ensures (fun t => t = d)
      (readFileRecordAtOffset w (fileCounter * 32) sectorIndex) fun found t =>
        found = none ∧ (t.initialized = false ∧ t.isSdCardFormatedAsFat16 = false) ∧
          Matches index name extension t = true := by
    refine .ite (fun _ => ?_) fun h => absurd (Nat.mul_mod_left _ _) h
    refine hlook.bind fun present => .get_bind fun t ht => .ite (fun hflag => ?_) fun _ => ?_
    · exact absurd (ht.1.1.symm.trans (Bool.and_eq_true_iff.mp hflag).1) Bool.false_ne_true
    · apply Ensures.pure
      rintro t rfl
      exact ⟨rfl, ht.1.2, ht.2⟩
  refine hread.bind fun entry => .modify_bind fun t ht => .get_bind ?_
  rintro u rfl
  obtain ⟨rfl, hforgotten, hmatch⟩ := ht
  refine .ite (fun _ => ?_) fun hno => absurd hmatch hno
  apply Ensures.pure
  rintro u rfl
  exact ⟨rfl, hforgotten⟩

theorem readRootDirSector_of_some (hopen : d.devicePointer = true)
    (hslot : (w.slot d.looks).isSome = true) (htime : w.timesOut d.looks = false)
    (sectorIndex : Nat) :
    Ensures (fun t => t = d) (readRootDirSector w sectorIndex) fun found t =>
      found = true ∧ t.looks = d.looks + 1 ∧ t.initialized = d.initialized ∧
        t.activeFiles = d.activeFiles := by
  rintro t rfl
  obtain ⟨card, hcard⟩ := Option.isSome_iff_exists.mp hslot
  obtain ⟨sector, hrun⟩ := run_readRootDirSector w hopen hcard sectorIndex
  rw [hrun, htime]
  exact ⟨rfl, rfl, rfl, rfl⟩

theorem fopen_of_stale (hd : Settled ∅ d) (h : StaleMatch w name d) :
    Ensures (fun t => t = d) (fopen w name) fun file t => file ≠ -1 ∧ Lost t := by
  have hknown : d.initialized = true := hd.opened.flags.trans h.flag
  have hsearch : Ensures (fun t => t = lookedAt d)
      (findFileInDirectory w (upperCase name) 0) fun found t =>
        found = true ∧ t.initialized = false ∧ t.isSdCardFormatedAsFat16 = false := by
    refine .get_bind ?_
    rintro t rfl
    obtain ⟨n, hsectors⟩ := Nat.exists_eq_add_of_lt h.sectors
    have hcount : maxRootDirSectors (lookedAt d).bootSectorData = n + 1 := by
      rw [Nat.zero_add] at hsectors
      exact hsectors
    rw [hcount]
    refine (readRootDirSector_of_some (d := lookedAt d) hd.opened.devicePointer h.sectorLook
      h.sectorRead 0).bind fun found => .ite (fun _ => ?_) fun hnot => ?_
    · refine .of_eq fun u hu => ?_
      obtain ⟨-, hlooks, hinitialized, hfiles⟩ := hu
      have hgone : w.slot u.looks = none := by
        rw [hlooks]
        exact h.recordLook
      have hmatch : Matches 0 (nameAndExtension (upperCase name)).1
          (nameAndExtension (upperCase name)).2 u = true := by
        rw [Matches, hfiles]
        exact h.stale
      have hrecord := findRecord_of_stale (hinitialized.trans hknown) hgone hmatch 0 15 0
      refine hrecord.bind fun found => .ite (fun _ => ?_) fun hnot => ?_
      · exact .pure fun v hv => ⟨rfl, hv.2⟩
      · rintro v ⟨hfound, -⟩
        exact absurd hfound hnot
    · rintro u ⟨hfound, -⟩
      exact absurd hfound hnot
  refine (look_of_isSome w hd.opened.devicePointer h.opening).bind fun present =>
    .get_bind fun t ht => ?_
  obtain ⟨rfl, rfl⟩ := ht
  refine .ite (fun _ => .ite (fun _ => .get_bind ?_) fun hnot => absurd h.compliant hnot)
    fun hnot => absurd h.flag hnot
  rintro t rfl
  rw [find_free_slot (d := lookedAt d) hd.among]
  refine hsearch.bind fun found => .ite (fun _ => .modify_bind fun t ht => .get_bind ?_)
    fun hnot => ?_
  · rintro u rfl
    apply Ensures.pure
    rintro u rfl
    refine ⟨?_, ht.2.1, ht.2.2, by simp [setFile, openFile]⟩
    split_ifs <;> decide
  · rintro t ⟨hfound, -⟩
    exact absurd hfound hnot

end Leak

section Calls

variable {w : World}

theorem inUseAmong_closeFile {slots : Set Nat} {d : Driver} (h : InUseAmong slots d)
    (index : Nat) : InUseAmong slots (setFile index (fun r => { r with inUse := false }) d) := by
  intro i hi huse
  rcases eq_or_ne i index with rfl | hne
  · simp [setFile] at huse
  · rw [activeFiles_setFile_of_ne hne] at huse
    exact h i hi huse

theorem fclose_of_settled {index : Nat} (hindex : index < maxFilesOpened) :
    Ensures (Settled {index}) (fclose w index) fun _ => Settled ∅ := by
  have hkept : Along (Keeps FreeOnceForgotten) (fclose w index) := by
    apply along_fclose (elementary_freeOnceForgotten w)
    intro i d hfree hforgotten
    exact inUseAmong_closeFile (hfree hforgotten) i
  refine ((fclose_of_known w hindex).and hkept.ensures_of_keeps).mono
    (fun d hd => ⟨hd.known, hd.forgotten⟩) ?_
  rintro _ d ⟨hknown, hfree⟩
  refine settled_empty hknown.opened ?_
  cases hinitialized : d.initialized with
  | true => exact hknown.among hinitialized
  | false => exact hfree hinitialized

variable {K : Type*} (strtof : List UInt8 → K)

/-- A slot of `active_files` is in use under its own handle, and no other. -/
def Holds (file : Int) (d : Driver) : Prop :=
  ∃ index : Nat, index < maxFilesOpened ∧ file = index ∧ Settled {index} d

theorem settled_getValuesFromSdCardFile {filename : String} {d : Driver} (hd : Settled ∅ d)
    (hstale : ¬ StaleMatch w filename d) (output : Nat → K) :
    Settled ∅ (getValuesFromSdCardFile (driverCalls w) strtof filename output d).driver := by
  refine @driver_getValuesFromSdCardFile _ (driverCalls w) _ strtof Holds (Settled ∅)
    filename d ?_ ?_ ?_ ?_ output
  · intro hfile
    rcases fopen_of_settled hd hstale d rfl with ⟨-, hclosed⟩ | ⟨index, -, hindex, -⟩
    · exact hclosed
    · have hminus : (index : Int) = -1 := hindex.symm.trans hfile
      omega
  · intro hfile
    rcases fopen_of_settled hd hstale d rfl with ⟨hrefused, -⟩ | hheld
    · exact absurd hrefused hfile
    · exact hheld
  · rintro file d ⟨index, hindex, rfl, hheld⟩
    exact ⟨index, hindex, rfl, along_read (elementary_settled w {index}) index d hheld⟩
  · rintro file d ⟨index, hindex, rfl, hheld⟩
    exact fclose_of_settled hindex d hheld

theorem lost_getValuesFromSdCardFile {filename : String} {d : Driver} (hd : Settled ∅ d)
    (hstale : StaleMatch w filename d) (output : Nat → K) :
    Lost (getValuesFromSdCardFile (driverCalls w) strtof filename output d).driver := by
  have hopened := fopen_of_stale hd hstale d rfl
  refine @driver_getValuesFromSdCardFile _ (driverCalls w) _ strtof (fun _ => Lost) Lost
    filename d (fun hfile => absurd hfile hopened.1) (fun _ => hopened.2) ?_ ?_ output
  · exact fun file d hlost => along_read (elementary_lost w) file d hlost
  · exact fun file d hlost => fclose_of_lost w file d hlost

/-- A call gives its slot up exactly if it does not take a record for read that
an earlier search has left. -/
theorem inUseAmong_getValuesFromSdCardFile_iff {filename : String} {d : Driver}
    (hd : Settled ∅ d) (output : Nat → K) :
    InUseAmong ∅ (getValuesFromSdCardFile (driverCalls w) strtof filename output d).driver ↔
      ¬ StaleMatch w filename d := by
  constructor
  · intro hfree hstale
    exact hfree 0 (by decide) (lost_getValuesFromSdCardFile strtof hd hstale output).inUse
  · intro hstale
    exact (settled_getValuesFromSdCardFile strtof hd hstale output).among

end Calls

section Session

variable (w : World)

theorem settled_startUp : Settled ∅ (startUp w) := by
  refine settled_empty (opened_startUp w) ?_
  refine along_checkIfSdCardIsPresent (elementary_inUseAmong w ∅) (recognising_inUseAmong ∅) false
    (openDev atPowerUp) ?_
  intro i _ huse
  exact absurd huse Bool.false_ne_true

variable {K : Type*} (strtof : List UInt8 → K)

theorem settled_driverAtOpen {m : Locals K × Driver} (hm : Settled ∅ m.2)
    (hstale : ∀ word : Word, ¬ StaleMatch w word.filename (driverAtOpen w strtof m word))
    (word : Word) : Settled ∅ (driverAtOpen w strtof m word) := by
  have hrock : Settled ∅ (driverAtOpen w strtof m .rock) :=
    along_listFilesOnSdCard (elementary_settled w ∅) m.2 hm
  have hpaper : Settled ∅ (driverAtOpen w strtof m .paper) :=
    settled_getValuesFromSdCardFile strtof hrock (hstale .rock) _
  cases word with
  | rock => exact hrock
  | paper => exact hpaper
  | scissors => exact settled_getValuesFromSdCardFile strtof hpaper (hstale .paper) _

def callOf (m : Locals K × Driver) (word : Word) : Outcome K Driver :=
  outcome (driverCalls w) strtof m.1 ((listFilesOnSdCard w).run m.2).2 word

variable [Field K] [LinearOrder K] (sqrt : K → K)

/-- No call of the run meets a record that an earlier search has left. -/
def MeetsNoStaleRecord (l : Locals K) (recordings : List (Recording K)) : Prop :=
  ∀ earlier r later, recordings = earlier ++ r :: later → ∀ word : Word,
    ¬ StaleMatch w word.filename
      (driverAtOpen w strtof (session w strtof sqrt l earlier) word)

/-- Every file is opened with all the slots free, its handle is not -2, and all
the slots are free again once its values are read. -/
def LeaksNoHandle (l : Locals K) (recordings : List (Recording K)) : Prop :=
  ∀ earlier r later, recordings = earlier ++ r :: later → ∀ word,
    InUseAmong ∅ (driverAtOpen w strtof (session w strtof sqrt l earlier) word) ∧
      (callOf w strtof (session w strtof sqrt l earlier) word).file ≠ -2 ∧
      InUseAmong ∅ (callOf w strtof (session w strtof sqrt l earlier) word).driver

theorem settled_session {l : Locals K} {recordings : List (Recording K)}
    (hstale : MeetsNoStaleRecord w strtof sqrt l recordings) :
    Settled ∅ (session w strtof sqrt l recordings).2 := by
  induction recordings using List.reverseRecOn with
  | nil => exact settled_startUp w
  | append_singleton recordings r ih =>
      have hearlier : Settled ∅ (session w strtof sqrt l recordings).2 := by
        refine ih fun earlier r' later hsplit => hstale earlier r' (later ++ [r]) ?_
        rw [hsplit, List.append_assoc, List.cons_append]
      have hcalls := hstale recordings r [] rfl
      rw [session, List.foldl_concat]
      change Settled ∅ (analyse w strtof sqrt (session w strtof sqrt l recordings) r).2
      rw [analyse, compareWords_driver]
      exact settled_getValuesFromSdCardFile strtof
        (settled_driverAtOpen w strtof hearlier hcalls .scissors) (hcalls .scissors) _

theorem opened_driverAtOpen (l : Locals K) (recordings : List (Recording K)) (word : Word) :
    Opened (driverAtOpen w strtof (session w strtof sqrt l recordings) word) :=
  (tracksSlot_driverAtOpen w strtof _ word).opened
    ((tracksSlot_session w strtof sqrt l recordings).opened (opened_startUp w))

theorem meetsNoStaleRecord_of_leaksNoHandle {l : Locals K} {recordings : List (Recording K)}
    (hleaks : LeaksNoHandle w strtof sqrt l recordings) :
    MeetsNoStaleRecord w strtof sqrt l recordings := by
  intro earlier r later hsplit word hstale
  obtain ⟨hfree, -, hgivenUp⟩ := hleaks earlier r later hsplit word
  have hopen := settled_empty (opened_driverAtOpen w strtof sqrt l earlier word) hfree
  exact (inUseAmong_getValuesFromSdCardFile_iff strtof hopen _).mp hgivenUp hstale

/-- Over any number of recordings, with cards that come and go, the slots are
given up exactly as long as no search takes an old record for read. -/
theorem leaksNoHandle_iff (l : Locals K) (recordings : List (Recording K)) :
    LeaksNoHandle w strtof sqrt l recordings ↔
      MeetsNoStaleRecord w strtof sqrt l recordings := by
  refine ⟨meetsNoStaleRecord_of_leaksNoHandle w strtof sqrt, ?_⟩
  intro hstale earlier r later hsplit word
  -- No analysis before this one has met a stale record, so it starts with all slots free.
  have hearlier : Settled ∅ (session w strtof sqrt l earlier).2 := by
    refine settled_session w strtof sqrt fun first r' rest hfirst => ?_
    refine hstale first r' (rest ++ r :: later) ?_
    rw [hsplit, hfirst, List.append_assoc, List.cons_append]
  have hcalls := hstale earlier r later hsplit
  have hopen := settled_driverAtOpen w strtof hearlier hcalls word
  refine ⟨hopen.among, ?_, ?_⟩
  · intro hminus
    rcases validHandle_getValuesFromSdCardFile w strtof word.filename _ hopen.known
      with hrefused | hvalid
    · exact absurd (hminus.symm.trans hrefused) (by decide)
    · exact absurd (hminus ▸ hvalid.1) (by decide)
  · exact (settled_getValuesFromSdCardFile strtof hopen (hcalls word) _).among

def paperCard : Card where
  csd := 0x0400
  sectorAt address offset :=
    if address = 0 then
      if offset = 14 ∨ offset = 22 then 0x01
      else if offset = 17 then 0x10
      else fat16Card.sectorAt 0 offset
    else if 480 ≤ offset then
      [0x50, 0x41, 0x50, 0x45, 0x52, 0x20, 0x20, 0x20, 0x54, 0x58, 0x54].getD (offset - 480) 0
    else 0

def removedInSearch : World where
  slot n := if n < 45 then some paperCard else none
  timesOut _ := false

def firstRecording : Locals ℚ := { buffer := fun _ _ => 0, value := fun _ => .nan }

/-- The search for ROCK.TXT has left the record of PAPER.TXT in slot 0. -/
theorem staleMatch_removedInSearch :
    StaleMatch removedInSearch Word.paper.filename
      (driverAtOpen removedInSearch (fun _ => (0 : ℚ))
        (firstRecording, startUp removedInSearch) .paper) := by
  have hlooks : (driverAtOpen removedInSearch (fun _ => (0 : ℚ))
      (firstRecording, startUp removedInSearch) .paper).looks = 43 := by
    decide +kernel
  exact
    { flag := by decide +kernel
      compliant := by decide +kernel
      sectors := by decide +kernel
      opening := hlooks ▸ rfl
      sectorLook := hlooks ▸ rfl
      sectorRead := rfl
      recordLook := hlooks ▸ rfl
      stale := by decide +kernel }

theorem not_leaksNoHandle_removedInSearch :
    ¬ LeaksNoHandle removedInSearch (fun _ => (0 : ℚ)) id firstRecording
        [{ mfccBuffer := fun _ => 0, stack := fun _ _ _ => 0 }] := by
  intro hleaks
  exact meetsNoStaleRecord_of_leaksNoHandle _ _ _ hleaks [] _ [] rfl .paper
    staleMatch_removedInSearch

end Session

end RockPaperScissors.SdCardLeaks
