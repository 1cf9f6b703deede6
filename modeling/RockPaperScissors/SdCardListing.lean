import RockPaperScissors.SdCardSession

namespace RockPaperScissors.SdCardListing

open RockPaperScissors.Library.StateProgram
open RockPaperScissors.AlteraSdCard
open RockPaperScissors.SdCardRelations
open RockPaperScissors.SdCardSession

/-- The file records of the sector last searched that have been left behind. -/
def fileCounter (d : Driver) : Nat := (d.searchData.fileIndexInSector + 1).toNat

/-- The file records of the root directory that have been left behind. -/
def passed (d : Driver) : Nat := 16 * d.searchData.currentSectorInCluster + fileCounter d

def rootRecords (d : Driver) : Nat := 16 * maxRootDirSectors d.bootSectorData

structure Searching (d : Driver) : Prop where
  fileCounter_le : fileCounter d ≤ 16
  passed_le : passed d ≤ rootRecords d

structure KeepsPlace (d d' : Driver) : Prop where
  bootSectorData : d'.bootSectorData = d.bootSectorData
  currentSector : d'.searchData.currentSectorInCluster = d.searchData.currentSectorInCluster
  fileIndex : d'.searchData.fileIndexInSector = d.searchData.fileIndexInSector

instance : IsPreorder Driver KeepsPlace where
  refl _ := ⟨rfl, rfl, rfl⟩
  trans _ _ _ hab hbc :=
    ⟨hbc.bootSectorData.trans hab.bootSectorData, hbc.currentSector.trans hab.currentSector,
      hbc.fileIndex.trans hab.fileIndex⟩

def KeepsBootSector (d d' : Driver) : Prop := d'.bootSectorData = d.bootSectorData

instance : IsPreorder Driver KeepsBootSector where
  refl _ := rfl
  trans _ _ _ hab hbc := Eq.trans hbc hab

variable (w : World)

theorem keepsPlace_isPresent : Along KeepsPlace (isPresent w) := by
  intro d
  change KeepsPlace d (isPresent w d).2
  simp only [isPresent]
  split_ifs <;> exact ⟨rfl, rfl, rfl⟩

theorem elementary_keepsBootSector : Elementary w KeepsBootSector where
  look d := (keepsPlace_isPresent w d).bootSectorData
  transfer sector := by
    intro d
    change (transfer w sector d).2.bootSectorData = d.bootSectorData
    rw [transfer]
    split
    · split <;> rfl
    · rfl
  setFile _ _ _ _ := rfl
  setSearch _ _ := rfl

theorem nextRecord_bounds (sectorIndex n first : Nat) :
    Ensures (fun _ => True) (nextRecord w sectorIndex n first) fun found _ =>
      ∀ i, found = some i → first ≤ i ∧ i < first + n := by
  induction n generalizing first with
  | zero =>
      intro d _ i hfound
      exact absurd hfound (by simp [nextRecord])
  | succ n ih =>
      have hrest := (ih (first + 1)).mono (fun _ => id) fun found _ h i hfound =>
        And.imp (Nat.le_of_succ_le) (fun hi => hi.trans_eq (Nat.succ_add_eq_add_succ first n))
          (h i hfound)
      refine Ensures.bind (Q := fun _ _ => True) (fun _ _ => trivial) fun entry => ?_
      cases entry with
      | none => exact hrest
      | some entry =>
          refine .ite (fun _ => .pure fun d _ i hfound => ?_) fun _ => hrest
          obtain rfl := Option.some.inj hfound
          exact ⟨le_rfl, by omega⟩

theorem nextInSectors_passed (n sectorIndex first : Nat) (hfirst : first ≤ 16) :
    Ensures (fun _ => True) (nextInSectors w n sectorIndex first) fun result d =>
      result = 0 → 16 * sectorIndex + first < passed d ∧
        passed d ≤ 16 * (sectorIndex + n) ∧ fileCounter d ≤ 16 := by
  induction n generalizing sectorIndex first with
  | zero => exact .pure fun _ _ h => absurd h (by decide)
  | succ n ih =>
      refine Ensures.bind (Q := fun _ _ => True) (fun _ _ => trivial) fun moved => ?_
      refine .ite (fun _ => ?_) fun _ => .pure fun _ _ h => absurd h (by decide)
      refine (nextRecord_bounds w sectorIndex (16 - first) first).bind fun found => ?_
      cases found with
      | none =>
          refine (ih (sectorIndex + 1) 0 (Nat.zero_le _)).mono (fun _ _ => trivial) ?_
          intro result d h hresult
          obtain ⟨hlow, hhigh, hcounter⟩ := h hresult
          exact ⟨by omega, by omega, hcounter⟩
      | some i =>
          refine .modify_bind fun d hi => .pure ?_
          rintro d rfl -
          have hbounds := hi i rfl
          simp only [passed, fileCounter, Int.toNat_natCast_add_one]
          omega

theorem findNext_passed {d : Driver} (hd : fileCounter d ≤ 16) :
    Ensures (KeepsPlace d) (findNext w) fun result d' =>
      result = 0 → passed d < passed d' ∧ passed d' ≤ rootRecords d ∧ fileCounter d' ≤ 16 := by
  refine ((keepsPlace_isPresent w).ensures d).bind fun present => .get_bind fun t ht => ?_
  refine .ite (fun _ => .get_bind ?_) fun _ => .pure fun _ _ h => absurd h (by decide)
  rintro t rfl
  refine .ite (fun _ => ?_) fun _ => .pure fun _ _ h => absurd h (by decide)
  rw [ht.bootSectorData, ht.currentSector, ht.fileIndex]
  refine (nextInSectors_passed w _ _ _ hd).mono (fun _ _ => trivial) ?_
  intro result d' h hresult
  obtain ⟨hlow, hhigh, hcounter⟩ := h hresult
  refine ⟨hlow, ?_, hcounter⟩
  change passed d' ≤ 16 * maxRootDirSectors d.bootSectorData
  omega

theorem searching_findNext {d : Driver} (hd : Searching d)
    (hfound : ((findNext w).run d).1 = 0) :
    Searching ((findNext w).run d).2 ∧ passed d < passed ((findNext w).run d).2 ∧
      rootRecords ((findNext w).run d).2 = rootRecords d := by
  have hboot := along_findNext (elementary_keepsBootSector w) d
  have hroot : rootRecords ((findNext w).run d).2 = rootRecords d :=
    congrArg (fun boot => 16 * maxRootDirSectors boot) hboot
  obtain ⟨hlow, hhigh, hcounter⟩ :=
    findNext_passed w hd.fileCounter_le d (refl_of KeepsPlace d) hfound
  exact ⟨⟨hcounter, hhigh.trans_eq hroot.symm⟩, hlow, hroot⟩

theorem listMore_of_le {d : Driver} (hd : Searching d) {n m : Nat}
    (hn : rootRecords d < n + passed d) (hnm : n ≤ m) :
    (listMore w m).run d = (listMore w n).run d := by
  induction n generalizing d m with
  | zero =>
      have hpassed := hd.passed_le
      omega
  | succ n ih =>
      obtain ⟨m, rfl⟩ : ∃ k, m = k + 1 := ⟨m - 1, by omega⟩
      change (if ((findNext w).run d).1 = 0 then listMore w m else return ()).run _ =
        (if ((findNext w).run d).1 = 0 then listMore w n else return ()).run _
      split
      · next hfound =>
          obtain ⟨hsearching, hlow, hroot⟩ := searching_findNext w hd hfound
          exact ih hsearching (by omega) (by omega)
      · rfl

theorem searching_findFirst {d : Driver} (hfound : ((findFirst w).run d).1 = 0) :
    Searching ((findFirst w).run d).2 ∧ 0 < passed ((findFirst w).run d).2 := by
  have hfirst : Ensures (fun _ => True) (findFirst w) fun result d' =>
      result = 0 → Searching d' ∧ 0 < passed d' := by
    refine Ensures.bind (Q := fun _ _ => True) (fun _ _ => trivial) fun present => ?_
    refine .get_bind fun t _ => .ite (fun _ => ?_) fun _ => .pure fun _ _ h => absurd h (by decide)
    apply Ensures.modify_bind
    rintro t rfl
    intro t ht hresult
    have hcounter : fileCounter t ≤ 16 := by
      rw [ht]
      exact Nat.zero_le _
    obtain ⟨hlow, hhigh, hcounter⟩ := findNext_passed w hcounter t (refl_of KeepsPlace t) hresult
    have hboot := along_findNext (elementary_keepsBootSector w) t
    refine ⟨⟨hcounter, ?_⟩, Nat.zero_lt_of_lt hlow⟩
    exact hhigh.trans_eq (congrArg (fun boot => 16 * maxRootDirSectors boot) hboot).symm
  exact hfirst d trivial hfound

/-- The listing ends by itself: a bound above the number of file records gives
the same run. -/
theorem listFilesOnSdCard_run (d : Driver) {m : Nat}
    (hm : rootRecords ((findFirst w).run d).2 ≤ m) :
    (listFilesOnSdCard w).run d =
      (do if (← findFirst w) = 0 then listMore w m else return ()).run d := by
  change (if ((findFirst w).run d).1 = 0 then _ else _ : StateM Driver Unit).run _ =
    (if ((findFirst w).run d).1 = 0 then _ else _ : StateM Driver Unit).run _
  split
  · next hfound =>
      obtain ⟨hsearching, hpassed⟩ := searching_findFirst w hfound
      exact (listMore_of_le w hsearching (Nat.lt_add_of_pos_right hpassed) hm).symm
  · rfl

end RockPaperScissors.SdCardListing
