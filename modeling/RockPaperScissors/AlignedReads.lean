import RockPaperScissors.FilledReads

namespace RockPaperScissors.AlignedReads

open RockPaperScissors.Library.BoundedFifo
open RockPaperScissors.Library.LabelledRun
open RockPaperScissors.RecordLoop
open RockPaperScissors.AudioCore
open RockPaperScissors.FilledReads

/-- Samples may be read before KEY0 is handled again. -/
def MayRead (s : State) : Prop :=
  s.location ≠ .releaseIn ∧ (s.record = true ∨ s.location = .loadFifospace ∨
    s.location = .loadLeft ∨ s.location = .loadRight ∨ s.location = .analysis ∨
    s.location = .reloadFifospace)

/-- The left FIFO is ahead by the sample whose right partner is still to come,
and behind by the one whose right partner is still to be read. -/
def Level (s : System) : Prop :=
  s.core.left.used + (if s.cpu.location = .loadRight then 1 else 0) =
    s.core.right.used + (if s.core.next = .right then 1 else 0)

/-- A sample that arrives finds room, and the FIFOs are released before a left
sample. -/
def KeepsLevel (s : System) : Label → Prop
  | .push .left _ => MayRead s.cpu → s.core.left.used < 128
  | .push .right _ => MayRead s.cpu → s.core.right.used < 128
  | .cpu (.storeControl _) => s.cpu.location = .releaseIn → s.core.next = .left
  | .cpu _ => True

structure Aligned (s : System) : Prop where
  held : s.core.clearReadFifos = true ↔ s.cpu.location = .releaseIn
  cleared : s.cpu.location = .releaseIn → s.core.left.used = 0 ∧ s.core.right.used = 0
  level : MayRead s.cpu → Level s

theorem push_of_held {core : Core} (hheld : core.clearReadFifos = true) (sample : BitVec 16) :
    (core.push sample).left = core.left ∧ (core.push sample).right = core.right := by
  rw [Core.push, if_pos hheld]
  exact ⟨rfl, rfl⟩

theorem Aligned.push {s t : System} {channel : Channel} {sample : BitVec 16} (h : Aligned s)
    (hkeeps : KeepsLevel s (.push channel sample))
    (hstep : s.step (.push channel sample) = some t) : Aligned t := by
  obtain ⟨hnext, rfl⟩ := step_push hstep
  refine ⟨by simpa using h.held, ?_, ?_⟩
  · intro hloc
    obtain ⟨hleft, hright⟩ := push_of_held (h.held.mpr hloc) sample
    rw [hleft, hright]
    exact h.cleared hloc
  · intro hread
    have hclear : s.core.clearReadFifos = false := by
      rw [← Bool.not_eq_true, h.held]
      exact hread.1
    have hlevel := h.level hread
    unfold Level at hlevel ⊢
    cases channel with
    | left =>
        have hused := Fifo.used_push_of_lt (hkeeps hread) sample
        simp only [Core.push, hclear, ← hnext] at hlevel ⊢
        simp at hlevel ⊢
        omega
    | right =>
        have hused := Fifo.used_push_of_lt (hkeeps hread) sample
        simp only [Core.push, hclear, ← hnext] at hlevel ⊢
        simp at hlevel ⊢
        omega

theorem record_of_mayRead_returnFromKeys {s : State} (h : MayRead (returnFromKeys s)) :
    s.record = true := by
  rcases returnFromKeys_location s with ⟨-, hrecord⟩ | ⟨hloc, hrecord⟩
  · exact hrecord
  · simp [MayRead, hloc, hrecord] at h

theorem Aligned.level_of_eq {s t : System} (h : Aligned s) (hread : MayRead s.cpu)
    (hleft : t.core.left = s.core.left) (hright : t.core.right = s.core.right)
    (hnext : t.core.next = s.core.next) (hs : s.cpu.location ≠ .loadRight)
    (ht : t.cpu.location ≠ .loadRight) : Level t := by
  have hlevel := h.level hread
  rw [Level, if_neg hs] at hlevel
  rw [Level, if_neg ht, hleft, hright, hnext]
  exact hlevel

theorem Aligned.level_cpu {history : List Label} {s : System} {e : Event} {cpu : State}
    (h : Aligned s) (hguarded : Guarded history s) (hkeeps : KeepsLevel s (.cpu e))
    (hmove : Moves s.cpu e cpu) (hread : MayRead cpu) :
    Level { cpu := cpu, core := s.core.access e } := by
  cases hmove with
  | keyLoaded value hloc | key0 hloc | key1 hloc =>
      have hrecord : s.cpu.record = true := by simpa [MayRead] using hread
      exact h.level_of_eq ⟨by simp [hloc], Or.inl hrecord⟩ rfl rfl rfl (by simp [hloc])
        (by simp)
  | keyHeld value hloc => exact h.level hread
  | otherKeys hloc =>
      have hrecord := record_of_mayRead_returnFromKeys hread
      exact h.level_of_eq ⟨by simp [hloc], Or.inl hrecord⟩ rfl rfl rfl (by simp [hloc])
        (returnFromKeys_ne (by decide) (by decide) _)
  | cleared hloc => exact absurd rfl hread.1
  | started hloc =>
      obtain ⟨hleft, hright⟩ := h.cleared hloc
      have hnext : s.core.next = .left := hkeeps hloc
      simp [Level, Core.access, hleft, hright, hnext]
  | clearedOut hloc =>
      have hrecord : s.cpu.record = true := by simpa [MayRead] using hread
      exact h.level_of_eq ⟨by simp [hloc], Or.inl hrecord⟩ rfl rfl rfl (by simp [hloc])
        (by simp)
  | playStarted hloc =>
      have hrecord : s.cpu.record = true := record_of_mayRead_returnFromKeys hread
      exact h.level_of_eq ⟨by simp [hloc], Or.inl hrecord⟩ rfl rfl rfl (by simp [hloc])
        (returnFromKeys_ne (by decide) (by decide) _)
  | passEntered value hloc =>
      rcases hloc with ⟨hloc, -⟩ | hloc
      all_goals
        exact h.level_of_eq (by simp [MayRead, hloc]) rfl rfl rfl (by simp [hloc]) (by simp)
  | innerLeft value hloc =>
      have hrecord : s.cpu.record = true := by simpa [MayRead] using hread
      rcases hloc with hloc | hloc
      all_goals
        exact h.level_of_eq ⟨by simp [hloc], Or.inl hrecord⟩ rfl rfl rfl (by simp [hloc])
          (by simp)
  | leftStored value hloc =>
      have hlevel := h.level (by simp [MayRead, hloc])
      have hright := hguarded.right (Or.inl hloc)
      rw [Level, if_neg (by simp [hloc])] at hlevel
      rw [Level, if_pos rfl]
      change s.core.left.pop.used + 1 = s.core.right.used + if s.core.next = .right then 1 else 0
      rw [Fifo.used_pop]
      omega
  | rightStored value hloc hindex | bufferFilled value hloc hindex =>
      have hlevel := h.level (by simp [MayRead, hloc])
      have hright := hguarded.right (Or.inr hloc)
      rw [Level, if_pos hloc] at hlevel
      rw [Level, if_neg (by simp)]
      change s.core.left.used + 0 = s.core.right.pop.used + if s.core.next = .right then 1 else 0
      rw [Fifo.used_pop]
      omega
  | analysed hloc =>
      exact h.level_of_eq (by simp [MayRead, hloc]) rfl rfl rfl (by simp [hloc]) (by simp)

theorem Aligned.cpu {history : List Label} {s t : System} {e : Event} (h : Aligned s)
    (hguarded : Guarded history s) (hkeeps : KeepsLevel s (.cpu e))
    (hstep : s.step (.cpu e) = some t) : Aligned t := by
  obtain ⟨-, hmove, hcore⟩ := step_cpu hstep
  obtain ⟨cpu, core⟩ := t
  obtain rfl : core = s.core.access e := hcore
  refine ⟨⟨hguarded.held_cpu hmove, ?_⟩, ?_, h.level_cpu hguarded hkeeps hmove⟩
  · intro hloc
    cases hmove with
    | cleared => rfl
    | keyHeld value hs => simp [hs] at hloc
    | otherKeys | playStarted =>
        exact absurd hloc (returnFromKeys_ne (by decide) (by decide) _)
    | _ => simp at hloc
  · intro hloc
    cases hmove with
    | cleared => exact ⟨rfl, rfl⟩
    | keyHeld value hs => simp [hs] at hloc
    | otherKeys | playStarted =>
        exact absurd hloc (returnFromKeys_ne (by decide) (by decide) _)
    | _ => simp at hloc

section Runs

variable {keyValue fifospace : BitVec 32} {leftBuffer rightBuffer : Nat → Int}
variable {left right : Fifo (BitVec 16) 128} {next : Channel}

theorem Aligned.of_run {labels : List Label} {t : System}
    (hrun : run System.step
      (start keyValue fifospace leftBuffer rightBuffer left right next) labels = some t)
    (hkeeps : EveryStep System.step KeepsLevel
      (start keyValue fifospace leftBuffer rightBuffer left right next) labels) : Aligned t := by
  have hinit : Guarded [] (start keyValue fifospace leftBuffer rightBuffer left right next) ∧
      Aligned (start keyValue fifospace leftBuffer rightBuffer left right next) := by
    refine ⟨.of_run (run_nil _), ?_, ?_, ?_⟩
    all_goals simp [start, atStart, MayRead]
  refine (history_invariant (P := fun history s => Guarded history s ∧ Aligned s) hinit ?_ hrun
    hkeeps).2
  rintro history s (⟨channel, sample⟩ | e) t - ⟨hguarded, haligned⟩ hkeeps hstep
  · exact ⟨hguarded.push hstep, haligned.push hkeeps hstep⟩
  · exact ⟨hguarded.cpu hstep, haligned.cpu hguarded hkeeps hstep⟩

/-- In a run that releases the FIFOs before left samples only and that loses no
sample while it may read, every read finds a sample. -/
theorem findsSample_of_keepsLevel {labels : List Label} {t : System}
    (hrun : run System.step
      (start keyValue fifospace leftBuffer rightBuffer left right next) labels = some t)
    (hkeeps : EveryStep System.step KeepsLevel
      (start keyValue fifospace leftBuffer rightBuffer left right next) labels) :
    EveryStep System.step FindsSample
      (start keyValue fifospace leftBuffer rightBuffer left right next) labels := by
  rintro before l after s rfl hbefore
  have hafter := run_of_append hbefore hrun
  have hguarded : Guarded before s := .of_run hbefore
  have haligned : Aligned s := .of_run hbefore hkeeps.of_append
  match l with
  | .push _ _ => trivial
  | .cpu (.loadLeft _) =>
      obtain ⟨cpu, hmove⟩ := cpu_of_run_cons hafter
      have hloc := location_of_loadLeft hmove
      have hright := hguarded.right (Or.inl hloc)
      have hlevel := haligned.level (by simp [MayRead, hloc])
      rw [Level, if_neg (by simp [hloc])] at hlevel
      change 0 < s.core.left.used
      omega
  | .cpu (.loadRight _) =>
      obtain ⟨cpu, hmove⟩ := cpu_of_run_cons hafter
      exact hguarded.right (Or.inr (location_of_loadRight hmove))
  | .cpu (.loadKey _) => trivial
  | .cpu (.storeControl _) => trivial
  | .cpu (.loadFifospace _) => trivial
  | .cpu .analyse => trivial

end Runs

end RockPaperScissors.AlignedReads
