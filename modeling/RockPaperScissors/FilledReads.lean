import RockPaperScissors.AudioCore

namespace RockPaperScissors.FilledReads

open RockPaperScissors.Library.BoundedFifo
open RockPaperScissors.Library.LabelledRun
open RockPaperScissors.RecordLoop
open RockPaperScissors.AudioCore

def FindsSample (s : System) : Label → Prop
  | .cpu (.loadLeft _) => 0 < s.core.left.used
  | .cpu (.loadRight _) => 0 < s.core.right.used
  | _ => True

def IsPush : Label → Prop
  | .push _ _ => True
  | .cpu _ => False

/-- The word that let the loop in counts a left sample, or one is pushed before
the left register is read. -/
def LeftArrives (fifospace : BitVec 32) (labels : List Label) : Prop :=
  ralc fifospace ≠ 0 ∨ ∃ sample, .push .left sample ∈ labels

def start (keyValue fifospace : BitVec 32) (leftBuffer rightBuffer : Nat → Int)
    (left right : Fifo (BitVec 16) 128) (next : Channel) : System where
  cpu := atStart keyValue fifospace leftBuffer rightBuffer
  core := { left := left, right := right, next := next, clearReadFifos := false }

theorem used_push_left {core : Core} (hclear : core.clearReadFifos = false)
    (sample : BitVec 16) :
    0 < (core.push sample).left.used ↔ 0 < core.left.used ∨ core.next = .left := by
  cases hnext : core.next with
  | left => simp [Core.push, hclear, hnext, Fifo.used_push_pos]
  | right => simp [Core.push, hclear, hnext]

theorem used_push_right {core : Core} (hclear : core.clearReadFifos = false)
    (sample : BitVec 16) : core.right.used ≤ (core.push sample).right.used := by
  cases hnext : core.next with
  | left => simp [Core.push, hclear, hnext]
  | right => simp [Core.push, hclear, hnext, Fifo.used_le_used_push]

@[simp] theorem clearReadFifos_push (core : Core) (sample : BitVec 16) :
    (core.push sample).clearReadFifos = core.clearReadFifos := by
  cases hclear : core.clearReadFifos <;> cases hnext : core.next <;>
    simp [Core.push, hclear, hnext]

theorem run_pushes {s t : System} {labels : List Label} (hpush : ∀ l ∈ labels, IsPush l)
    (hclear : s.core.clearReadFifos = false) (hrun : run System.step s labels = some t) :
    t.cpu = s.cpu ∧ t.core.clearReadFifos = false ∧
      (0 < t.core.left.used ↔
        0 < s.core.left.used ∨ ∃ sample, .push .left sample ∈ labels) := by
  induction labels generalizing s with
  | nil =>
      obtain rfl : s = t := by simpa using hrun
      simp [hclear]
  | cons l labels ih =>
      obtain ⟨u, hstep, hrun⟩ := run_cons_eq_some.mp hrun
      cases l with
      | cpu e => exact absurd (hpush (.cpu e) (by simp)) id
      | push channel sample =>
          obtain ⟨hnext, rfl⟩ := step_push hstep
          obtain ⟨hcpu, hheld, hleft⟩ := ih (fun l hl => hpush l (by simp [hl]))
            (by simpa using hclear) hrun
          refine ⟨hcpu, hheld, ?_⟩
          rw [hleft, used_push_left hclear, ← hnext, or_assoc]
          apply or_congr_right
          constructor
          · rintro (rfl | ⟨sample', hmem⟩)
            · exact ⟨sample, by simp⟩
            · exact ⟨sample', by simp [hmem]⟩
          · rintro ⟨sample', hmem⟩
            rcases List.mem_cons.mp hmem with heq | hmem
            · exact Or.inl (Label.push.inj heq).1.symm
            · exact Or.inr ⟨sample', hmem⟩

structure Guarded (history : List Label) (s : System) : Prop where
  held : s.core.clearReadFifos = true → s.cpu.location = .releaseIn
  right : s.cpu.location = .loadLeft ∨ s.cpu.location = .loadRight → 0 < s.core.right.used
  entered : s.cpu.location = .loadLeft → ∃ before value pushes,
    history = before ++ .cpu (.loadFifospace value) :: pushes ∧ ∀ l ∈ pushes, IsPush l

theorem Guarded.push {history : List Label} {s t : System} {channel : Channel}
    {sample : BitVec 16} (h : Guarded history s)
    (hstep : s.step (.push channel sample) = some t) :
    Guarded (history ++ [.push channel sample]) t := by
  obtain ⟨-, rfl⟩ := step_push hstep
  refine ⟨fun hheld => h.held (by simpa using hheld), ?_, ?_⟩
  · intro hloc
    have hclear : s.core.clearReadFifos = false := by
      rw [← Bool.not_eq_true]
      intro hheld
      simp [h.held hheld] at hloc
    exact lt_of_lt_of_le (h.right hloc) (used_push_right hclear sample)
  · intro hloc
    obtain ⟨before, value, pushes, rfl, hpush⟩ := h.entered hloc
    refine ⟨before, value, pushes ++ [.push channel sample], by simp, ?_⟩
    intro l hl
    rcases List.mem_append.mp hl with hl | hl
    · exact hpush l hl
    · rw [List.mem_singleton.mp hl]
      trivial

theorem Guarded.held_cpu {history : List Label} {s : System} {e : Event} {cpu : State}
    (h : Guarded history s) (hmove : Moves s.cpu e cpu)
    (hheld : (s.core.access e).clearReadFifos = true) : cpu.location = .releaseIn := by
  have hloc : (∀ value, e ≠ .storeControl value) → s.cpu.location = .releaseIn := by
    intro hcontrol
    apply h.held
    cases e with
    | storeControl value => exact absurd rfl (hcontrol value)
    | _ => exact hheld
  cases hmove with
  | cleared => rfl
  | started | clearedOut | playStarted => exact absurd hheld (by simp [Core.access])
  | passEntered value hs =>
      have hrelease := hloc (by simp)
      rcases hs with ⟨hs, -⟩ | hs <;> simp [hs] at hrelease
  | innerLeft value hs =>
      have hrelease := hloc (by simp)
      rcases hs with hs | hs <;> simp [hs] at hrelease
  | keyLoaded value hs | keyHeld value hs | key0 hs | key1 hs | otherKeys hs
  | leftStored value hs | rightStored value hs | bufferFilled value hs | analysed hs =>
      have hrelease := hloc (by simp)
      simp [hs] at hrelease

theorem location_of_loadFifospace {s t : State} {value : BitVec 32}
    (h : Moves s (.loadFifospace value) t) :
    t.location = .loadLeft ∨ t.location = .loadKey := by
  cases h with
  | passEntered => exact Or.inl rfl
  | innerLeft => exact Or.inr rfl

theorem Guarded.right_cpu {history : List Label} {s : System} {e : Event} {cpu : State}
    (h : Guarded history s) (hanswers : s.core.Answers e) (hmove : Moves s.cpu e cpu)
    (hloc : cpu.location = .loadLeft ∨ cpu.location = .loadRight) :
    0 < (s.core.access e).right.used := by
  cases hmove with
  | passEntered value _ hvalue =>
      change 0 < s.core.right.used
      rw [← rarc_of_answers hanswers]
      exact Nat.pos_of_ne_zero hvalue
  | leftStored value hs => exact h.right (Or.inl hs)
  | keyHeld value hs => simp [hs] at hloc
  | otherKeys | playStarted =>
      rcases hloc with hleft | hright
      · exact absurd hleft (returnFromKeys_ne (by decide) (by decide) _)
      · exact absurd hright (returnFromKeys_ne (by decide) (by decide) _)
  | _ => simp at hloc

theorem Guarded.entered_cpu {s : System} {e : Event} {cpu : State} (history : List Label)
    (hmove : Moves s.cpu e cpu) (hloc : cpu.location = .loadLeft) :
    ∃ before value pushes, history ++ [.cpu e] =
      before ++ .cpu (.loadFifospace value) :: pushes ∧ ∀ l ∈ pushes, IsPush l := by
  cases hmove with
  | passEntered value => exact ⟨history, value, [], rfl, by simp⟩
  | keyHeld value hs => simp [hs] at hloc
  | otherKeys | playStarted => exact absurd hloc (returnFromKeys_ne (by decide) (by decide) _)
  | _ => simp at hloc

theorem Guarded.cpu {history : List Label} {s t : System} {e : Event}
    (h : Guarded history s) (hstep : s.step (.cpu e) = some t) :
    Guarded (history ++ [.cpu e]) t := by
  obtain ⟨hanswers, hmove, hcore⟩ := step_cpu hstep
  obtain ⟨cpu, core⟩ := t
  obtain rfl : core = s.core.access e := hcore
  exact ⟨h.held_cpu hmove, h.right_cpu hanswers hmove, Guarded.entered_cpu history hmove⟩

section Runs

variable {keyValue fifospace : BitVec 32} {leftBuffer rightBuffer : Nat → Int}
variable {left right : Fifo (BitVec 16) 128} {next : Channel}

theorem Guarded.of_run {labels : List Label} {t : System}
    (hrun : run System.step
      (start keyValue fifospace leftBuffer rightBuffer left right next) labels = some t) :
    Guarded labels t := by
  have hinit : Guarded [] (start keyValue fifospace leftBuffer rightBuffer left right next) :=
    ⟨by simp [start], by simp [start, atStart], by simp [start, atStart]⟩
  refine run_invariant (P := Guarded) hinit ?_ hrun
  rintro history s (⟨channel, sample⟩ | e) t - h hstep
  · exact h.push hstep
  · exact h.cpu hstep

theorem used_left_iff_leftArrives {before pushes : List Label} {value : BitVec 32}
    {s : System} (hpush : ∀ l ∈ pushes, IsPush l)
    (hrun : run System.step (start keyValue fifospace leftBuffer rightBuffer left right next)
      (before ++ .cpu (.loadFifospace value) :: pushes) = some s) :
    0 < s.core.left.used ↔ LeftArrives value pushes := by
  obtain ⟨t, hbefore, hrest⟩ := exists_run_of_append hrun
  obtain ⟨u, hstep, hpushes⟩ := run_cons_eq_some.mp hrest
  obtain ⟨hanswers, hmove, hcore⟩ := step_cpu hstep
  have hguarded : Guarded (before ++ [.cpu (.loadFifospace value)]) u :=
    (Guarded.of_run hbefore).cpu hstep
  have hclear : u.core.clearReadFifos = false := by
    rw [← Bool.not_eq_true]
    intro hheld
    have hrelease := hguarded.held hheld
    rcases location_of_loadFifospace hmove with hafter | hafter <;> simp [hafter] at hrelease
  obtain ⟨-, -, hleft⟩ := run_pushes hpush hclear hpushes
  rw [hleft, LeftArrives, ralc_of_answers hanswers, hcore, Nat.pos_iff_ne_zero]
  rfl

theorem cpu_of_run_cons {s t : System} {e : Event} {after : List Label}
    (hrun : run System.step s (.cpu e :: after) = some t) : ∃ cpu, Moves s.cpu e cpu := by
  obtain ⟨u, hstep, -⟩ := run_cons_eq_some.mp hrun
  exact ⟨u.cpu, (step_cpu hstep).2.1⟩

theorem location_of_loadLeft {s cpu : State} {value : BitVec 32}
    (h : Moves s (.loadLeft value) cpu) : s.location = .loadLeft := by
  cases h with
  | leftStored _ hloc => exact hloc

theorem location_of_loadRight {s cpu : State} {value : BitVec 32}
    (h : Moves s (.loadRight value) cpu) : s.location = .loadRight := by
  cases h with
  | rightStored _ hloc | bufferFilled _ hloc => exact hloc

/-- Every read finds a sample exactly when, at every pass, the word that let
the loop in counts a left sample or one arrives before it is read. -/
theorem findsSample_iff {labels : List Label} {t : System}
    (hrun : run System.step
      (start keyValue fifospace leftBuffer rightBuffer left right next) labels = some t) :
    EveryStep System.step FindsSample
        (start keyValue fifospace leftBuffer rightBuffer left right next) labels ↔
      ∀ before value pushes word after, labels =
          before ++ .cpu (.loadFifospace value) :: pushes ++ .cpu (.loadLeft word) :: after →
        (∀ l ∈ pushes, IsPush l) → LeftArrives value pushes := by
  constructor
  · rintro hfinds before value pushes word after rfl hpush
    obtain ⟨s, hbefore, hafter⟩ := exists_run_of_append hrun
    rw [← used_left_iff_leftArrives hpush hbefore]
    exact hfinds _ _ after s rfl hbefore
  · rintro harrives before l after s rfl hbefore
    have hafter := run_of_append hbefore hrun
    have hguarded : Guarded before s := .of_run hbefore
    match l with
    | .push _ _ => trivial
    | .cpu (.loadLeft word) =>
        obtain ⟨cpu, hmove⟩ := cpu_of_run_cons hafter
        obtain ⟨front, value, pushes, rfl, hpush⟩ :=
          hguarded.entered (location_of_loadLeft hmove)
        exact (used_left_iff_leftArrives hpush hbefore).mpr
          (harrives front value pushes word after rfl hpush)
    -- The right register needs no condition: the loop has tested its count.
    | .cpu (.loadRight _) =>
        obtain ⟨cpu, hmove⟩ := cpu_of_run_cons hafter
        exact hguarded.right (Or.inr (location_of_loadRight hmove))
    | .cpu (.loadKey _) => trivial
    | .cpu (.storeControl _) => trivial
    | .cpu (.loadFifospace _) => trivial
    | .cpu .analyse => trivial

end Runs

section Misalignment

def silence (n : Nat) : Fifo (BitVec 16) 128 :=
  ⟨List.replicate (min n 128) 0, by simp⟩

theorem used_silence {n : Nat} (hn : n ≤ 128) : (silence n).used = n := by
  simp [silence, Fifo.used, hn]

theorem push_silence {n : Nat} (hn : n < 128) : (silence n).push 0#16 = silence (n + 1) := by
  apply Fifo.ext_words
  rw [Fifo.words_push_of_lt (by rwa [used_silence hn.le])]
  simp [silence, Nat.min_eq_left hn.le, Nat.min_eq_left (Nat.succ_le_of_lt hn),
    List.replicate_succ']

theorem pop_silence {n : Nat} (hn : n < 128) : (silence (n + 1)).pop = silence n := by
  apply Fifo.ext_words
  simp [silence, Fifo.pop, Nat.min_eq_left hn.le, Nat.min_eq_left (Nat.succ_le_of_lt hn)]

theorem first_silence {n : Nat} (hn : n < 128) : (silence (n + 1)).first = some 0#16 := by
  simp [silence, Fifo.first, Nat.min_eq_left (Nat.succ_le_of_lt hn), List.replicate_succ]

def silentCore (left right : Nat) : Core where
  left := silence left
  right := silence right
  next := .right
  clearReadFifos := false

def countWord (left right : Nat) : BitVec 32 :=
  (BitVec.ofNat 8 left ++ BitVec.ofNat 8 right).setWidth 32

theorem answers_countWord {left right : Nat} (hleft : left ≤ 128) (hright : right ≤ 128)
    (core : Core) (hl : core.left = silence left) (hr : core.right = silence right) :
    core.Answers (.loadFifospace (countWord left right)) := by
  change (countWord left right).setWidth 16 = core.readAvailable
  rw [Core.readAvailable, hl, hr, used_silence hleft, used_silence hright, countWord]
  exact BitVec.setWidth_setWidth_of_le _ (by decide)

def pushPairs : Nat → List Label
  | 0 => []
  | n + 1 => pushPairs n ++ [.push .right 0, .push .left 0]

theorem run_pushPairs {s : System} (hcore : s.core = silentCore 0 0) {n : Nat} (hn : n ≤ 128) :
    run System.step s (pushPairs n) = some { s with core := silentCore n n } := by
  induction n with
  | zero => simp [pushPairs, ← hcore]
  | succ n ih =>
      have hlt : n < 128 := hn
      rw [pushPairs, run_append_of_eq (ih hlt.le)]
      simp [run_cons, System.step, silentCore, Core.push, push_silence hlt]

/-- The passes that take the left FIFO from `n` samples to none while the right
one holds one more. -/
def drain : Nat → List Label
  | 0 => []
  | n + 1 =>
      .cpu (.loadLeft 0) :: .cpu (.loadRight 0) ::
        .cpu (.loadFifospace (countWord n (n + 1))) :: drain n

theorem run_drain_pass {s : System} {n : Nat} (hn : n + 1 < 128)
    (hloc : s.cpu.location = .loadLeft) (hindex : s.cpu.bufferIndex + 1 < bufSize)
    (hleft : s.core.left = silence (n + 1)) (hright : s.core.right = silence (n + 2)) :
    run System.step s [.cpu (.loadLeft 0), .cpu (.loadRight 0),
        .cpu (.loadFifospace (countWord n (n + 1)))] =
      some {
        cpu := { storePair 0 0 s.cpu with
          location := .loadLeft, fifospace := countWord n (n + 1) }
        core := { s.core with left := silence n, right := silence (n + 1) } } := by
  let s₁ : System := {
    cpu := { s.cpu with
      leftBuffer := Function.update s.cpu.leftBuffer s.cpu.bufferIndex (0 : BitVec 32).toInt
      location := .loadRight }
    core := { s.core with left := silence n } }
  let s₂ : System := {
    cpu := { storePair 0 0 s.cpu with location := .reloadFifospace }
    core := { s.core with left := silence n, right := silence (n + 1) } }
  have h₁ : s.step (.cpu (.loadLeft 0)) = some s₁ := by
    have hanswers : s.core.Answers (.loadLeft 0) := by
      intro sample hsample
      rw [hleft, first_silence (by omega)] at hsample
      obtain rfl := Option.mem_some_iff.mp hsample
      rfl
    have hpop : (silence (n + 1)).pop = silence n := pop_silence (by omega)
    rw [System.step, if_pos hanswers]
    simp [step, hloc, Core.access, hleft, hpop, s₁]
  have h₂ : s₁.step (.cpu (.loadRight 0)) = some s₂ := by
    have hanswers : s₁.core.Answers (.loadRight 0) := by
      intro sample hsample
      rw [show s₁.core.right = silence (n + 1 + 1) from hright, first_silence hn] at hsample
      obtain rfl := Option.mem_some_iff.mp hsample
      rfl
    rw [System.step, if_pos hanswers]
    simp [step, Core.access, hright, pop_silence hn, hindex.ne, storePair, s₁, s₂]
  have hanswers : s₂.core.Answers (.loadFifospace (countWord n (n + 1))) :=
    answers_countWord (by omega) (by omega) _ rfl rfl
  have hrarc : rarc (countWord n (n + 1)) = n + 1 := by
    rw [rarc_of_answers hanswers]
    exact used_silence (by omega)
  rw [run_cons_of_eq h₁, run_cons_of_eq h₂, run_cons, System.step, if_pos hanswers]
  simp [step, Core.access, testInner, hrarc, hindex, storePair, s₂]

theorem run_drain {s : System} {n : Nat} (hn : n < 128) (hloc : s.cpu.location = .loadLeft)
    (hindex : s.cpu.bufferIndex + n < bufSize) (hleft : s.core.left = silence n)
    (hright : s.core.right = silence (n + 1)) :
    ∃ t, run System.step s (drain n) = some t ∧ t.cpu.location = .loadLeft ∧
      t.core.left = silence 0 := by
  induction n generalizing s with
  | zero => exact ⟨s, rfl, hloc, hleft⟩
  | succ n ih =>
      have hpass := run_drain_pass hn hloc (by omega) hleft hright
      obtain ⟨t, hrun, ht⟩ := @ih {
        cpu := { storePair 0 0 s.cpu with
          location := .loadLeft, fifospace := countWord n (n + 1) }
        core := { s.core with left := silence n, right := silence (n + 1) } } (by omega) rfl
        (by change s.cpu.bufferIndex + 1 + n < bufSize; omega) rfl rfl
      refine ⟨t, ?_, ht⟩
      rw [← hrun]
      exact run_append_of_eq hpass (drain n)

def quietSystem : System :=
  start 0 0 (fun _ => 0) (fun _ => 0) (silence 0) (silence 0) .left

def clearBetweenSamples : List Label :=
  [.push .left 0, .cpu (.loadKey 0x1), .cpu (.loadKey 0), .cpu (.storeControl 0x4),
    .cpu (.storeControl 0x0)]

def misaligned : List Label :=
  clearBetweenSamples ++ (pushPairs 96 ++ (.push .right 0 ::
    .cpu (.loadFifospace (countWord 96 97)) :: drain 96))

theorem run_misaligned : ∃ t, run System.step quietSystem misaligned = some t ∧
    t.cpu.location = .loadLeft ∧ t.core.left = silence 0 := by
  let s₁ : System := {
    cpu := { quietStart with location := .loadFifospace, record := true, keyValue := 0x1 }
    core := silentCore 0 0 }
  let s₂ : System := { s₁ with
    core := { silentCore 96 96 with right := silence 97, next := .left } }
  let s₃ : System := { s₂ with
    cpu := { s₁.cpu with location := .loadLeft, fifospace := countWord 96 97 } }
  have hcleared : run System.step quietSystem clearBetweenSamples = some s₁ := rfl
  have hpushes : run System.step s₁ (pushPairs 96) = some { s₁ with core := silentCore 96 96 } :=
    run_pushPairs rfl (by decide)
  have hlast : System.step { s₁ with core := silentCore 96 96 } (.push .right 0) = some s₂ := by
    simp [System.step, Core.push, silentCore, push_silence (by decide : 96 < 128), s₂]
  have hanswers : s₂.core.Answers (.loadFifospace (countWord 96 97)) :=
    answers_countWord (by decide) (by decide) _ rfl rfl
  have hentered : s₂.step (.cpu (.loadFifospace (countWord 96 97))) = some s₃ := by
    have hrarc : rarc (countWord 96 97) = 97 := by decide
    rw [System.step, if_pos hanswers]
    simp [step, testInner, hrarc, Core.access, bufThreshold, bufSize, quietStart, atStart,
      s₁, s₂, s₃]
  obtain ⟨t, hdrained, ht⟩ := @run_drain s₃ 96 (by decide) rfl (by decide) rfl rfl
  refine ⟨t, ?_, ht⟩
  rw [misaligned, run_append_of_eq hcleared, run_append_of_eq hpushes, run_cons_of_eq hlast,
    run_cons_of_eq hentered, hdrained]

theorem findsSample_iff_misaligned :
    (∃ t, run System.step quietSystem misaligned = some t) ∧
      (EveryStep System.step FindsSample quietSystem misaligned ↔
        ∀ before value pushes word after, misaligned =
            before ++ .cpu (.loadFifospace value) :: pushes ++ .cpu (.loadLeft word) :: after →
          (∀ l ∈ pushes, IsPush l) → LeftArrives value pushes) := by
  obtain ⟨t, hrun, -⟩ := run_misaligned
  exact ⟨⟨t, hrun⟩, findsSample_iff hrun⟩

/-- The right FIFO holds one sample more, so that the last pass reads the left
register while the left FIFO is empty. -/
theorem not_findsSample_misaligned :
    (∃ t, run System.step quietSystem (misaligned ++ [.cpu (.loadLeft 0)]) = some t) ∧
      ¬ EveryStep System.step FindsSample quietSystem (misaligned ++ [.cpu (.loadLeft 0)]) := by
  obtain ⟨t, hrun, hloc, hleft⟩ := run_misaligned
  constructor
  · have hanswers : t.core.Answers (.loadLeft 0) := by
      intro sample hsample
      rw [hleft] at hsample
      exact absurd hsample (by simp [silence, Fifo.first])
    rw [run_append_of_eq hrun, run_cons, System.step, if_pos hanswers]
    simp [step, hloc]
  · intro hfinds
    have hpos : 0 < t.core.left.used := hfinds.last hrun
    rw [hleft, used_silence (Nat.zero_le 128)] at hpos
    exact lt_irrefl 0 hpos

end Misalignment

end RockPaperScissors.FilledReads
