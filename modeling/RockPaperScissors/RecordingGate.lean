import RockPaperScissors.Library.EventHistory
import RockPaperScissors.RecordLoop

namespace RockPaperScissors.RecordingGate

open RockPaperScissors.Library.EventHistory
open RockPaperScissors.Library.LabelledRun
open RockPaperScissors.RecordLoop

def ReadsSample : Event → Prop
  | .loadLeft _ => True
  | .loadRight _ => True
  | _ => False

/-- Samples are read while `record` is set, and nothing is read or analysed
between an analysis and the next press of KEY0. -/
def ReadsOnlyRecording (s : State) (events : List Event) : Prop :=
  ∀ before e after t, events = before ++ e :: after → run step s before = some t →
    (ReadsSample e → t.record = true) ∧
      (ReadsSample e ∨ e = .analyse → FollowedBy .analyse (.storeControl 0x4) before)

/-- The FIFO is found empty when the inner loop is tested after an analysis. -/
def DrainedAfterAnalysis (s : State) (e : Event) : Prop :=
  s.location = .reloadFifospace → s.record = false →
    ∀ value, e = .loadFifospace value → rarc value = 0

structure Gated (history : List Event) (s : State) : Prop where
  inside : s.location = .loadFifospace ∨ s.location = .loadLeft ∨ s.location = .loadRight ∨
    s.location = .analysis → s.record = true
  pressed : s.record = true ∨ s.location = .releaseIn →
    FollowedBy .analyse (.storeControl 0x4) history

theorem gated_atStart (keyValue fifospace : BitVec 32) (leftBuffer rightBuffer : Nat → Int) :
    Gated [] (atStart keyValue fifospace leftBuffer rightBuffer) where
  inside := by simp [atStart]
  pressed _ := .nil

theorem Gated.inside_move {history : List Event} {s t : State} {e : Event}
    (h : Gated history s) (hdrained : DrainedAfterAnalysis s e) (hmove : Moves s e t)
    (hloc : t.location = .loadFifospace ∨ t.location = .loadLeft ∨ t.location = .loadRight ∨
      t.location = .analysis) : t.record = true := by
  cases hmove with
  | keyHeld => exact h.inside hloc
  | started => rfl
  | otherKeys | playStarted =>
      refine record_of_returnFromKeys_ne fun hidle => ?_
      rw [hidle] at hloc
      simp at hloc
  | passEntered value hs hvalue =>
      rcases hs with ⟨hs, -⟩ | hs
      · exact h.inside (Or.inl hs)
      · rw [← Bool.not_eq_false]
        intro hrecord
        exact hvalue (hdrained hs hrecord value rfl)
  | leftStored value hs => exact h.inside (Or.inr (Or.inl hs))
  | bufferFilled value hs => exact h.inside (Or.inr (Or.inr (Or.inl hs)))
  | _ => simp at hloc

theorem Gated.pressed_move {history : List Event} {s t : State} {e : Event}
    (h : Gated history s) (hmove : Moves s e t)
    (hrecord : t.record = true ∨ t.location = .releaseIn) :
    FollowedBy .analyse (.storeControl 0x4) (history ++ [e]) := by
  cases hmove with
  | cleared => exact .last (by simp)
  | started hloc => exact (h.pressed (Or.inr hloc)).extend (by simp)
  | otherKeys | playStarted =>
      have hpressed : s.record = true :=
        hrecord.resolve_right (returnFromKeys_ne (by decide) (by decide) _)
      exact (h.pressed (Or.inl hpressed)).extend (by simp)
  | keyHeld => exact (h.pressed hrecord).extend (by simp)
  | analysed => simp at hrecord
  | _ => exact (h.pressed (Or.inl (by simpa using hrecord))).extend (by simp)

theorem Gated.move {history : List Event} {s t : State} {e : Event} (h : Gated history s)
    (hdrained : DrainedAfterAnalysis s e) (hmove : Moves s e t) :
    Gated (history ++ [e]) t where
  inside := h.inside_move hdrained hmove
  pressed := h.pressed_move hmove

theorem Gated.of_run {keyValue fifospace : BitVec 32} {leftBuffer rightBuffer : Nat → Int}
    {events : List Event} {t : State}
    (hrun : run step (atStart keyValue fifospace leftBuffer rightBuffer) events = some t)
    (hdrained : EveryStep step DrainedAfterAnalysis
      (atStart keyValue fifospace leftBuffer rightBuffer) events) : Gated events t := by
  refine history_invariant (P := Gated)
    (gated_atStart keyValue fifospace leftBuffer rightBuffer) ?_ hrun hdrained
  intro labels t e u _ ht hcond hstep
  exact ht.move hcond (moves_of_step hstep)

theorem inside_of_step {s t : State} {e : Event} (h : step s e = some t)
    (he : ReadsSample e ∨ e = .analyse) :
    s.location = .loadFifospace ∨ s.location = .loadLeft ∨ s.location = .loadRight ∨
      s.location = .analysis := by
  cases moves_of_step h with
  | leftStored value hloc => exact Or.inr (Or.inl hloc)
  | rightStored value hloc | bufferFilled value hloc => exact Or.inr (Or.inr (Or.inl hloc))
  | analysed hloc => exact Or.inr (Or.inr (Or.inr hloc))
  | _ => simp [ReadsSample] at he

theorem readsOnlyRecording {keyValue fifospace : BitVec 32}
    {leftBuffer rightBuffer : Nat → Int} {events : List Event} {u : State}
    (hrun : run step (atStart keyValue fifospace leftBuffer rightBuffer) events = some u)
    (hdrained : EveryStep step DrainedAfterAnalysis
      (atStart keyValue fifospace leftBuffer rightBuffer) events) :
    ReadsOnlyRecording (atStart keyValue fifospace leftBuffer rightBuffer) events := by
  rintro before e after t rfl hbefore
  have hgated : Gated before t := .of_run hbefore hdrained.of_append
  obtain ⟨v, hstep, -⟩ := run_cons_eq_some.mp (run_of_append hbefore hrun)
  have hrecord : ReadsSample e ∨ e = .analyse → t.record = true := fun he =>
    hgated.inside (inside_of_step hstep he)
  constructor
  · intro he
    exact hrecord (Or.inl he)
  · intro he
    exact hgated.pressed (Or.inl (hrecord he))

theorem record_of_move {s t : State} {e : Event} (hmove : Moves s e t) (he : e ≠ .analyse)
    (hrecord : s.record = true) : t.record = true := by
  cases hmove with
  | started => rfl
  | analysed => exact absurd rfl he
  | _ => exact hrecord

theorem record_of_run {s t : State} {events : List Event} (hrecord : s.record = true)
    (hrun : run step s events = some t) (hanalyse : .analyse ∉ events) : t.record = true := by
  refine history_invariant (C := fun _ e => e ≠ .analyse) (P := fun _ t => t.record = true)
    hrecord ?_ hrun ?_
  · intro labels t e u _ ht he hstep
    exact record_of_move (moves_of_step hstep) he ht
  · rintro before e after t rfl -
    rintro rfl
    exact hanalyse (by simp)

theorem drained_of_record {s : State} {events : List Event} (hrecord : s.record = true)
    (hanalyse : .analyse ∉ events) : EveryStep step DrainedAfterAnalysis s events := by
  rintro before e after t rfl hrun hloc hfalse
  have htrue := record_of_run hrecord hrun fun h => hanalyse (by simp [h])
  simp [htrue] at hfalse

theorem drained_of_not_mem {s : State} {events : List Event}
    (hload : ∀ value, .loadFifospace value ∉ events) :
    EveryStep step DrainedAfterAnalysis s events := by
  rintro before e after t rfl - - - value rfl
  exact absurd (by simp) (hload value)

theorem drained_pressKey0 : EveryStep step DrainedAfterAnalysis quietStart pressKey0 := by
  have hkeys : run step quietStart (pressKey0.take 4) =
      some { quietStart with location := .loadFifospace, record := true, keyValue := 1 } := rfl
  rw [← List.take_append_drop 4 pressKey0]
  refine (drained_of_not_mem (by simp [pressKey0])).append fun t ht => ?_
  obtain rfl := Option.some.inj (hkeys.symm.trans ht)
  exact drained_of_record rfl (by simp [pressKey0])

theorem readsOnlyRecording_fillBuffer :
    (∃ u, run step quietStart
        (pressKey0 ++ (fillBuffer 5 ++ [.analyse, .loadFifospace 0])) = some u) ∧
      EveryStep step DrainedAfterAnalysis quietStart
        (pressKey0 ++ (fillBuffer 5 ++ [.analyse, .loadFifospace 0])) ∧
      ReadsOnlyRecording quietStart
        (pressKey0 ++ (fillBuffer 5 ++ [.analyse, .loadFifospace 0])) := by
  obtain ⟨t, hfill, hloc, -, -⟩ := @run_fillBuffer recordingStarted rfl rfl 5
  have hrun : run step quietStart
      (pressKey0 ++ (fillBuffer 5 ++ [.analyse, .loadFifospace 0])) =
      some { t with
        record := false, bufferIndex := 0, fifospace := 0, location := .loadKey } := by
    rw [run_append_of_eq run_pressKey0, run_append_of_eq hfill]
    simp [run_cons, step, hloc, testInner, rarc]
  have hdrained : EveryStep step DrainedAfterAnalysis quietStart
      (pressKey0 ++ (fillBuffer 5 ++ [.analyse, .loadFifospace 0])) := by
    refine drained_pressKey0.append fun s hs => ?_
    obtain rfl : recordingStarted = s := Option.some.inj (run_pressKey0.symm.trans hs)
    refine (drained_of_record rfl (analyse_not_mem_fillBuffer 5)).append fun u _ => ?_
    refine .cons ?_ fun v _ => .cons ?_ fun w _ => .nil
    · rintro - - value h
      exact absurd h (by simp)
    · rintro - - value h
      obtain rfl := Event.loadFifospace.inj h
      rfl
  exact ⟨⟨_, hrun⟩, hdrained, readsOnlyRecording hrun hdrained⟩

/-- The FIFO is not empty yet when the analysis is done: a sample is read while
nothing is recorded. -/
theorem not_readsOnlyRecording_after_analysis :
    (∃ u, run step quietStart
        (pressKey0 ++ (fillBuffer 5 ++ [.analyse, .loadFifospace 97, .loadLeft 0])) = some u) ∧
      ¬ ReadsOnlyRecording quietStart
        (pressKey0 ++ (fillBuffer 5 ++ [.analyse, .loadFifospace 97, .loadLeft 0])) := by
  obtain ⟨t, hfill, hloc, -, -⟩ := @run_fillBuffer recordingStarted rfl rfl 5
  have hbefore : run step quietStart
      (pressKey0 ++ (fillBuffer 5 ++ [.analyse, .loadFifospace 97])) =
      some { t with
        record := false, bufferIndex := 0, fifospace := 97, location := .loadLeft } := by
    rw [run_append_of_eq run_pressKey0, run_append_of_eq hfill]
    simp [run_cons, step, hloc, testInner, rarc, bufSize]
  have hsplit : pressKey0 ++ (fillBuffer 5 ++ [.analyse, .loadFifospace 97, .loadLeft 0]) =
      pressKey0 ++ (fillBuffer 5 ++ [.analyse, .loadFifospace 97]) ++ .loadLeft 0 :: [] := by
    simp
  constructor
  · rw [hsplit, run_append_of_eq hbefore]
    exact ⟨_, rfl⟩
  · intro h
    have hrecord := (h _ _ _ _ hsplit hbefore).1 trivial
    simp at hrecord

end RockPaperScissors.RecordingGate
