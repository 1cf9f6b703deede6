import RockPaperScissors.MicrophoneBounds

namespace RockPaperScissors.MicrophoneTrigger

open RockPaperScissors.Library.LabelledRun
open RockPaperScissors.MicrophoneBounds
open RockPaperScissors.MicrophoneClocking
open RockPaperScissors.MicrophoneInput

section Histories

variable (p : Parameters) (start : State)

/-- `key` has been high at a moment of the history after which `DONE` was not
reached. -/
def AssertedSinceDone (history : List Event) : Prop :=
  ∃ before after u, history = before ++ after ∧ run (step p) start before = some u ∧
    u.key = true ∧ ∀ front back v, after = front ++ back →
      run (step p) start (before ++ front) = some v → v.state ≠ .done

/-- `RECORDING` is entered from `WAIT_FOR_KEY`, and a sample is written, only
after `key` was asserted. -/
def RespondsToUser (events : List Event) : Prop :=
  ∀ before e after s t, events = before ++ e :: after → run (step p) start before = some s →
    step p s e = some t →
      (s.state = .waitForKey ∧ t.state = .recording ∨ bufferWrite p s e ≠ none) →
        AssertedSinceDone p start before

/-- Neither two clock edges follow power-up at once nor three of them `DONE`. -/
def KeyInTime (events : List Event) : Prop :=
  (start.key = false → ∀ x y after,
      events ≠ .posedgeClk x :: .posedgeClk y :: after) ∧
    ∀ before x y z after s,
      events = before ++ .posedgeClk x :: .posedgeClk y :: .posedgeClk z :: after →
        run (step p) start before = some s → s.state ≠ .done

variable {p start}

theorem AssertedSinceDone.here {history : List Event} {s : State}
    (hrun : run (step p) start history = some s) (hkey : s.key = true)
    (hdone : s.state ≠ .done) : AssertedSinceDone p start history := by
  refine ⟨history, [], s, by simp, hrun, hkey, ?_⟩
  intro front back v hsplit hv
  obtain ⟨rfl, rfl⟩ := List.append_eq_nil_iff.mp hsplit.symm
  rw [List.append_nil] at hv
  obtain rfl : s = v := Option.some.inj (hrun.symm.trans hv)
  exact hdone

theorem AssertedSinceDone.extend {history : List Event} {e : Event} {t : State}
    (h : AssertedSinceDone p start history)
    (hrun : run (step p) start (history ++ [e]) = some t) (hdone : t.state ≠ .done) :
    AssertedSinceDone p start (history ++ [e]) := by
  obtain ⟨before, after, u, rfl, hbefore, hkey, hnone⟩ := h
  refine ⟨before, after ++ [e], u, by simp, hbefore, hkey, ?_⟩
  intro front back v hsplit hv
  rcases List.eq_nil_or_concat back with rfl | ⟨back, x, rfl⟩
  · rw [List.append_nil] at hsplit
    rw [← hsplit, ← List.append_assoc] at hv
    obtain rfl : t = v := Option.some.inj (hrun.symm.trans hv)
    exact hdone
  · have hcut : after ++ [e] = (front ++ back) ++ [x] := by
      rw [hsplit]
      simp
    exact hnone front back v (List.append_inj_left' hcut rfl) hv

theorem KeyInTime.of_append {events more : List Event}
    (h : KeyInTime p start (events ++ more)) : KeyInTime p start events := by
  constructor
  · rintro hkey x y after rfl
    exact h.1 hkey x y (after ++ more) (by simp)
  · rintro before x y z after s rfl hrun
    exact h.2 before x y z (after ++ more) s (by simp) hrun

/-- The ways to a state with `key` low and not asserted: fewer than two clock
edges after power-up, or fewer than three after `DONE`. -/
inductive Unattended (p : Parameters) (start : State) : List Event → FsmState → Prop
  | done (history : List Event) : Unattended p start history .done
  | powerUp (hkey : start.key = false) : Unattended p start [] .idle
  | idle (before : List Event) (x : BitVec 16) (u : State)
      (hrun : run (step p) start before = some u) (hdone : u.state = .done) :
      Unattended p start (before ++ [.posedgeClk x]) .idle
  | first (x : BitVec 16) (hkey : start.key = false) :
      Unattended p start [.posedgeClk x] .waitForKey
  | second (before : List Event) (x y : BitVec 16) (u : State)
      (hrun : run (step p) start before = some u) (hdone : u.state = .done) :
      Unattended p start (before ++ [.posedgeClk x, .posedgeClk y]) .waitForKey

theorem Unattended.ne_recording {history : List Event} {state : FsmState}
    (h : Unattended p start history state) : state ≠ .recording := by
  cases h <;> decide

theorem Unattended.next {history : List Event} {state : FsmState}
    (h : Unattended p start history state) (hstate : state = .idle) (x : BitVec 16) :
    Unattended p start (history ++ [.posedgeClk x]) .waitForKey := by
  cases h with
  | done | first | second => cases hstate
  | powerUp hkey => exact .first x hkey
  | idle before y u hrun hdone =>
      rw [List.append_assoc]
      exact .second before y x u hrun hdone

theorem Unattended.not_keyInTime {history : List Event} {state : FsmState}
    (h : Unattended p start history state) (hstate : state = .waitForKey) (x : BitVec 16) :
    ¬ KeyInTime p start (history ++ [.posedgeClk x]) := by
  rintro ⟨hfirst, hlater⟩
  cases h with
  | done | powerUp | idle => cases hstate
  | first y hkey => exact hfirst hkey y x [] rfl
  | second before y z u hrun hdone =>
      exact hlater before y z x [] u (by simp) hrun hdone

end Histories

section Runs

variable {p : Parameters} {audioBuffer : Nat → BitVec 16} {ledr : BitVec 18} {key : Bool}

theorem asserted_or_unattended {events : List Event} {s : State}
    (hrun : run (step p) (powerUp audioBuffer ledr key) events = some s)
    (hcond : KeyInTime p (powerUp audioBuffer ledr key) events) :
    AssertedSinceDone p (powerUp audioBuffer ledr key) events ∨
      s.key = false ∧ Unattended p (powerUp audioBuffer ledr key) events s.state := by
  refine run_invariant
    (P := fun history s => KeyInTime p (powerUp audioBuffer ledr key) history →
      AssertedSinceDone p (powerUp audioBuffer ledr key) history ∨
        s.key = false ∧ Unattended p (powerUp audioBuffer ledr key) history s.state)
    ?_ ?_ hrun hcond
  · intro _
    cases hkey : key with
    | true => exact Or.inl (.here rfl rfl (by simp [powerUp]))
    | false => exact Or.inr ⟨rfl, .powerUp rfl⟩
  · intro history t e u hbefore ht hstep hin
    have hafter := run_concat_eq_some.mpr ⟨t, hbefore, hstep⟩
    rcases ht hin.of_append with hasserted | ⟨hkey, hunattended⟩
    · by_cases hdone : u.state = .done
      · rw [hdone]
        exact Or.inr ⟨(DoneCount.of_run hafter hdone).1, .done _⟩
      · exact Or.inl (hasserted.extend hafter hdone)
    · refine step_elim (P := fun e u =>
        run (step p) (powerUp audioBuffer ledr key) (history ++ [e]) = some u →
        KeyInTime p (powerUp audioBuffer ledr key) (history ++ [e]) →
        AssertedSinceDone p (powerUp audioBuffer ledr key) (history ++ [e]) ∨
          u.key = false ∧
            Unattended p (powerUp audioBuffer ledr key) (history ++ [e]) u.state) hstep
        ?press ?release ?held ?idle ?waiting ?sample ?count ?finished hafter hin
      case press =>
        intro _ _ hpressed _
        exact Or.inl (.here hpressed rfl (by simp))
      case release =>
        intro hhigh
        exact absurd hhigh (by simp [hkey])
      case held =>
        intro _ hhigh
        exact absurd hhigh (by simp [hkey])
      case idle =>
        intro micIn _ hidle _ _
        exact Or.inr ⟨hkey, hunattended.next hidle micIn⟩
      case waiting =>
        intro micIn _ hwait _ hbroken
        exact absurd hbroken (hunattended.not_keyInTime hwait micIn)
      case sample =>
        intro _ _ hrecording
        exact absurd hrecording hunattended.ne_recording
      case count =>
        intro _ _ hrecording
        exact absurd hrecording hunattended.ne_recording
      case finished =>
        intro micIn _ hdone _ _
        exact Or.inr ⟨hkey, .idle history micIn t hbefore hdone⟩

theorem respondsToUser_of_keyInTime {events : List Event}
    (hcond : KeyInTime p (powerUp audioBuffer ledr key) events) :
    RespondsToUser p (powerUp audioBuffer ledr key) events := by
  rintro before e after s t rfl hrun hstep hresponse
  have hin : KeyInTime p (powerUp audioBuffer ledr key) (before ++ [e]) := by
    rw [List.append_cons] at hcond
    exact hcond.of_append
  rcases asserted_or_unattended hrun hcond.of_append with hasserted | ⟨hkey, hunattended⟩
  · exact hasserted
  rcases hresponse with ⟨hwait, hrecording⟩ | hwrite
  · cases e with
    | posedgeKey micIn =>
        simp [step, alwaysBlock, hkey] at hstep
        simp [← hstep] at hrecording
    | negedgeKey => simp [step, hkey] at hstep
    | posedgeClk micIn => exact absurd hin (hunattended.not_keyInTime hwait micIn)
  · have hsamples : samples p s = true := by
      rw [← Bool.not_eq_false]
      intro hno
      cases e <;> simp [bufferWrite, hno] at hwrite
    simp only [samples, Bool.and_eq_true, beq_iff_eq] at hsamples
    exact absurd hsamples.1.2 hunattended.ne_recording

end Runs

section ClockEdges

variable {p : Parameters} {start : State}

theorem alwaysBlock_key (p : Parameters) (micIn : BitVec 16) (s : State) :
    (alwaysBlock p micIn s).key = s.key := by
  unfold alwaysBlock
  split
  · rfl
  · split
    · rfl
    · split <;> rfl
    · split
      · exact takeSample_key p micIn s
      · rfl
    · rfl

theorem edges_key (p : Parameters) (s : State) (inputs : List (BitVec 16)) :
    (edges p s inputs).key = s.key := by
  induction inputs generalizing s with
  | nil => rfl
  | cons x inputs ih => rw [edges_cons, ih, alwaysBlock_key]

theorem not_assertedSinceDone {base : List Event} {s : State}
    (hbase : run (step p) start base = some s) (hkey : s.key = false)
    (hsince : base = [] ∨ s.state = .done) (inputs : List (BitVec 16)) :
    ¬ AssertedSinceDone p start (base ++ inputs.map .posedgeClk) := by
  rintro ⟨before, after, u, hsplit, hrun, hhigh, hnone⟩
  rcases List.append_eq_append_iff.mp hsplit with ⟨c, rfl, hc⟩ | ⟨c, rfl, hc⟩
  · obtain ⟨early, late, rfl, rfl, -⟩ := List.map_eq_append_iff.mp hc
    rw [run_append_of_eq hbase, run_map_posedgeClk] at hrun
    obtain rfl := Option.some.inj hrun
    rw [edges_key, hkey] at hhigh
    cases hhigh
  · rcases hsince with hnil | hdone
    · obtain ⟨rfl, rfl⟩ := List.append_eq_nil_iff.mp hnil
      obtain rfl : s = u := Option.some.inj (hbase.symm.trans hrun)
      rw [hkey] at hhigh
      cases hhigh
    · exact hnone c _ s hc hbase hdone

theorem RespondsToUser.asserted_of_idle (history : List Event) {after : List Event}
    {x y : BitVec 16}
    (h : RespondsToUser p start (history ++ .posedgeClk x :: .posedgeClk y :: after))
    {s : State} (hrun : run (step p) start history = some s) (hkey : s.key = false)
    (hidle : s.state = .idle) :
    AssertedSinceDone p start (history ++ [.posedgeClk x]) := by
  have hwait : (alwaysBlock p x s).state = .waitForKey := by
    rw [alwaysBlock_of_idle x hkey hidle]
  have hentry : (alwaysBlock p y (alwaysBlock p x s)).state = .recording :=
    (edges_from_idle hkey hidle x y).1.state
  refine h _ (.posedgeClk y) after (alwaysBlock p x s) _ (by simp)
    (run_concat_eq_some.mpr ⟨s, hrun, rfl⟩) rfl (Or.inl ⟨hwait, hentry⟩)

end ClockEdges

/-- The user is waited for in exactly the runs in which the key is pressed
before the recorder has had the clock edges to pass through `WAIT_FOR_KEY`. -/
theorem respondsToUser_iff (p : Parameters) (audioBuffer : Nat → BitVec 16)
    (ledr : BitVec 18) (key : Bool) (events : List Event) :
    RespondsToUser p (powerUp audioBuffer ledr key) events ↔
      KeyInTime p (powerUp audioBuffer ledr key) events := by
  constructor
  · intro h
    constructor
    · rintro hkey x y after rfl
      have hasserted := RespondsToUser.asserted_of_idle [] h rfl hkey rfl
      exact not_assertedSinceDone rfl hkey (Or.inl rfl) [x] hasserted
    · rintro before x y z after s rfl hrun hdone
      have hkey := (DoneCount.of_run hrun hdone).1
      have hnext : (alwaysBlock p x s).state = .idle := by
        rw [alwaysBlock_of_done x hkey hdone]
      have hidle : run (step p) (powerUp audioBuffer ledr key) (before ++ [.posedgeClk x]) =
          some (alwaysBlock p x s) :=
        run_concat_eq_some.mpr ⟨s, hrun, rfl⟩
      rw [List.append_cons] at h
      have hasserted := h.asserted_of_idle _ hidle (by rw [alwaysBlock_key, hkey]) hnext
      rw [List.append_assoc] at hasserted
      exact not_assertedSinceDone hrun hkey (Or.inr hdone) [x, y] hasserted
  · exact respondsToUser_of_keyInTime

theorem not_respondsToUser_after_powerUp :
    ¬ RespondsToUser defaultParameters (powerUp (fun _ => 0) 0 false)
      [.posedgeClk 0, .posedgeClk 0] := by
  intro h
  have hasserted := RespondsToUser.asserted_of_idle [] h rfl rfl rfl
  exact not_assertedSinceDone rfl rfl (Or.inl rfl) [0] hasserted

end RockPaperScissors.MicrophoneTrigger
