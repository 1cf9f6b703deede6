import RockPaperScissors.MicrophoneClocking

namespace RockPaperScissors.MicrophonePacing

open RockPaperScissors.Library.LabelledRun
open RockPaperScissors.MicrophoneInput
open RockPaperScissors.MicrophoneClocking

def recordingEdge (s : State) : Event → Bool
  | .posedgeClk _ => !s.key && s.state == .recording
  | .posedgeKey _ => false
  | .negedgeKey => false

def writes (p : Parameters) (s : State) (e : Event) : Bool := (bufferWrite p s e).isSome

theorem writes_eq (p : Parameters) (s : State) (e : Event) :
    writes p s e = (recordingEdge s e && sampleTick p s) := by
  cases e with
  | posedgeKey => rfl
  | negedgeKey => rfl
  | posedgeClk micIn =>
      rw [writes, bufferWrite, recordingEdge, ← samples]
      cases samples p s <;> rfl

/-- What `audio_buffer` holds after an event that writes to it or does not. -/
def stored (buffer : Nat → BitVec 16) : Option (Nat × BitVec 16) → Nat → BitVec 16
  | some (address, value) => Function.update buffer address value
  | none => buffer

theorem step_audioBuffer {p : Parameters} {s t : State} {e : Event} (h : step p s e = some t) :
    t.audioBuffer = stored s.audioBuffer (bufferWrite p s e) := by
  cases e with
  | posedgeKey micIn =>
      cases hkey : s.key with
      | true => simp [step, hkey] at h
      | false =>
          obtain rfl : alwaysBlock p micIn { s with key := true } = t := by
            simpa [step, hkey] using h
          rw [alwaysBlock_of_key micIn rfl]
          rfl
  | negedgeKey =>
      cases hkey : s.key with
      | false => simp [step, hkey] at h
      | true =>
          obtain rfl : { s with key := false } = t := by simpa [step, hkey] using h
          rfl
  | posedgeClk micIn =>
      obtain rfl : alwaysBlock p micIn s = t := by simpa [step] using h
      rw [alwaysBlock_audioBuffer, bufferWrite]
      cases samples p s <;> rfl

/-- After `edgeCount` edges in `RECORDING` and `writeCount` writes, the tick
counter holds what is left of the edges, and nothing where the state that
clears it is near. -/
structure InPace (p : Parameters) (edgeCount writeCount : Nat) (s : State) : Prop where
  edges_eq : edgeCount = writeCount * p.samplePeriod + s.clkCount.toNat
  clkCount_lt : s.clkCount.toNat < p.samplePeriod
  clkCount_zero : s.state = .idle ∨ s.state = .done → s.clkCount = 0

theorem inPace_powerUp (p : Parameters) (buffer : Nat → BitVec 16) (ledr : BitVec 18)
    (key : Bool) : InPace p 0 0 (powerUp buffer ledr key) where
  edges_eq := by simp [powerUp]
  clkCount_lt := by simpa [powerUp] using samplePeriod_pos p
  clkCount_zero _ := rfl

section Step

variable {p : Parameters} {edgeCount writeCount : Nat} {s t : State} {e : Event}

theorem InPace.sampleTick_eq_true_iff (h : InPace p edgeCount writeCount s) :
    sampleTick p s = true ↔ edgeCount + 1 = (writeCount + 1) * p.samplePeriod := by
  have hedges := h.edges_eq
  have hlt := h.clkCount_lt
  rw [MicrophoneClocking.sampleTick_eq_true_iff, Nat.succ_mul]
  omega

theorem recordingEdge_eq_false (micIn : BitVec 16) (h : s.key = true ∨ s.state ≠ .recording) :
    recordingEdge s (.posedgeClk micIn) = false := by
  rcases h with hkey | hstate
  · simp [recordingEdge, hkey]
  · simp [recordingEdge, hstate]

theorem recordingEdge_eq_true (micIn : BitVec 16) (hkey : s.key = false)
    (hstate : s.state = .recording) : recordingEdge s (.posedgeClk micIn) = true := by
  simp [recordingEdge, hkey, hstate]

theorem writes_of_recordingEdge_eq_false (h : recordingEdge s e = false) :
    writes p s e = false := by
  rw [writes_eq, h, Bool.false_and]

theorem InPace.quiet (h : InPace p edgeCount writeCount t) (hedge : recordingEdge s e = false) :
    InPace p (edgeCount + (recordingEdge s e).toNat) (writeCount + (writes p s e).toNat) t := by
  rw [writes_of_recordingEdge_eq_false hedge, hedge]
  exact h

theorem InPace.move (h : InPace p edgeCount writeCount s) (hclk : t.clkCount = s.clkCount)
    (hidle : t.state ≠ .idle) (hdone : t.state ≠ .done) : InPace p edgeCount writeCount t where
  edges_eq := by rw [hclk, h.edges_eq]
  clkCount_lt := hclk ▸ h.clkCount_lt
  clkCount_zero hstate := (hstate.elim hidle hdone).elim

theorem InPace.next (h : InPace p edgeCount writeCount s) (hstep : step p s e = some t) :
    InPace p (edgeCount + (recordingEdge s e).toNat) (writeCount + (writes p s e).toNat) t := by
  have hperiod := samplePeriod_pos p
  refine step_elim (P := fun e t =>
    InPace p (edgeCount + (recordingEdge s e).toNat) (writeCount + (writes p s e).toNat) t) hstep
    ?press ?release ?held ?idle ?waiting ?sample ?count ?finished
  case press =>
    intro micIn _
    apply InPace.quiet _ rfl
    exact h.move rfl FsmState.noConfusion FsmState.noConfusion
  case release =>
    intro _
    exact ⟨h.edges_eq, h.clkCount_lt, h.clkCount_zero⟩
  case held =>
    intro micIn hkey
    apply InPace.quiet _ (recordingEdge_eq_false micIn (Or.inl hkey))
    exact h.move rfl FsmState.noConfusion FsmState.noConfusion
  case idle =>
    intro micIn _ hstate
    apply InPace.quiet _ (recordingEdge_eq_false micIn (Or.inr (by simp [hstate])))
    refine ⟨?_, hperiod, fun _ => rfl⟩
    rw [h.edges_eq, h.clkCount_zero (Or.inl hstate)]
  case waiting =>
    intro micIn _ hstate
    apply InPace.quiet _ (recordingEdge_eq_false micIn (Or.inr (by simp [hstate])))
    exact h.move rfl FsmState.noConfusion FsmState.noConfusion
  case sample =>
    intro micIn hkey hstate htick
    have hclk : (takeSample p micIn s).clkCount = 0 := takeSample_clkCount p micIn s
    rw [writes_eq, recordingEdge_eq_true micIn hkey hstate, htick]
    refine ⟨?_, by rw [hclk]; exact hperiod, fun _ => hclk⟩
    rw [hclk]
    exact h.sampleTick_eq_true_iff.mp htick
  case count =>
    intro micIn hkey hstate htick
    obtain ⟨hadd, hlt⟩ := clkCount_add_one_of_no_tick ⟨hkey, hstate, h.clkCount_lt⟩ htick
    rw [writes_eq, recordingEdge_eq_true micIn hkey hstate, htick]
    refine ⟨?_, ?_, ?_⟩
    · change edgeCount + 1 = writeCount * p.samplePeriod + (s.clkCount + 1).toNat
      rw [hadd, h.edges_eq, Nat.add_assoc]
    · exact hadd ▸ hlt
    · intro hidle
      simp [hstate] at hidle
  case finished =>
    intro micIn _ hstate
    apply InPace.quiet _ (recordingEdge_eq_false micIn (Or.inr (by simp [hstate])))
    exact ⟨h.edges_eq, h.clkCount_lt, fun _ => h.clkCount_zero (Or.inr hstate)⟩

end Step

theorem InPace.of_run {p : Parameters} {buffer : Nat → BitVec 16} {ledr : BitVec 18}
    {key : Bool} {events : List Event} {s : State}
    (h : run (step p) (powerUp buffer ledr key) events = some s) :
    InPace p
      (countSteps (step p) recordingEdge (powerUp buffer ledr key) events)
      (countSteps (step p) (writes p) (powerUp buffer ledr key) events) s := by
  refine run_invariant (P := fun events s => InPace p
    (countSteps (step p) recordingEdge (powerUp buffer ledr key) events)
    (countSteps (step p) (writes p) (powerUp buffer ledr key) events) s)
    (inPace_powerUp p buffer ledr key) ?_ h
  intro events s e t hrun hs hstep
  rw [countSteps_concat _ hrun, countSteps_concat _ hrun]
  exact hs.next hstep

/-- The `k`-th write to `audio_buffer` is the `k * 1041`-th clock edge spent in
`RECORDING` with the key low. The tick counter never runs past the tick, and no
event changes the buffer but by its write. -/
theorem uniform_sampling {buffer : Nat → BitVec 16} {ledr : BitVec 18} {key : Bool}
    {events : List Event} {s : State}
    (h : run (step defaultParameters) (powerUp buffer ledr key) events = some s) :
    s.clkCount.toNat ≤ 1040 ∧ ∀ e : Event,
      (∀ k, (writes defaultParameters s e = true ∧
          countSteps (step defaultParameters) (writes defaultParameters)
            (powerUp buffer ledr key) events + 1 = k) ↔
        (recordingEdge s e = true ∧
          countSteps (step defaultParameters) recordingEdge (powerUp buffer ledr key)
            events + 1 = k * 1041)) ∧
      ∀ t, step defaultParameters s e = some t →
        t.audioBuffer = stored s.audioBuffer (bufferWrite defaultParameters s e) := by
  have hpace := InPace.of_run h
  have hperiod : defaultParameters.samplePeriod = 1041 := by decide
  have hedges := hpace.edges_eq
  have hlt := hpace.clkCount_lt
  have htick := hpace.sampleTick_eq_true_iff
  rw [hperiod] at hedges hlt htick
  refine ⟨Nat.lt_succ_iff.mp hlt, ?_⟩
  intro e
  refine ⟨?_, fun t hstep => step_audioBuffer hstep⟩
  intro k
  -- Both sides are one condition on the edge: it is in RECORDING and completes a period.
  rw [writes_eq, Bool.and_eq_true, htick]
  constructor
  · rintro ⟨⟨hedge, hcount⟩, rfl⟩
    exact ⟨hedge, hcount⟩
  · rintro ⟨hedge, hcount⟩
    obtain rfl : countSteps (step defaultParameters) (writes defaultParameters)
        (powerUp buffer ledr key) events + 1 = k := by omega
    exact ⟨⟨hedge, hcount⟩, rfl⟩

def firstPeriod : List Event :=
  .posedgeKey 0 :: .negedgeKey :: List.replicate 1041 (.posedgeClk 0)

theorem uniform_sampling_firstPeriod :
    ∃ s t, run (step defaultParameters) (powerUp (fun _ => 0) 0 false) firstPeriod = some s ∧
      step defaultParameters s (.posedgeClk 7) = some t ∧
      countSteps (step defaultParameters) recordingEdge (powerUp (fun _ => 0) 0 false)
        firstPeriod = 1040 ∧
      writes defaultParameters s (.posedgeClk 7) = true ∧
      countSteps (step defaultParameters) (writes defaultParameters)
        (powerUp (fun _ => 0) 0 false) firstPeriod = 0 ∧
      t.audioBuffer 0 = 7 := by
  have hedges : countSteps (step defaultParameters) recordingEdge
      (powerUp (fun _ => 0) 0 false) firstPeriod = 1040 := by
    decide +kernel
  have hreached : (run (step defaultParameters) (powerUp (fun _ => 0) 0 false) firstPeriod).map
      (fun s => (recordingEdge s (.posedgeClk 7), s.sampleCount)) = some (true, 0) := by
    decide +kernel
  obtain ⟨s, hrun, hs⟩ := Option.map_eq_some_iff.mp hreached
  obtain ⟨hedge, hcount⟩ := Prod.mk.inj hs
  obtain ⟨hwrites, hbuffer⟩ := (uniform_sampling hrun).2 (.posedgeClk 7)
  obtain ⟨hwrite, hzero⟩ := (hwrites 1).mpr ⟨hedge, by rw [hedges]⟩
  refine ⟨s, alwaysBlock defaultParameters 7 s, hrun, rfl, hedges, hwrite, by omega, ?_⟩
  have hsamples : samples defaultParameters s = true := by
    cases hsampled : samples defaultParameters s with
    | true => rfl
    | false => simp [writes, bufferWrite, hsampled] at hwrite
  rw [hbuffer _ rfl, bufferWrite, hsamples, if_pos rfl, hcount]
  rfl

end RockPaperScissors.MicrophonePacing
