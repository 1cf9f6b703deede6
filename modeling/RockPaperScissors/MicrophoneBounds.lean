import RockPaperScissors.MicrophoneClocking

namespace RockPaperScissors.MicrophoneBounds

open RockPaperScissors.Library.LabelledRun
open RockPaperScissors.MicrophoneInput
open RockPaperScissors.MicrophoneClocking

theorem bufferWrite_eq_some {p : Parameters} {s : State} {e : Event} {address : Nat}
    {value : BitVec 16} (h : bufferWrite p s e = some (address, value)) :
    s.key = false ∧ s.state = .recording ∧ address = s.sampleCount.toNat := by
  cases e with
  | posedgeKey => simp [bufferWrite] at h
  | negedgeKey => simp [bufferWrite] at h
  | posedgeClk =>
      simp only [bufferWrite, samples, Bool.and_eq_true, Bool.not_eq_true',
        beq_iff_eq, Option.ite_none_right_eq_some, Option.some.injEq,
        Prod.mk.injEq] at h
      obtain ⟨⟨⟨hkey, hstate⟩, -⟩, rfl, -⟩ := h
      exact ⟨hkey, hstate, rfl⟩

/-- A press that finds the sample counter past the buffer is the one that the
recorder does not survive: it skips the state that resets the counter. -/
def PressInBounds (p : Parameters) (s : State) (e : Event) : Prop :=
  ∀ micIn, e = .posedgeKey micIn → s.sampleCount.toNat < p.totalSamples

/-- Where the next sample may be written without passing `IDLE` first, the
counter is within the buffer. -/
def CounterInBounds (p : Parameters) (s : State) : Prop :=
  s.key = true ∨ s.state = .waitForKey ∨ s.state = .recording →
    s.sampleCount.toNat < p.totalSamples

theorem CounterInBounds.step {p : Parameters} {s t : State} {e : Event}
    (hs : CounterInBounds p s) (hpress : PressInBounds p s e)
    (hstep : step p s e = some t) : CounterInBounds p t := by
  refine step_elim (P := fun e t => PressInBounds p s e → CounterInBounds p t) hstep
    ?press ?release ?held ?idle ?waiting ?sample ?count ?finished hpress
  case press =>
    intro micIn _ hpress _
    exact hpress micIn rfl
  case release =>
    intro hkey _ _
    exact hs (Or.inl hkey)
  case held =>
    intro _ hkey _ _
    exact hs (Or.inl hkey)
  case idle =>
    intro _ _ _ _ _
    simpa using totalSamples_pos p
  case waiting =>
    intro _ _ hstate _ _
    exact hs (Or.inr (Or.inl hstate))
  case sample =>
    intro micIn hkey hstate _ _ hnext
    have hbound := hs (Or.inr (Or.inr hstate))
    by_cases hlast : s.sampleCount.toNat = p.totalSamples - 1
    · simp [takeSample, hlast, hkey] at hnext
    · simp only [takeSample, beq_iff_eq, hlast, if_false, sampleCount_add_one]
      omega
  case count =>
    intro _ _ hstate _ _ _
    exact hs (Or.inr (Or.inr hstate))
  case finished =>
    intro _ hkey _ _ hnext
    simp [hkey] at hnext

theorem bufferWrite_in_bounds {p : Parameters} {buffer : Nat → BitVec 16}
    {ledr : BitVec 18} {key : Bool} {events : List Event} {s : State} {e : Event}
    {address : Nat} {value : BitVec 16}
    (hrun : run (step p) (powerUp buffer ledr key) events = some s)
    (hpress : EveryStep (step p) (PressInBounds p) (powerUp buffer ledr key) events)
    (hwrite : bufferWrite p s e = some (address, value)) :
    address < p.totalSamples := by
  obtain ⟨-, hstate, rfl⟩ := bufferWrite_eq_some hwrite
  have hinit : CounterInBounds p (powerUp buffer ledr key) := by
    intro _
    simpa [powerUp] using totalSamples_pos p
  have hbound : CounterInBounds p s :=
    history_invariant (P := fun _ s => CounterInBounds p s) hinit
      (fun _ _ _ _ _ hs hC hstep => hs.step hC hstep) hrun hpress
  exact hbound (Or.inr (Or.inr hstate))

def fastParameters : Parameters where
  sampleRate := 50000000
  recordTime := 1
  sampleRate_pos := by decide
  sampleRate_le := by decide
  recordTime_pos := by decide
  totalSamples_lt := by decide

theorem bufferWrite_in_bounds_pressed :
    ∃ s, run (step fastParameters) (powerUp (fun _ => 0) 0 false)
        [.posedgeKey 0, .negedgeKey, .posedgeClk 0] = some s ∧
      bufferWrite fastParameters s (.posedgeClk 7) = some (0, 7) ∧
      0 < fastParameters.totalSamples := by
  have hrun : run (step fastParameters) (powerUp (fun _ => 0) 0 false)
      [.posedgeKey 0, .negedgeKey, .posedgeClk 0] =
        some { powerUp (fun _ => 0) 0 false with
          state := .recording, recording := true, ledr := 1 } := rfl
  have hwrite : bufferWrite fastParameters { powerUp (fun _ => 0) 0 false with
      state := .recording, recording := true, ledr := 1 } (.posedgeClk 7) = some (0, 7) := by
    decide
  refine ⟨_, hrun, hwrite, bufferWrite_in_bounds hrun ?_ hwrite⟩
  have hpress : PressInBounds fastParameters (powerUp (fun _ => 0) 0 false) (.posedgeKey 0) := by
    rintro micIn -
    decide
  refine .cons hpress fun s _ => .cons ?_ fun t _ => .cons ?_ fun _ _ => .nil
  · rintro micIn ⟨⟩
  · rintro micIn ⟨⟩

def DoneCount (p : Parameters) (s : State) : Prop :=
  s.state = .done → s.key = false ∧ s.clkCount = 0 ∧
    s.sampleCount.toNat = p.totalSamples % 131072

theorem DoneCount.of_run {p : Parameters} {buffer : Nat → BitVec 16} {ledr : BitVec 18}
    {key : Bool} {events : List Event} {s : State}
    (h : run (step p) (powerUp buffer ledr key) events = some s) : DoneCount p s := by
  refine state_invariant (P := DoneCount p) ?_ ?_ h
  · intro hstate
    simp [powerUp] at hstate
  · intro s e t hs hstep
    refine step_elim (P := fun _ t => DoneCount p t) hstep
      ?press ?release ?held ?idle ?waiting ?sample ?count ?finished
    case release =>
      intro hkey hdone
      exact absurd (hs hdone).1 (by simp [hkey])
    case sample =>
      intro micIn hkey hstate _ hdone
      have htotal := totalSamples_pos p
      by_cases hlast : s.sampleCount.toNat = p.totalSamples - 1
      · rw [takeSample_of_last hlast]
        refine ⟨hkey, rfl, ?_⟩
        rw [sampleCount_add_one]
        omega
      · rw [takeSample_of_not_last hlast] at hdone
        simp [hstate] at hdone
    case count =>
      intro _ _ hstate _ hdone
      simp [hstate] at hdone
    all_goals
      intros
      intro hdone
      simp at hdone

theorem exists_run_to_done (p : Parameters) (hfits : p.totalSamples ≤ 131072) :
    ∃ events s, run (step p) (powerUp (fun _ => 0) 0 false) events = some s ∧
      s.state = .done := by
  obtain ⟨hrecording, -⟩ :=
    edges_from_idle (p := p) (s := powerUp (fun _ => 0) 0 false) rfl rfl 0 0
  let left := edgesLeft p (edges p (powerUp (fun _ => 0) 0 false) [0, 0])
  refine ⟨([0, 0] ++ List.replicate (left + 1) (0 : BitVec 16)).map .posedgeClk, _,
    run_map_posedgeClk _ _ _, ?_⟩
  rw [edges_append]
  exact (edges_reach_done hrecording hfits (by simp [left])).1

/-- A press in `DONE`, released before the next edge, leads to a write with
the counter as it stood in `DONE`. -/
theorem exists_bufferWrite_after_done {p : Parameters} {s : State}
    (hdone : s.state = .done) (hcount : DoneCount p s) :
    ∃ events t, run (step p) s (.posedgeKey 0 :: .negedgeKey :: events) = some t ∧
      bufferWrite p t (.posedgeClk 0) = some (p.totalSamples % 131072, 0) := by
  obtain ⟨hkey, hclk, hsamples⟩ := hcount hdone
  have hperiod := samplePeriod_pos p
  let waiting : State := { s with key := false, state := .waitForKey }
  let restarted : State := { waiting with recording := true, state := .recording, ledr := 1 }
  have hrecording : Recording p restarted := by
    refine ⟨rfl, rfl, ?_⟩
    simpa [restarted, waiting, hclk] using hperiod
  have hlen : restarted.clkCount.toNat +
      (List.replicate (p.samplePeriod - 1) (0 : BitVec 16)).length + 1 =
        p.samplePeriod := by
    simp only [restarted, waiting, hclk, List.length_replicate, BitVec.ofNat_eq_ofNat,
      BitVec.toNat_ofNat]
    omega
  obtain ⟨hat, htick, hsame, -⟩ := edges_to_tick hrecording hlen
  refine ⟨(0 :: List.replicate (p.samplePeriod - 1) 0).map .posedgeClk,
    edges p restarted (List.replicate (p.samplePeriod - 1) 0), ?_, ?_⟩
  · have hpress : step p s (.posedgeKey 0) =
        some { s with key := true, state := .waitForKey } := by
      simp [step, alwaysBlock, hkey]
    have hrelease : step p { s with key := true, state := .waitForKey } .negedgeKey =
        some waiting := rfl
    rw [run_cons_of_eq hpress, run_cons_of_eq hrelease, run_map_posedgeClk]
    have hedge : edges p waiting [0] = restarted := edges_from_waitForKey rfl rfl 0
    rw [← List.singleton_append, edges_append, hedge]
  · have hsampling : samples p (edges p restarted (List.replicate (p.samplePeriod - 1) 0)) =
        true := by
      rw [samples, hat.key, hat.state, htick]
      rfl
    rw [bufferWrite, hsampling, if_pos rfl, hsame]
    exact congrArg (fun n => some (n, (0 : BitVec 16))) hsamples

theorem not_bufferWrite_in_bounds :
    ¬ ∀ (events : List Event) (s : State) (e : Event) (address : Nat) (value : BitVec 16),
      run (step defaultParameters) (powerUp (fun _ => 0) 0 false) events = some s →
      bufferWrite defaultParameters s e = some (address, value) →
      address < defaultParameters.totalSamples := by
  intro h
  obtain ⟨before, s, hbefore, hdone⟩ := exists_run_to_done defaultParameters (by decide)
  obtain ⟨after, t, hafter, hwrite⟩ :=
    exists_bufferWrite_after_done hdone (DoneCount.of_run hbefore)
  have hbound := h (before ++ .posedgeKey 0 :: .negedgeKey :: after) t (.posedgeClk 0) _ _
    ((run_append_of_eq hbefore _).trans hafter) hwrite
  revert hbound
  decide

end RockPaperScissors.MicrophoneBounds
