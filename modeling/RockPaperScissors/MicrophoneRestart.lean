import RockPaperScissors.MicrophonePacing

namespace RockPaperScissors.MicrophoneRestart

open RockPaperScissors.Library.LabelledRun
open RockPaperScissors.MicrophoneInput
open RockPaperScissors.MicrophoneClocking
open RockPaperScissors.MicrophonePacing

def samplesTaken (p : Parameters) : State → List (BitVec 16) → List (BitVec 16)
  | _, [] => []
  | s, micIn :: inputs =>
      if samples p s then micIn :: samplesTaken p (alwaysBlock p micIn s) inputs
      else samplesTaken p (alwaysBlock p micIn s) inputs

/-- The first edge that reaches `DONE` is the last of a row of edges. -/
def FirstDone (p : Parameters) (s : State) (inputs : List (BitVec 16)) : Prop :=
  ∀ before, before <+: inputs → ((edges p s before).state = .done ↔ before = inputs)

/-- A press in `s`, held for any number of edges and then released, leads to
a recording of nothing but samples taken after the release: when `DONE` is
first reached again, the buffer holds them from the first one on. -/
def RestartsCleanly (p : Parameters) (s : State) : Prop :=
  ∀ (micIn : BitVec 16) (held inputs : List (BitVec 16)) (released : State),
    run (step p) s (.posedgeKey micIn :: held.map .posedgeClk ++ [.negedgeKey]) =
      some released →
    FirstDone p released inputs →
    ∀ i, i < p.totalSamples →
      (samplesTaken p released inputs)[i]? =
        some ((edges p released inputs).audioBuffer i)

theorem edges_of_key {p : Parameters} {s : State} (hkey : s.key = true)
    (hstate : s.state = .waitForKey) (inputs : List (BitVec 16)) :
    edges p s inputs = s := by
  induction inputs with
  | nil => rfl
  | cons x inputs ih =>
      have hstep : alwaysBlock p x s = s := by
        rw [alwaysBlock_of_key x hkey, ← hstate]
      rw [edges_cons, hstep, ih]

theorem run_press_release {p : Parameters} {s released : State} {micIn : BitVec 16}
    {held : List (BitVec 16)}
    (h : run (step p) s (.posedgeKey micIn :: held.map .posedgeClk ++ [.negedgeKey]) =
      some released) :
    released = { s with key := false, state := .waitForKey } := by
  cases hkey : s.key with
  | true => simp [run_cons, step, hkey] at h
  | false =>
      have hpress : step p s (.posedgeKey micIn) =
          some { s with key := true, state := .waitForKey } := by
        simp [step, alwaysBlock, hkey]
      rw [List.cons_append, run_cons_of_eq hpress,
        run_append_of_eq (run_map_posedgeClk _ _ _), edges_of_key rfl rfl] at h
      simpa [run_cons, step] using h.symm

theorem run_press_release_nil {p : Parameters} {s : State} (hkey : s.key = false)
    (micIn : BitVec 16) :
    run (step p) s [.posedgeKey micIn, .negedgeKey] =
      some { s with key := false, state := .waitForKey } := by
  simp [run_cons, step, alwaysBlock, hkey]

theorem audioBuffer_edges_of_const {p : Parameters} {value : BitVec 16}
    {address : Nat} (inputs : List (BitVec 16)) (hinputs : ∀ x ∈ inputs, x = value)
    {s : State} (hs : s.audioBuffer address = value) :
    (edges p s inputs).audioBuffer address = value := by
  induction inputs generalizing s with
  | nil => exact hs
  | cons x inputs ih =>
      apply ih (fun y hy => hinputs y (by simp [hy]))
      obtain rfl : x = value := hinputs x (by simp)
      rw [alwaysBlock_audioBuffer]
      split
      · simp [Function.update_apply, hs]
      · exact hs

theorem samplesTaken_append (p : Parameters) (s : State)
    (before after : List (BitVec 16)) :
    samplesTaken p s (before ++ after) =
      samplesTaken p s before ++ samplesTaken p (edges p s before) after := by
  induction before generalizing s with
  | nil => rfl
  | cons x before ih =>
      rw [List.cons_append, samplesTaken, samplesTaken, ih]
      split <;> rfl

theorem samplesTaken_of_no_tick {p : Parameters} {s : State} (hs : Recording p s)
    (inputs : List (BitVec 16))
    (hlen : s.clkCount.toNat + inputs.length < p.samplePeriod) :
    samplesTaken p s inputs = [] := by
  induction inputs generalizing s with
  | nil => rfl
  | cons x inputs ih =>
      simp only [List.length_cons] at hlen
      have htick : sampleTick p s = false := by
        rw [sampleTick_eq_false_iff]
        omega
      obtain ⟨hadd, -⟩ := clkCount_add_one_of_no_tick hs htick
      rw [samplesTaken, samples_of_recording hs.key hs.state, htick,
        if_neg Bool.false_ne_true, alwaysBlock_of_no_tick x hs.key hs.state htick]
      refine ih (hs.next htick) ?_
      rw [hadd]
      omega

theorem FirstDone.tail {p : Parameters} {s : State} {x : BitVec 16}
    {inputs : List (BitVec 16)} (h : FirstDone p s (x :: inputs)) :
    FirstDone p (alwaysBlock p x s) inputs := by
  intro before hbefore
  have hcons := h (x :: before) (by simpa using hbefore)
  simpa using hcons

theorem FirstDone.eq_nil {p : Parameters} {s : State} {x : BitVec 16}
    {inputs : List (BitVec 16)} (h : FirstDone p s (x :: inputs))
    (hdone : (alwaysBlock p x s).state = .done) : inputs = [] := by
  have hsingle := (h [x] (by simp)).mp hdone
  simpa using hsingle.symm

theorem FirstDone.done {p : Parameters} {s : State} {inputs : List (BitVec 16)}
    (h : FirstDone p s inputs) : (edges p s inputs).state = .done :=
  (h inputs (List.prefix_refl _)).mpr rfl

/-- A recording under way whose first samples are `taken`. -/
structure Holds (p : Parameters) (s : State) (taken : List (BitVec 16)) : Prop where
  key : s.key = false
  state : s.state = .waitForKey ∨ s.state = .recording
  length : taken.length = s.sampleCount.toNat
  room : s.sampleCount.toNat < p.totalSamples
  prefix_eq : ∀ i, i < taken.length → taken[i]? = some (s.audioBuffer i)

theorem Holds.buffer_of_firstDone {p : Parameters} (hfits : p.totalSamples ≤ 131072)
    {s : State} {taken inputs : List (BitVec 16)} (hs : Holds p s taken)
    (hfirst : FirstDone p s inputs) (i : Nat) (hi : i < p.totalSamples) :
    (taken ++ samplesTaken p s inputs)[i]? =
      some ((edges p s inputs).audioBuffer i) := by
  induction inputs generalizing s taken with
  | nil =>
      have hdone : s.state = .done := hfirst.done
      rcases hs.state with h | h <;> simp [h] at hdone
  | cons x inputs ih =>
      have hkey := hs.key
      rcases hs.state with hstate | hstate
      · have hstep := alwaysBlock_of_waitForKey (p := p) x hkey hstate
        have htail := hfirst.tail
        rw [hstep] at htail
        rw [samplesTaken, samples_of_ne_recording (by simp [hstate]), edges_cons, hstep]
        exact ih ⟨hkey, Or.inr rfl, hs.length, hs.room, hs.prefix_eq⟩ htail
      · have hsamples := samples_of_recording (p := p) hkey hstate
        cases htick : sampleTick p s with
        | false =>
            have hstep := alwaysBlock_of_no_tick x hkey hstate htick
            have htail := hfirst.tail
            rw [hstep] at htail
            rw [samplesTaken, hsamples, htick, edges_cons, hstep]
            exact ih ⟨hkey, Or.inr hstate, hs.length, hs.room, hs.prefix_eq⟩ htail
        | true =>
            have hstep := alwaysBlock_of_tick x hkey hstate htick
            have hstored : ∀ i, i < (taken ++ [x]).length →
                (taken ++ [x])[i]? =
                  some (Function.update s.audioBuffer s.sampleCount.toNat x i) := by
              intro i hi
              have hlength := hs.length
              rcases Nat.lt_or_eq_of_le (Nat.lt_succ_iff.mp (by simpa using hi)) with hlt | rfl
              · rw [List.getElem?_append_left hlt, hs.prefix_eq i hlt,
                  Function.update_of_ne (by omega)]
              · simp [hs.length]
            rw [samplesTaken, hsamples, htick, if_pos rfl, edges_cons, List.append_cons]
            by_cases hlast : s.sampleCount.toNat = p.totalSamples - 1
            · have hdone : (alwaysBlock p x s).state = .done := by
                rw [hstep, takeSample_of_last hlast]
              obtain rfl := hfirst.eq_nil hdone
              have hlen : i < (taken ++ [x]).length := by
                simp only [List.length_append, List.length_singleton, hs.length]
                omega
              rw [samplesTaken, List.append_nil, hstored i hlen, edges_nil, hstep,
                takeSample_audioBuffer]
            · have htail := hfirst.tail
              have hroom := hs.room
              refine ih ⟨?_, ?_, ?_, ?_, ?_⟩ htail
              all_goals rw [hstep, takeSample_of_not_last hlast]
              · exact hkey
              · exact Or.inr hstate
              · simp only [List.length_append, List.length_singleton, hs.length,
                  sampleCount_add_one]
                omega
              · simp only [sampleCount_add_one]
                omega
              · exact hstored

theorem restartsCleanly_of_sampleCount_eq_zero {p : Parameters}
    (hfits : p.totalSamples ≤ 131072) {s : State} (hzero : s.sampleCount = 0) :
    RestartsCleanly p s := by
  intro micIn held inputs released hrun hfirst i hi
  obtain rfl := run_press_release hrun
  have hholds : Holds p { s with key := false, state := .waitForKey } [] :=
    { key := rfl
      state := Or.inl rfl
      length := by simp [hzero]
      room := by simpa [hzero] using totalSamples_pos p
      prefix_eq := by simp }
  simpa using hholds.buffer_of_firstDone hfits hfirst i hi

theorem edges_ne_done {p : Parameters} (hlong : 131072 < p.totalSamples)
    (inputs : List (BitVec 16)) {s : State} (hs : s.state ≠ .done) :
    (edges p s inputs).state ≠ .done := by
  induction inputs generalizing s with
  | nil => exact hs
  | cons x inputs ih =>
      apply ih
      have hcount := s.sampleCount.isLt
      have hlast : s.sampleCount.toNat ≠ p.totalSamples - 1 := by
        omega
      refine step_elim (P := fun _ t => t.state ≠ .done) (s := s) (e := .posedgeClk x) rfl
        ?press ?release ?held ?idle ?waiting ?sample ?count ?finished
      case sample =>
        intro _ _ _ _
        rw [takeSample_of_not_last hlast]
        exact hs
      all_goals
        intros
        first
          | exact hs
          | simp

theorem restartsCleanly_of_totalSamples_gt {p : Parameters}
    (hlong : 131072 < p.totalSamples) (s : State) : RestartsCleanly p s := by
  intro micIn held inputs released hrun hfirst
  obtain rfl := run_press_release hrun
  have hwaiting : ({ s with key := false, state := .waitForKey } : State).state ≠ .done := by
    simp
  exact absurd hfirst.done (edges_ne_done hlong inputs hwaiting)

theorem firstDone_of_recording {p : Parameters} (hfits : p.totalSamples ≤ 131072)
    {s : State} (hs : Recording p s) {inputs : List (BitVec 16)}
    (hlen : inputs.length = edgesLeft p s + 1) : FirstDone p s inputs := by
  obtain ⟨hdone, hbefore⟩ := edges_reach_done hs hfits hlen
  intro before hinitial
  constructor
  · intro hstate
    by_contra hne
    have hlt : before.length < inputs.length :=
      lt_of_le_of_ne hinitial.length_le fun h => hne (hinitial.eq_of_length h)
    have hrecording := hbefore before.length hlt
    rw [← List.prefix_iff_eq_take.mp hinitial] at hrecording
    simp [hrecording.state] at hstate
  · rintro rfl
    exact hdone

theorem FirstDone.cons {p : Parameters} {s : State} {x : BitVec 16}
    {inputs : List (BitVec 16)} (hstate : s.state ≠ .done)
    (h : FirstDone p (alwaysBlock p x s) inputs) : FirstDone p s (x :: inputs) := by
  intro before hinitial
  cases before with
  | nil => simp [hstate]
  | cons y before =>
      obtain ⟨rfl, hrest⟩ := List.cons_prefix_cons.mp hinitial
      simpa using h before hrest

theorem length_of_edgesLeft (p : Parameters) (s : State) (new old : BitVec 16) :
    (List.replicate (p.samplePeriod - 1 - s.clkCount.toNat) new ++ new ::
      List.replicate ((p.totalSamples + 131071 - s.sampleCount.toNat) % 131072 *
        p.samplePeriod) old).length = edgesLeft p s + 1 := by
  rw [List.length_append, List.length_cons, List.length_replicate, List.length_replicate,
    edgesLeft]
  omega

/-- A press that finds samples counted already is not followed by a clean
recording: the old content of cell 0 and the first new sample can differ. -/
theorem not_restartsCleanly {p : Parameters} (hfits : p.totalSamples ≤ 131072)
    {s : State} (hkey : s.key = false) (hclk : s.clkCount.toNat < p.samplePeriod)
    (hcount : s.sampleCount ≠ 0) : ¬ RestartsCleanly p s := by
  intro hclean
  let old := s.audioBuffer 0
  let new := s.audioBuffer 0 + 1
  let waiting : State := { s with key := false, state := .waitForKey }
  let restarted : State := { waiting with recording := true, state := .recording, ledr := 1 }
  let quiet := List.replicate (p.samplePeriod - 1 - restarted.clkCount.toNat) new
  let atTick := edges p restarted quiet
  let rest := List.replicate
    ((p.totalSamples + 131071 - restarted.sampleCount.toNat) % 131072 * p.samplePeriod) old
  have hrestarted : Recording p restarted := ⟨rfl, rfl, hclk⟩
  have hstart : alwaysBlock p new waiting = restarted := alwaysBlock_of_waitForKey new rfl rfl
  have hquiet : restarted.clkCount.toNat + quiet.length + 1 = p.samplePeriod := by
    simp only [quiet, restarted, waiting, List.length_replicate]
    omega
  obtain ⟨hrecording, htick, hsame, hbuffer⟩ := edges_to_tick hrestarted hquiet
  have hlength : (quiet ++ new :: rest).length = edgesLeft p restarted + 1 :=
    length_of_edgesLeft p restarted new old
  have hfirst : FirstDone p waiting (new :: (quiet ++ new :: rest)) := by
    apply FirstDone.cons (by simp [waiting])
    rw [hstart]
    exact firstDone_of_recording hfits hrestarted hlength
  have htaken : samplesTaken p waiting (new :: (quiet ++ new :: rest)) =
      new :: samplesTaken p (alwaysBlock p new atTick) rest := by
    rw [samplesTaken, samples_of_ne_recording FsmState.noConfusion, if_neg Bool.false_ne_true,
      hstart, samplesTaken_append, samplesTaken_of_no_tick hrestarted quiet (by omega),
      List.nil_append, samplesTaken, samples_of_recording hrecording.key hrecording.state,
      htick, if_pos rfl]
  have hkept : (edges p waiting (new :: (quiet ++ new :: rest))).audioBuffer 0 = old := by
    rw [edges_cons, hstart, edges_append, edges_cons]
    apply audioBuffer_edges_of_const rest
    · intro x hx
      exact (List.mem_replicate.mp hx).2
    · have haddress : (0 : Nat) ≠ atTick.sampleCount.toNat := by
        rw [hsame]
        intro h
        exact hcount (BitVec.eq_of_toNat_eq h.symm)
      rw [alwaysBlock_of_tick new hrecording.key hrecording.state htick,
        takeSample_audioBuffer, Function.update_of_ne haddress, hbuffer]
  have hclean := hclean 0 [] (new :: (quiet ++ new :: rest)) waiting
    (run_press_release_nil hkey 0) hfirst 0 (totalSamples_pos p)
  rw [htaken, hkept, List.getElem?_cons_zero] at hclean
  have hne : s.audioBuffer 0 + 1 ≠ s.audioBuffer 0 := by simp
  exact hne (Option.some.inj hclean)

/-- Over all reachable states, a press is a clean restart if and only if it
arrives before the first sample is counted, or the buffer is too long for any
recording to finish. -/
theorem restartsCleanly_iff {p : Parameters} {buffer : Nat → BitVec 16}
    {ledr : BitVec 18} {key : Bool} {events : List Event} {s : State}
    (hrun : run (step p) (powerUp buffer ledr key) events = some s)
    (hkey : s.key = false) :
    RestartsCleanly p s ↔ s.sampleCount = 0 ∨ 131072 < p.totalSamples := by
  constructor
  · intro hclean
    by_contra! h
    exact not_restartsCleanly h.2 hkey (InPace.of_run hrun).clkCount_lt h.1 hclean
  · rintro (hzero | hlong)
    · rcases Nat.lt_or_ge 131072 p.totalSamples with hlong | hfits
      · exact restartsCleanly_of_totalSamples_gt hlong s
      · exact restartsCleanly_of_sampleCount_eq_zero hfits hzero
    · exact restartsCleanly_of_totalSamples_gt hlong s

theorem restartsCleanly_iff_in_period :
    ∃ s, run (step defaultParameters) (powerUp (fun _ => 0) 0 false)
        [.posedgeKey 0, .negedgeKey, .posedgeClk 0, .posedgeClk 0] = some s ∧
      s.state = .recording ∧ s.clkCount = 1 ∧ RestartsCleanly defaultParameters s := by
  have hrun : run (step defaultParameters) (powerUp (fun _ => 0) 0 false)
      [.posedgeKey 0, .negedgeKey, .posedgeClk 0, .posedgeClk 0] =
        some { powerUp (fun _ => 0) 0 false with
          state := .recording, clkCount := 1, recording := true, ledr := 1 } := by
    rfl
  exact ⟨_, hrun, rfl, rfl, (restartsCleanly_iff hrun rfl).mpr (.inl rfl)⟩

theorem not_forall_restartsCleanly :
    ¬ ∀ (events : List Event) (s : State),
      run (step defaultParameters) (powerUp (fun _ => 0) 0 false) events = some s →
      s.key = false → RestartsCleanly defaultParameters s := by
  intro h
  obtain ⟨hstarted, hzero⟩ :=
    @edges_from_idle defaultParameters (powerUp (fun _ => 0) 0 false) rfl rfl 0 0
  generalize hdef : edges defaultParameters (powerUp (fun _ => 0) 0 false) [0, 0] =
    started at hstarted hzero
  have hlen : started.clkCount.toNat + (List.replicate 1040 (0 : BitVec 16)).length + 1 =
      defaultParameters.samplePeriod := by
    rw [List.length_replicate, ← hdef]
    decide
  obtain ⟨hrecording, htick, hsame, -⟩ := edges_to_tick hstarted hlen
  have hrun := run_map_posedgeClk defaultParameters (powerUp (fun _ => 0) 0 false)
    ([0, 0] ++ (List.replicate 1040 0 ++ [0]))
  rw [edges_append, edges_append, hdef, edges_cons, edges_nil,
    alwaysBlock_of_tick 0 hrecording.key hrecording.state htick] at hrun
  generalize edges defaultParameters started (List.replicate 1040 0) = atTick
    at hrecording hsame hrun
  have hkey : (takeSample defaultParameters 0 atTick).key = false := by
    rw [takeSample_key, hrecording.key]
  have hcount : (takeSample defaultParameters 0 atTick).sampleCount ≠ 0 := by
    rw [takeSample_sampleCount, hsame, hzero]
    decide
  exact not_restartsCleanly (by decide) hkey (InPace.of_run hrun).clkCount_lt hcount (h _ _ hrun hkey)

end RockPaperScissors.MicrophoneRestart
