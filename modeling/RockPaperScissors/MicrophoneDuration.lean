import RockPaperScissors.MicrophonePacing
import RockPaperScissors.MicrophoneRestart

namespace RockPaperScissors.MicrophoneDuration

open RockPaperScissors.MicrophoneInput
open RockPaperScissors.MicrophoneClocking
open RockPaperScissors.MicrophonePacing
open RockPaperScissors.MicrophoneRestart

def recordingInputs (p : Parameters) : State → List (BitVec 16) → List (BitVec 16)
  | _, [] => []
  | s, micIn :: inputs =>
      if recordingEdge s (.posedgeClk micIn) then
        micIn :: recordingInputs p (alwaysBlock p micIn s) inputs
      else recordingInputs p (alwaysBlock p micIn s) inputs

variable {p : Parameters} {s : State} {taken inputs : List (BitVec 16)}

theorem recordingInputs_of_recording (hs : Recording p s) (micIn : BitVec 16) :
    recordingInputs p s (micIn :: inputs) =
      micIn :: recordingInputs p (alwaysBlock p micIn s) inputs := by
  rw [recordingInputs, recordingEdge_eq_true micIn hs.key hs.state, if_pos rfl]

theorem recordingInputs_of_not_recording (hstate : s.state ≠ .recording) (micIn : BitVec 16) :
    recordingInputs p s (micIn :: inputs) =
      recordingInputs p (alwaysBlock p micIn s) inputs := by
  rw [recordingInputs, recordingEdge_eq_false micIn (Or.inr hstate), if_neg Bool.false_ne_true]

/-- A recording that has seen the inputs `taken` and keeps the last one of each
period. -/
structure Sampled (p : Parameters) (taken : List (BitVec 16)) (s : State) : Prop where
  recording : Recording p s
  room : s.sampleCount.toNat < p.totalSamples
  length : taken.length = s.sampleCount.toNat * p.samplePeriod + s.clkCount.toNat
  buffer_eq : ∀ i, i < s.sampleCount.toNat →
    taken[(i + 1) * p.samplePeriod - 1]? = some (s.audioBuffer i)

theorem Sampled.buffer_eq_append (hs : Sampled p taken s) (micIn : BitVec 16) {i : Nat}
    (hi : i < s.sampleCount.toNat) :
    (taken ++ [micIn])[(i + 1) * p.samplePeriod - 1]? = some (s.audioBuffer i) := by
  have hperiod := samplePeriod_pos p
  have hlength := hs.length
  have hle : (i + 1) * p.samplePeriod ≤ s.sampleCount.toNat * p.samplePeriod :=
    Nat.mul_le_mul_right _ hi
  have hpos : 0 < (i + 1) * p.samplePeriod := Nat.mul_pos (Nat.succ_pos i) hperiod
  rw [List.getElem?_append_left (by omega), hs.buffer_eq i hi]

theorem Sampled.next (hs : Sampled p taken s) (htick : sampleTick p s = false)
    (micIn : BitVec 16) :
    Sampled p (taken ++ [micIn]) { s with clkCount := s.clkCount + 1 } where
  recording := hs.recording.next htick
  room := hs.room
  length := by
    rw [(clkCount_add_one_of_no_tick hs.recording htick).1, List.length_append,
      List.length_singleton, hs.length, Nat.add_assoc]
  buffer_eq _ hi := hs.buffer_eq_append micIn hi

theorem Sampled.length_of_tick (hs : Sampled p taken s) (htick : sampleTick p s = true)
    (micIn : BitVec 16) :
    (taken ++ [micIn]).length = (s.sampleCount.toNat + 1) * p.samplePeriod := by
  have hperiod := samplePeriod_pos p
  have hlength := hs.length
  rw [sampleTick_eq_true_iff] at htick
  rw [List.length_append, List.length_singleton, Nat.succ_mul]
  omega

theorem Sampled.buffer_of_tick (hs : Sampled p taken s) (htick : sampleTick p s = true)
    (micIn : BitVec 16) {i : Nat} (hi : i < s.sampleCount.toNat + 1) :
    (taken ++ [micIn])[(i + 1) * p.samplePeriod - 1]? =
      some ((takeSample p micIn s).audioBuffer i) := by
  rw [takeSample_audioBuffer]
  rcases Nat.lt_succ_iff_lt_or_eq.mp hi with hlt | rfl
  · rw [Function.update_of_ne hlt.ne, hs.buffer_eq_append micIn hlt]
  · rw [Function.update_self, ← hs.length_of_tick htick micIn, List.length_append,
      List.length_singleton, Nat.add_sub_cancel, List.getElem?_concat_length]

theorem Sampled.take (hs : Sampled p taken s) (hfits : p.totalSamples ≤ 131072)
    (htick : sampleTick p s = true) (hlast : s.sampleCount.toNat ≠ p.totalSamples - 1)
    (micIn : BitVec 16) : Sampled p (taken ++ [micIn]) (takeSample p micIn s) := by
  have hperiod := samplePeriod_pos p
  have hroom := hs.room
  have hcount : (takeSample p micIn s).sampleCount.toNat = s.sampleCount.toNat + 1 := by
    rw [takeSample_sampleCount, sampleCount_add_one]
    omega
  have hclk := takeSample_clkCount p micIn s
  constructor
  · refine ⟨(takeSample_key p micIn s).trans hs.recording.key, ?_, by rw [hclk]; exact hperiod⟩
    rw [takeSample_of_not_last hlast]
    exact hs.recording.state
  · omega
  · rw [hs.length_of_tick htick, hcount, hclk]
    rfl
  · intro i hi
    exact hs.buffer_of_tick htick micIn (hcount ▸ hi)

/-- Up to the first `DONE` every input counts, and the last one of each period
is the one that is kept. -/
theorem Sampled.of_firstDone (hs : Sampled p taken s) (hfits : p.totalSamples ≤ 131072)
    (hfirst : FirstDone p s inputs) :
    (taken ++ recordingInputs p s inputs).length = p.totalSamples * p.samplePeriod ∧
      ∀ i, i < p.totalSamples →
        (taken ++ recordingInputs p s inputs)[(i + 1) * p.samplePeriod - 1]? =
          some ((edges p s inputs).audioBuffer i) := by
  induction inputs generalizing s taken with
  | nil =>
      have hdone : s.state = .done := hfirst.done
      simp [hs.recording.state] at hdone
  | cons x inputs ih =>
      have htail := hfirst.tail
      rw [recordingInputs_of_recording hs.recording, List.append_cons, edges_cons]
      cases htick : sampleTick p s with
      | false =>
          rw [alwaysBlock_of_no_tick x hs.recording.key hs.recording.state htick] at htail ⊢
          exact ih (hs.next htick x) htail
      | true =>
          have hstep := alwaysBlock_of_tick x hs.recording.key hs.recording.state htick
          rw [hstep] at htail ⊢
          by_cases hlast : s.sampleCount.toNat = p.totalSamples - 1
          · have hdone : (alwaysBlock p x s).state = .done := by
              rw [hstep, takeSample_of_last hlast]
            obtain rfl := hfirst.eq_nil hdone
            have htotal : s.sampleCount.toNat + 1 = p.totalSamples := by
              have hpos := totalSamples_pos p
              omega
            rw [recordingInputs, List.append_nil, edges_nil, hs.length_of_tick htick, htotal]
            refine ⟨rfl, ?_⟩
            intro i hi
            exact hs.buffer_of_tick htick x (htotal ▸ hi)
          · exact ih (hs.take hfits htick hlast x) htail

section FromIdle

variable (hkey : s.key = false) (hstate : s.state = .idle)
include hkey hstate

theorem sampled_from_idle (x y : BitVec 16) : Sampled p [] (edges p s [x, y]) := by
  rw [edges_from_idle_eq hkey hstate]
  exact
    { recording := ⟨hkey, rfl, by simpa using samplePeriod_pos p⟩
      room := by simpa using totalSamples_pos p
      length := by simp
      buffer_eq := by simp }

theorem alwaysBlock_from_idle (x : BitVec 16) :
    (alwaysBlock p x s).state = .waitForKey := by
  rw [alwaysBlock_of_idle x hkey hstate]

theorem recordingInputs_from_idle (x y : BitVec 16) (rest : List (BitVec 16)) :
    recordingInputs p s (x :: y :: rest) = recordingInputs p (edges p s [x, y]) rest := by
  have hwaiting := alwaysBlock_from_idle (p := p) hkey hstate x
  rw [recordingInputs_of_not_recording (by simp [hstate]),
    recordingInputs_of_not_recording (by simp [hwaiting])]
  rfl

theorem exists_of_firstDone (hfirst : FirstDone p s inputs) :
    ∃ x y rest, inputs = x :: y :: rest ∧ FirstDone p (edges p s [x, y]) rest := by
  have hdone := hfirst.done
  cases inputs with
  | nil => simp [hstate] at hdone
  | cons x inputs =>
      cases inputs with
      | nil =>
          rw [edges_cons, edges_nil, alwaysBlock_from_idle hkey hstate] at hdone
          exact FsmState.noConfusion hdone
      | cons y rest => exact ⟨x, y, rest, rfl, hfirst.tail.tail⟩

theorem edgesLeft_from_idle (hfits : p.totalSamples ≤ 131072) (x y : BitVec 16) :
    edgesLeft p (edges p s [x, y]) + 1 = p.totalSamples * p.samplePeriod := by
  have hperiod := samplePeriod_pos p
  obtain ⟨n, hn⟩ := Nat.exists_eq_succ_of_ne_zero (totalSamples_pos p).ne'
  have hleft : (n + 1 + 131071) % 131072 = n := by
    omega
  rw [edges_from_idle_eq hkey hstate]
  simp only [edgesLeft, hn, BitVec.ofNat_eq_ofNat, BitVec.toNat_ofNat, Nat.zero_mod,
    Nat.sub_zero, Nat.succ_eq_add_one, hleft, Nat.succ_mul]
  omega

theorem firstDone_from_idle (hfits : p.totalSamples ≤ 131072)
    (hlen : inputs.length = p.totalSamples * p.samplePeriod + 2) : FirstDone p s inputs := by
  obtain ⟨x, inputs, rfl⟩ := List.exists_cons_of_length_eq_add_one hlen
  obtain ⟨y, rest, rfl⟩ := List.exists_cons_of_length_eq_add_one (Nat.succ.inj hlen)
  apply FirstDone.cons (by simp [hstate])
  apply FirstDone.cons (by simp [alwaysBlock_from_idle hkey hstate])
  apply firstDone_of_recording hfits (sampled_from_idle hkey hstate x y).recording
  rw [edgesLeft_from_idle hkey hstate hfits]
  exact Nat.succ.inj (Nat.succ.inj hlen)

end FromIdle

/-- A recorder that starts in `IDLE` and whose key stays low: it gets to `DONE`
if and only if the sample counter can hold the number of samples, after this
number of whole periods spent in `RECORDING`, and the buffer then holds the
last input of each period. -/
theorem recording_duration (hkey : s.key = false) (hstate : s.state = .idle)
    (mic : Nat → BitVec 16) :
    ((∃ n, (edges p s ((List.range n).map mic)).state = .done) ↔ p.totalSamples ≤ 2 ^ 17) ∧
      (p.totalSamples ≤ 2 ^ 17 →
        FirstDone p s ((List.range (p.totalSamples * p.samplePeriod + 2)).map mic)) ∧
      ∀ n, FirstDone p s ((List.range n).map mic) →
        (recordingInputs p s ((List.range n).map mic)).length =
            p.totalSamples * p.samplePeriod ∧
          ∀ i, i < p.totalSamples →
            (recordingInputs p s ((List.range n).map mic))[(i + 1) * p.samplePeriod - 1]? =
              some ((edges p s ((List.range n).map mic)).audioBuffer i) := by
  have hreach : p.totalSamples ≤ 2 ^ 17 →
      FirstDone p s ((List.range (p.totalSamples * p.samplePeriod + 2)).map mic) := by
    intro hfits
    apply firstDone_from_idle hkey hstate hfits
    rw [List.length_map, List.length_range]
  have hfits : ∀ n, (edges p s ((List.range n).map mic)).state = .done →
      p.totalSamples ≤ 131072 := by
    intro n hdone
    by_contra hlong
    exact edges_ne_done (Nat.lt_of_not_ge hlong) _ (by simp [hstate]) hdone
  refine ⟨⟨?_, ?_⟩, hreach, ?_⟩
  · rintro ⟨n, hdone⟩
    exact hfits n hdone
  · intro h
    exact ⟨_, (hreach h).done⟩
  · intro n hfirst
    obtain ⟨x, y, rest, hinputs, hrest⟩ := exists_of_firstDone hkey hstate hfirst
    have hsampled := (sampled_from_idle hkey hstate x y).of_firstDone
      (hfits n hfirst.done) hrest
    rw [hinputs, recordingInputs_from_idle hkey hstate]
    exact hsampled

theorem recording_duration_default :
    ∃ n, (edges defaultParameters (powerUp (fun _ => 0) 0 false)
      ((List.range n).map fun _ => 0)).state = .done :=
  (recording_duration (p := defaultParameters) (s := powerUp (fun _ => 0) 0 false) rfl rfl
    fun _ => 0).1.mpr (by decide)

end RockPaperScissors.MicrophoneDuration
