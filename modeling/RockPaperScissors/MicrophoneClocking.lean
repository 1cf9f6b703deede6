import RockPaperScissors.MicrophoneInput
import Mathlib.Tactic.Common
import Mathlib.Algebra.Order.Ring.Nat

namespace RockPaperScissors.MicrophoneClocking

open RockPaperScissors.Library.LabelledRun
open RockPaperScissors.MicrophoneInput

theorem totalSamples_pos (p : Parameters) : 0 < p.totalSamples :=
  Nat.mul_pos p.sampleRate_pos p.recordTime_pos

theorem samplePeriod_pos (p : Parameters) : 0 < p.samplePeriod :=
  Nat.div_pos p.sampleRate_le p.sampleRate_pos

theorem samplePeriod_le (p : Parameters) : p.samplePeriod ≤ 50000000 :=
  Nat.div_le_self _ _

@[simp] theorem sampleCount_add_one (c : BitVec 17) :
    (c + 1).toNat = (c.toNat + 1) % 131072 :=
  BitVec.toNat_add c 1

@[simp] theorem clkCount_add_one (c : BitVec 32) :
    (c + 1).toNat = (c.toNat + 1) % 4294967296 :=
  BitVec.toNat_add c 1

theorem clkCount_add_succ (c : BitVec 32) (n : Nat) :
    c + 1 + BitVec.ofNat 32 n = c + BitVec.ofNat 32 (n + 1) := by
  rw [BitVec.ofNat_add, BitVec.add_assoc]
  exact congrArg (c + ·) (BitVec.add_comm _ _)

theorem sampleTick_eq_true_iff {p : Parameters} {s : State} :
    sampleTick p s = true ↔ s.clkCount.toNat = p.samplePeriod - 1 := by
  simp [sampleTick]

theorem sampleTick_eq_false_iff {p : Parameters} {s : State} :
    sampleTick p s = false ↔ s.clkCount.toNat ≠ p.samplePeriod - 1 := by
  simp [sampleTick]

def edges (p : Parameters) (s : State) (inputs : List (BitVec 16)) : State :=
  inputs.foldl (fun s micIn => alwaysBlock p micIn s) s

@[simp] theorem edges_nil (p : Parameters) (s : State) : edges p s [] = s := rfl

@[simp] theorem edges_cons (p : Parameters) (s : State) (micIn : BitVec 16)
    (inputs : List (BitVec 16)) :
    edges p s (micIn :: inputs) = edges p (alwaysBlock p micIn s) inputs := rfl

theorem edges_append (p : Parameters) (s : State) (before after : List (BitVec 16)) :
    edges p s (before ++ after) = edges p (edges p s before) after := by
  simp [edges]

theorem run_map_posedgeClk (p : Parameters) (s : State) (inputs : List (BitVec 16)) :
    run (step p) s (inputs.map .posedgeClk) = some (edges p s inputs) := by
  induction inputs generalizing s with
  | nil => rfl
  | cons micIn inputs ih => exact ih (alwaysBlock p micIn s)

/-- Between two samples the tick counter is all that changes. -/
theorem edges_of_no_tick {p : Parameters} {s : State} (inputs : List (BitVec 16))
    (hkey : s.key = false) (hstate : s.state = .recording)
    (hlen : s.clkCount.toNat + inputs.length < p.samplePeriod) :
    edges p s inputs =
      { s with clkCount := s.clkCount + BitVec.ofNat 32 inputs.length } := by
  induction inputs generalizing s with
  | nil => simp
  | cons micIn inputs ih =>
      have hle := samplePeriod_le p
      have htick : sampleTick p s = false := by
        rw [sampleTick_eq_false_iff]
        simp only [List.length_cons] at hlen
        omega
      rw [edges_cons, alwaysBlock_of_no_tick micIn hkey hstate htick]
      refine (@ih { s with clkCount := s.clkCount + 1 } hkey hstate ?_).trans ?_
      · simp only [clkCount_add_one, List.length_cons] at hlen ⊢
        omega
      · rw [List.length_cons, ← clkCount_add_succ]

/-- Clock edges in `RECORDING` that are still to come before the one that
moves to `DONE`. -/
def edgesLeft (p : Parameters) (s : State) : Nat :=
  (p.totalSamples + 131071 - s.sampleCount.toNat) % 131072 * p.samplePeriod +
    (p.samplePeriod - 1 - s.clkCount.toNat)

/-- The key is up, a recording is under way and the tick counter is in range. -/
structure Recording (p : Parameters) (s : State) : Prop where
  key : s.key = false
  state : s.state = .recording
  clkCount_lt : s.clkCount.toNat < p.samplePeriod

theorem clkCount_add_one_of_no_tick {p : Parameters} {s : State} (hs : Recording p s)
    (htick : sampleTick p s = false) :
    (s.clkCount + 1).toNat = s.clkCount.toNat + 1 ∧
      s.clkCount.toNat + 1 < p.samplePeriod := by
  have hle := samplePeriod_le p
  have hclk := hs.clkCount_lt
  rw [sampleTick_eq_false_iff] at htick
  rw [clkCount_add_one]
  omega

theorem Recording.next {p : Parameters} {s : State} (hs : Recording p s)
    (htick : sampleTick p s = false) :
    Recording p { s with clkCount := s.clkCount + 1 } := by
  obtain ⟨hcount, hlt⟩ := clkCount_add_one_of_no_tick hs htick
  exact ⟨hs.key, hs.state, hcount ▸ hlt⟩

theorem takeSample_audioBuffer (p : Parameters) (micIn : BitVec 16) (s : State) :
    (takeSample p micIn s).audioBuffer =
      Function.update s.audioBuffer s.sampleCount.toNat micIn := by
  unfold takeSample
  split <;> rfl

theorem takeSample_key (p : Parameters) (micIn : BitVec 16) (s : State) :
    (takeSample p micIn s).key = s.key := by
  unfold takeSample
  split <;> rfl

theorem takeSample_sampleCount (p : Parameters) (micIn : BitVec 16) (s : State) :
    (takeSample p micIn s).sampleCount = s.sampleCount + 1 := by
  unfold takeSample
  split <;> rfl

theorem takeSample_clkCount (p : Parameters) (micIn : BitVec 16) (s : State) :
    (takeSample p micIn s).clkCount = 0 := by
  unfold takeSample
  split <;> rfl

theorem takeSample_of_last {p : Parameters} {s : State}
    (hlast : s.sampleCount.toNat = p.totalSamples - 1) (micIn : BitVec 16) :
    takeSample p micIn s =
      { s with
        clkCount := 0
        audioBuffer := Function.update s.audioBuffer s.sampleCount.toNat micIn
        sampleCount := s.sampleCount + 1
        ledr := 3
        recording := false
        state := .done } := by
  simp [takeSample, hlast]

theorem takeSample_of_not_last {p : Parameters} {s : State}
    (hlast : s.sampleCount.toNat ≠ p.totalSamples - 1) (micIn : BitVec 16) :
    takeSample p micIn s =
      { s with
        clkCount := 0
        audioBuffer := Function.update s.audioBuffer s.sampleCount.toNat micIn
        sampleCount := s.sampleCount + 1
        ledr := 3 } := by
  simp [takeSample, hlast]

theorem samples_of_ne_recording {p : Parameters} {s : State} (hstate : s.state ≠ .recording) :
    samples p s = false := by
  simp [samples, hstate]

theorem samples_of_recording {p : Parameters} {s : State} (hkey : s.key = false)
    (hstate : s.state = .recording) : samples p s = sampleTick p s := by
  rw [samples, hkey, hstate]
  rfl

theorem alwaysBlock_audioBuffer (p : Parameters) (micIn : BitVec 16) (s : State) :
    (alwaysBlock p micIn s).audioBuffer =
      if samples p s then Function.update s.audioBuffer s.sampleCount.toNat micIn
      else s.audioBuffer := by
  cases hkey : s.key with
  | true =>
      rw [alwaysBlock_of_key micIn hkey, samples, hkey]
      rfl
  | false =>
      cases hstate : s.state with
      | idle =>
          rw [alwaysBlock_of_idle micIn hkey hstate, samples_of_ne_recording (by simp [hstate])]
          rfl
      | waitForKey =>
          rw [alwaysBlock_of_waitForKey micIn hkey hstate,
            samples_of_ne_recording (by simp [hstate])]
          rfl
      | recording =>
          rw [samples_of_recording hkey hstate]
          cases htick : sampleTick p s with
          | true =>
              rw [alwaysBlock_of_tick micIn hkey hstate htick, takeSample_audioBuffer,
                if_pos rfl]
          | false =>
              rw [alwaysBlock_of_no_tick micIn hkey hstate htick]
              rfl
      | done =>
          rw [alwaysBlock_of_done micIn hkey hstate, samples_of_ne_recording (by simp [hstate])]
          rfl

theorem done_of_edgesLeft_eq_zero {p : Parameters} {s : State} (hs : Recording p s)
    (hfits : p.totalSamples ≤ 131072) (hzero : edgesLeft p s = 0) (micIn : BitVec 16) :
    (alwaysBlock p micIn s).state = .done := by
  have hperiod := samplePeriod_pos p
  have htotal := totalSamples_pos p
  have hcount := s.sampleCount.isLt
  have hclk := hs.clkCount_lt
  obtain ⟨hsamples, hticks⟩ := Nat.add_eq_zero_iff.mp hzero
  have hleft := (Nat.mul_eq_zero.mp hsamples).resolve_right (by omega)
  have htick : sampleTick p s = true := by
    rw [sampleTick_eq_true_iff]
    omega
  have hlast : s.sampleCount.toNat = p.totalSamples - 1 := by
    omega
  rw [alwaysBlock_of_tick micIn hs.key hs.state htick, takeSample_of_last hlast]

theorem recording_of_edgesLeft_ne_zero {p : Parameters} {s : State} (hs : Recording p s)
    (hfits : p.totalSamples ≤ 131072) {n : Nat} (hleft : edgesLeft p s = n + 1)
    (micIn : BitVec 16) :
    Recording p (alwaysBlock p micIn s) ∧ edgesLeft p (alwaysBlock p micIn s) = n := by
  have hperiod := samplePeriod_pos p
  have hle := samplePeriod_le p
  have htotal := totalSamples_pos p
  have hcount := s.sampleCount.isLt
  have hclk := hs.clkCount_lt
  cases htick : sampleTick p s with
  | true =>
      rw [sampleTick_eq_true_iff] at htick
      obtain ⟨k, hk⟩ : ∃ k, (p.totalSamples + 131071 - s.sampleCount.toNat) % 131072 = k + 1 := by
        apply Nat.exists_eq_succ_of_ne_zero
        intro hzero
        rw [edgesLeft, hzero] at hleft
        omega
      have hlast : s.sampleCount.toNat ≠ p.totalSamples - 1 := by
        omega
      have hnext : (p.totalSamples + 131071 - (s.sampleCount.toNat + 1) % 131072) % 131072 = k := by
        omega
      rw [alwaysBlock_of_tick micIn hs.key hs.state (sampleTick_eq_true_iff.mpr htick),
        takeSample_of_not_last hlast]
      refine ⟨⟨hs.key, hs.state, by simpa using hperiod⟩, ?_⟩
      rw [edgesLeft, hk, Nat.succ_mul] at hleft
      simp only [edgesLeft, sampleCount_add_one, hnext]
      simp only [BitVec.ofNat_eq_ofNat, BitVec.toNat_ofNat]
      omega
  | false =>
      obtain ⟨hadd, hlt⟩ := clkCount_add_one_of_no_tick hs htick
      rw [alwaysBlock_of_no_tick micIn hs.key hs.state htick]
      refine ⟨hs.next htick, ?_⟩
      rw [edgesLeft] at hleft
      simp only [edgesLeft, hadd]
      omega

/-- With the key left alone the recorder reaches `DONE` after exactly
`edgesLeft + 1` edges, whatever the input. -/
theorem edges_reach_done {p : Parameters} {s : State} (hs : Recording p s)
    (hfits : p.totalSamples ≤ 131072) {inputs : List (BitVec 16)}
    (hlen : inputs.length = edgesLeft p s + 1) :
    (edges p s inputs).state = .done ∧
      ∀ k, k < inputs.length → Recording p (edges p s (inputs.take k)) := by
  induction inputs generalizing s with
  | nil => simp at hlen
  | cons micIn inputs ih =>
      cases hleft : edgesLeft p s with
      | zero =>
          obtain rfl : inputs = [] := by
            simpa [hleft] using hlen
          refine ⟨done_of_edgesLeft_eq_zero hs hfits hleft micIn, ?_⟩
          intro k hk
          obtain rfl : k = 0 := by simpa using hk
          exact hs
      | succ n =>
          obtain ⟨hnext, hn⟩ := recording_of_edgesLeft_ne_zero hs hfits hleft micIn
          obtain ⟨hdone, hbefore⟩ := ih hnext (by rw [hn]; simpa [hleft] using hlen)
          refine ⟨hdone, ?_⟩
          intro k hk
          cases k with
          | zero => exact hs
          | succ k => exact hbefore k (by simpa using hk)

theorem edges_from_idle_eq {p : Parameters} {s : State} (hkey : s.key = false)
    (hstate : s.state = .idle) (x y : BitVec 16) :
    edges p s [x, y] =
      { s with
        clkCount := 0, sampleCount := 0, recording := true
        state := .recording, ledr := 1 } := by
  rw [edges_cons, alwaysBlock_of_idle x hkey hstate, edges_cons, edges_nil]
  exact alwaysBlock_of_waitForKey y hkey rfl

theorem edges_from_idle {p : Parameters} {s : State} (hkey : s.key = false)
    (hstate : s.state = .idle) (x y : BitVec 16) :
    Recording p (edges p s [x, y]) ∧ (edges p s [x, y]).sampleCount = 0 := by
  have hperiod := samplePeriod_pos p
  rw [edges_from_idle_eq hkey hstate]
  exact ⟨⟨hkey, rfl, by simpa using hperiod⟩, rfl⟩

theorem edges_from_waitForKey {p : Parameters} {s : State} (hkey : s.key = false)
    (hstate : s.state = .waitForKey) (x : BitVec 16) :
    edges p s [x] = { s with recording := true, state := .recording, ledr := 1 } :=
  alwaysBlock_of_waitForKey x hkey hstate

theorem edges_to_tick {p : Parameters} {s : State} (hs : Recording p s)
    {inputs : List (BitVec 16)}
    (hlen : s.clkCount.toNat + inputs.length + 1 = p.samplePeriod) :
    Recording p (edges p s inputs) ∧ sampleTick p (edges p s inputs) = true ∧
      (edges p s inputs).sampleCount = s.sampleCount ∧
      (edges p s inputs).audioBuffer = s.audioBuffer := by
  have hle := samplePeriod_le p
  have hclk : (s.clkCount + BitVec.ofNat 32 inputs.length).toNat + 1 = p.samplePeriod := by
    rw [BitVec.toNat_add, BitVec.toNat_ofNat]
    omega
  rw [edges_of_no_tick inputs hs.key hs.state (by omega), sampleTick_eq_true_iff]
  refine ⟨⟨hs.key, hs.state, ?_⟩, ?_, rfl, rfl⟩
  · change (s.clkCount + BitVec.ofNat 32 inputs.length).toNat < p.samplePeriod
    omega
  · change (s.clkCount + BitVec.ofNat 32 inputs.length).toNat = p.samplePeriod - 1
    omega

end RockPaperScissors.MicrophoneClocking
