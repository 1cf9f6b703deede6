import RockPaperScissors.Library.LabelledRun
import Mathlib.Algebra.Group.Nat.Defs
import Mathlib.Logic.Function.Basic

/-!
The recorder of `microphone_input.v`: its registers, the always block that
runs on a rising edge of `clk` or of `key`, and the write each run of that
block makes to `audio_buffer`.
-/

namespace RockPaperScissors.MicrophoneInput

open RockPaperScissors.Library.LabelledRun

/-- The module parameters, within the range the 32-bit constants allow. -/
structure Parameters where
  sampleRate : Nat
  recordTime : Nat
  sampleRate_pos : 0 < sampleRate
  sampleRate_le : sampleRate ≤ 50000000
  recordTime_pos : 0 < recordTime
  totalSamples_lt : sampleRate * recordTime < 2 ^ 31

def Parameters.totalSamples (p : Parameters) : Nat := p.sampleRate * p.recordTime

def Parameters.samplePeriod (p : Parameters) : Nat := 50000000 / p.sampleRate

def defaultParameters : Parameters where
  sampleRate := 48000
  recordTime := 2
  sampleRate_pos := by decide
  sampleRate_le := by decide
  recordTime_pos := by decide
  totalSamples_lt := by decide

inductive FsmState
  | idle
  | waitForKey
  | recording
  | done
  deriving DecidableEq, Repr

structure State where
  state : FsmState
  sampleCount : BitVec 17
  clkCount : BitVec 32
  recording : Bool
  ledr : BitVec 18
  audioBuffer : Nat → BitVec 16
  key : Bool

def powerUp (audioBuffer : Nat → BitVec 16) (ledr : BitVec 18) (key : Bool) : State where
  state := .idle
  sampleCount := 0
  clkCount := 0
  recording := false
  ledr := ledr
  audioBuffer := audioBuffer
  key := key

def sampleTick (p : Parameters) (s : State) : Bool :=
  s.clkCount.toNat == p.samplePeriod - 1

/-- The branch of `RECORDING` taken on a sample tick.  All right-hand sides
read the registers from before the edge. -/
def takeSample (p : Parameters) (micIn : BitVec 16) (s : State) : State :=
  let s' := { s with
    clkCount := 0
    audioBuffer := Function.update s.audioBuffer s.sampleCount.toNat micIn
    sampleCount := s.sampleCount + 1
    ledr := 0b000000000000000011 }
  if s.sampleCount.toNat == p.totalSamples - 1 then
    { s' with recording := false, state := .done }
  else s'

/-- One run of the always block, with `mic_in` on the input. -/
def alwaysBlock (p : Parameters) (micIn : BitVec 16) (s : State) : State :=
  if s.key then { s with state := .waitForKey }
  else
    match s.state with
    | .idle =>
        { s with
          ledr := 0
          sampleCount := 0
          clkCount := 0
          recording := false
          state := .waitForKey }
    | .waitForKey =>
        if s.key == false then
          { s with recording := true, state := .recording, ledr := 0b000000000000000001 }
        else s
    | .recording =>
        if sampleTick p s then takeSample p micIn s
        else { s with clkCount := s.clkCount + 1 }
    | .done => { s with ledr := 0b111111111111111111, state := .idle }

/-- What the surroundings can do to the module. -/
inductive Event
  | posedgeKey (micIn : BitVec 16)
  | negedgeKey
  | posedgeClk (micIn : BitVec 16)

def step (p : Parameters) (s : State) : Event → Option State
  | .posedgeKey micIn =>
      if s.key then none else some (alwaysBlock p micIn { s with key := true })
  | .negedgeKey => if s.key then some { s with key := false } else none
  | .posedgeClk micIn => some (alwaysBlock p micIn s)

/-- The always block writes to `audio_buffer` in this state. -/
def samples (p : Parameters) (s : State) : Bool :=
  !s.key && s.state == .recording && sampleTick p s

/-- The address and the value an event writes to `audio_buffer`. -/
def bufferWrite (p : Parameters) (s : State) : Event → Option (Nat × BitVec 16)
  | .posedgeClk micIn => if samples p s then some (s.sampleCount.toNat, micIn) else none
  | .posedgeKey _ => none
  | .negedgeKey => none

section ClockEdge

variable {p : Parameters} {s : State} (micIn : BitVec 16)

theorem alwaysBlock_of_key (hkey : s.key = true) :
    alwaysBlock p micIn s = { s with state := .waitForKey } := by
  simp [alwaysBlock, hkey]

theorem alwaysBlock_of_idle (hkey : s.key = false) (hstate : s.state = .idle) :
    alwaysBlock p micIn s =
      { s with
        ledr := 0, sampleCount := 0, clkCount := 0, recording := false
        state := .waitForKey } := by
  simp [alwaysBlock, hkey, hstate]

theorem alwaysBlock_of_waitForKey (hkey : s.key = false) (hstate : s.state = .waitForKey) :
    alwaysBlock p micIn s = { s with recording := true, state := .recording, ledr := 1 } := by
  simp [alwaysBlock, hkey, hstate]

theorem alwaysBlock_of_tick (hkey : s.key = false) (hstate : s.state = .recording)
    (htick : sampleTick p s = true) : alwaysBlock p micIn s = takeSample p micIn s := by
  simp [alwaysBlock, hkey, hstate, htick]

theorem alwaysBlock_of_no_tick (hkey : s.key = false) (hstate : s.state = .recording)
    (htick : sampleTick p s = false) :
    alwaysBlock p micIn s = { s with clkCount := s.clkCount + 1 } := by
  simp [alwaysBlock, hkey, hstate, htick]

theorem alwaysBlock_of_done (hkey : s.key = false) (hstate : s.state = .done) :
    alwaysBlock p micIn s = { s with ledr := 0b111111111111111111, state := .idle } := by
  simp [alwaysBlock, hkey, hstate]

end ClockEdge

theorem step_elim {p : Parameters} {s t : State} {e : Event}
    {P : Event → State → Prop} (h : step p s e = some t)
    (press : ∀ micIn, s.key = false →
      P (.posedgeKey micIn) { s with key := true, state := .waitForKey })
    (release : s.key = true → P .negedgeKey { s with key := false })
    (held : ∀ micIn, s.key = true →
      P (.posedgeClk micIn) { s with state := .waitForKey })
    (idle : ∀ micIn, s.key = false → s.state = .idle →
      P (.posedgeClk micIn) { s with
        ledr := 0, sampleCount := 0, clkCount := 0, recording := false
        state := .waitForKey })
    (waiting : ∀ micIn, s.key = false → s.state = .waitForKey →
      P (.posedgeClk micIn) { s with recording := true, state := .recording, ledr := 1 })
    (sample : ∀ micIn, s.key = false → s.state = .recording → sampleTick p s = true →
      P (.posedgeClk micIn) (takeSample p micIn s))
    (count : ∀ micIn, s.key = false → s.state = .recording → sampleTick p s = false →
      P (.posedgeClk micIn) { s with clkCount := s.clkCount + 1 })
    (finished : ∀ micIn, s.key = false → s.state = .done →
      P (.posedgeClk micIn) { s with ledr := 0b111111111111111111, state := .idle }) :
    P e t := by
  cases e with
  | posedgeKey micIn =>
      cases hkey : s.key <;> simp [step, alwaysBlock, hkey] at h
      subst t
      exact press micIn hkey
  | negedgeKey =>
      cases hkey : s.key <;> simp [step, hkey] at h
      subst t
      exact release hkey
  | posedgeClk micIn =>
      obtain rfl : alwaysBlock p micIn s = t := by simpa [step] using h
      cases hkey : s.key with
      | true =>
          rw [alwaysBlock_of_key micIn hkey]
          exact held micIn hkey
      | false =>
          cases hstate : s.state with
          | idle =>
              rw [alwaysBlock_of_idle micIn hkey hstate]
              exact idle micIn hkey hstate
          | waitForKey =>
              rw [alwaysBlock_of_waitForKey micIn hkey hstate]
              exact waiting micIn hkey hstate
          | recording =>
              cases htick : sampleTick p s with
              | true =>
                  rw [alwaysBlock_of_tick micIn hkey hstate htick]
                  exact sample micIn hkey hstate htick
              | false =>
                  rw [alwaysBlock_of_no_tick micIn hkey hstate htick]
                  exact count micIn hkey hstate htick
          | done =>
              rw [alwaysBlock_of_done micIn hkey hstate]
              exact finished micIn hkey hstate

end RockPaperScissors.MicrophoneInput
