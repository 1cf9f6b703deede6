import RockPaperScissors.AudioRefinement
import RockPaperScissors.Library.ShiftRegister

namespace RockPaperScissors.SerialFrames

open RockPaperScissors.Library.ShiftRegister
open RockPaperScissors.RecordLoop
open RockPaperScissors.AudioCore
open RockPaperScissors.AudioSubsystem
open RockPaperScissors.AudioRefinement

variable {F : Type*}

section Frames

variable [Scfifo F]

/-- The bits since the last edge of the channels' clock, `none` while there was no
edge since the FIFOs were cleared. -/
def nextFrame (p : Pins) (a : Audio F) (frame : Option (List Bool)) : Option (List Bool) :=
  if p.reset || a.clearReadFifos then none
  else if a.adcEdges.leftRightClkEdge then some []
  else if a.bitClockEdges.risingEdge then frame.map fun bits => bits ++ [p.audAdcdat]
  else frame

def sampleIn : Option (List Bool) → BitVec 16
  | none => 0
  | some bits => (BitVec.ofBoolListBE (bits.take 16)).setWidth 16

def frames (frame : Option (List Bool)) (a : Audio F) :
    List (Pins × Bus) → List (Channel × Option (List Bool))
  | [] => []
  | (p, b) :: rest =>
      ((arrival a).map fun x => (x.1, frame)).toList ++
        frames (nextFrame p a frame) (a.clock p b) rest

/-- The bit clock is low at the edges of the channels' clock, and between two of
them there are at least 16 bits. -/
def Framed (frame : Option (List Bool)) (a : Audio F) : List (Pins × Bus) → Prop
  | [] => True
  | (p, b) :: rest =>
      (a.adcEdges.leftRightClkEdge = true →
        a.bitClockEdges.curTestClk = false ∧ ∀ bits ∈ frame, 16 ≤ bits.length) ∧
      Framed (nextFrame p a frame) (a.clock p b) rest

instance decidableFramed : (frame : Option (List Bool)) → (a : Audio F) →
    (inputs : List (Pins × Bus)) → Decidable (Framed frame a inputs)
  | _, _, [] => isTrue trivial
  | frame, a, (p, b) :: rest =>
      haveI := decidableFramed (nextFrame p a frame) (a.clock p b) rest
      inferInstanceAs (Decidable (_ ∧ _))

end Frames

section Receiving

/-- The bit counter after a number of falling edges, and the register after the
bits that were counted. -/
structure Counted (bits : List Bool) (a : Audio F) (falls : Nat) (old : BitVec 16) : Prop where
  length : falls + a.bitClockEdges.lastTestClk.toNat = bits.length
  counting : a.audioInDeserializer.audioOutBitCounter.counting = decide (falls < 16)
  bitCounter : a.audioInDeserializer.audioOutBitCounter.bitCounter.toNat = 15 - falls
  register : a.audioInDeserializer.dataInShiftReg = @shiftInAll 15 old (bits.take 16)

structure Idle (a : Audio F) : Prop where
  counting : a.audioInDeserializer.audioOutBitCounter.counting = false
  bitCounter : a.audioInDeserializer.audioOutBitCounter.bitCounter = 0x00
  register : a.audioInDeserializer.dataInShiftReg = 0

def Receives (a : Audio F) : Option (List Bool) → Prop
  | none => Idle a
  | some bits => ∃ falls old, Counted bits a falls old

variable {a : Audio F} {p : Pins}

theorem Receives.register {frame : Option (List Bool)} (h : Receives a frame)
    (hlong : ∀ bits ∈ frame, 16 ≤ bits.length) :
    a.audioInDeserializer.dataInShiftReg = sampleIn frame := by
  rcases frame with - | bits
  · exact Idle.register h
  · obtain ⟨falls, old, hcounted⟩ := h
    have hbits := hlong bits rfl
    rw [hcounted.register]
    exact shiftInAll_of_length_ge (by rw [List.length_take]; omega) old

theorem leftRightClkEdge_of_arrival {x : Channel × BitVec 16} (h : arrival a = some x) :
    a.adcEdges.leftRightClkEdge = true ∧ x.2 = a.audioInDeserializer.dataInShiftReg := by
  rw [arrival] at h
  split at h
  · next hfall =>
      obtain rfl := Option.some.inj h
      exact ⟨by simp_all [Edges.leftRightClkEdge, Audio.adcEdges], rfl⟩
  · split at h
    · next hrise =>
        obtain rfl := Option.some.inj h
        exact ⟨by simp_all [Edges.leftRightClkEdge, Audio.adcEdges], rfl⟩
    · exact absurd h.symm (Option.some_ne_none x)

variable [Scfifo F]

theorem idle_clear (hclear : (p.reset || a.clearReadFifos) = true) (b : Bus) :
    Idle (a.clock p b) := by
  refine ⟨?_, ?_, ?_⟩ <;> simp [Audio.clock, Deserializer.clock, BitCounter.clock, hclear]

theorem Idle.clock (h : Idle a) (hclear : (p.reset || a.clearReadFifos) = false)
    (hedge : a.adcEdges.leftRightClkEdge = false) (b : Bus) : Idle (a.clock p b) := by
  refine ⟨?_, ?_, ?_⟩
  · simp [Audio.clock, Deserializer.clock, BitCounter.clock, hclear, hedge, h.counting]
  · simp [Audio.clock, Deserializer.clock, BitCounter.clock, hclear, hedge, h.bitCounter]
  · simp [Audio.clock, Deserializer.clock, hclear, h.counting, h.register]

theorem counted_edge (hclear : (p.reset || a.clearReadFifos) = false)
    (hedge : a.adcEdges.leftRightClkEdge = true) (hlow : a.bitClockEdges.curTestClk = false)
    (b : Bus) : Counted [] (a.clock p b) 0 (a.clock p b).audioInDeserializer.dataInShiftReg := by
  refine ⟨?_, ?_, ?_, rfl⟩
  · simp [Audio.clock, ClockEdge.clock, hlow]
  · simp [Audio.clock, Deserializer.clock, BitCounter.clock, hclear, hedge]
  · simp [Audio.clock, Deserializer.clock, BitCounter.clock, hclear, hedge]

theorem clock_bitCounter_of_falling {e : Edges} {c : BitCounter} {falls : Nat}
    (hedge : e.leftRightClkEdge = false) (hfall : e.bitClkFallingEdge = true)
    (hcounting : c.counting = decide (falls < 16)) (hcounter : c.bitCounter.toNat = 15 - falls) :
    (c.clock false e).counting = decide (falls + 1 < 16) ∧
      (c.clock false e).bitCounter.toNat = 15 - (falls + 1) := by
  by_cases hzero : c.bitCounter = 0x00
  · have hfalls : 15 - falls = 0 := by rw [← hcounter, hzero]; rfl
    have hdone : ¬ falls + 1 < 16 := by omega
    refine ⟨?_, ?_⟩
    · simp [BitCounter.clock, hedge, hfall, hzero, hdone]
    · simp [BitCounter.clock, hedge, hfall, hzero]
      omega
  · have hne : c.bitCounter ≠ 0#5 := hzero
    have hpos : c.bitCounter.toNat ≠ 0 := fun h => hne (BitVec.eq_of_toNat_eq h)
    have hmore : falls + 1 < 16 := by omega
    refine ⟨?_, ?_⟩
    · simp [BitCounter.clock, hedge, hne, hcounting, hmore, Nat.lt_of_succ_lt hmore]
    · have hcounter' : (c.clock false e).bitCounter = c.bitCounter - 0x01 := by
        simp [BitCounter.clock, hedge, hfall, hne]
      rw [hcounter', BitVec.toNat_sub_of_le (by rw [BitVec.le_def]; exact Nat.pos_of_ne_zero hpos),
        hcounter]
      rfl

theorem clock_bitCounter_of_not_falling {e : Edges} (c : BitCounter)
    (hedge : e.leftRightClkEdge = false) (hfall : e.bitClkFallingEdge = false) :
    c.clock false e = c := by
  simp [BitCounter.clock, hedge, hfall]

theorem Counted.clock {bits : List Bool} {falls : Nat} {old : BitVec 16}
    (h : Counted bits a falls old) (hclear : (p.reset || a.clearReadFifos) = false)
    (hedge : a.adcEdges.leftRightClkEdge = false) (b : Bus) :
    ∃ falls', Counted (if a.bitClockEdges.risingEdge then bits ++ [p.audAdcdat] else bits)
      (a.clock p b) falls' old := by
  have hrise := a.bitClockEdges.risingEdge_eq
  have hfall := a.bitClockEdges.fallingEdge_eq
  have hlength := h.length
  have hcounter : (a.clock p b).audioInDeserializer.audioOutBitCounter =
      a.audioInDeserializer.audioOutBitCounter.clock false a.adcEdges := by
    simp [Audio.clock, Deserializer.clock, hclear]
  have hregister : (a.clock p b).audioInDeserializer.dataInShiftReg =
      if a.bitClockEdges.risingEdge && a.audioInDeserializer.audioOutBitCounter.counting then
        shiftIn (n := 15) a.audioInDeserializer.dataInShiftReg p.audAdcdat
      else a.audioInDeserializer.dataInShiftReg := by
    simp only [Audio.clock, Deserializer.clock, hclear, Bool.false_eq_true, if_false, shiftIn]
    rfl
  have hlast : (a.clock p b).bitClockEdges.lastTestClk = a.bitClockEdges.curTestClk := rfl
  -- A rising edge brings a bit, a falling edge is counted.
  by_cases hrising : a.bitClockEdges.risingEdge = true
  · rw [hrising] at hrise hregister
    obtain ⟨hbefore, hafter⟩ : a.bitClockEdges.lastTestClk = false ∧
        a.bitClockEdges.curTestClk = true := by simpa using hrise.symm
    rw [hbefore] at hlength
    rw [hbefore, hafter] at hfall
    rw [clock_bitCounter_of_not_falling _ hedge hfall] at hcounter
    rw [if_pos hrising]
    refine ⟨falls, ?_, by rw [hcounter, h.counting], by rw [hcounter, h.bitCounter], ?_⟩
    · rw [hlast, hafter, List.length_append, ← hlength]
      rfl
    · rw [hregister, h.counting, h.register]
      have hbits : falls = bits.length := hlength
      by_cases hfalls : falls < 16
      · rw [decide_eq_true hfalls, Bool.true_and, if_pos rfl, List.take_of_length_le (by omega),
          List.take_of_length_le (by rw [List.length_append, List.length_singleton]; omega),
          shiftInAll_append]
        rfl
      · rw [decide_eq_false hfalls, Bool.and_false, if_neg Bool.false_ne_true,
          List.take_append_of_le_length (by omega)]
  · rw [Bool.not_eq_true] at hrising
    rw [hrising] at hrise hregister
    rw [if_neg (by rw [hrising]; exact Bool.false_ne_true)]
    have hregister' := hregister.trans (if_neg Bool.false_ne_true)
    cases hfalling : a.bitClockEdges.fallingEdge with
    | true =>
        rw [hfalling] at hfall
        obtain ⟨hbefore, hafter⟩ : a.bitClockEdges.lastTestClk = true ∧
            a.bitClockEdges.curTestClk = false := by simpa using hfall.symm
        obtain ⟨hcounting, hbitCounter⟩ :=
          clock_bitCounter_of_falling hedge hfalling h.counting h.bitCounter
        rw [← hcounter] at hcounting hbitCounter
        refine ⟨falls + 1, ?_, hcounting, hbitCounter, hregister'.trans h.register⟩
        rw [hlast, hafter, ← hlength, hbefore]
        rfl
    | false =>
        rw [clock_bitCounter_of_not_falling _ hedge hfalling] at hcounter
        refine ⟨falls, ?_, by rw [hcounter, h.counting], by rw [hcounter, h.bitCounter],
          hregister'.trans h.register⟩
        have hsame : a.bitClockEdges.curTestClk = a.bitClockEdges.lastTestClk := by
          rw [hfalling] at hfall
          cases hbefore : a.bitClockEdges.lastTestClk <;>
            cases hafter : a.bitClockEdges.curTestClk <;>
            rw [hbefore, hafter] at hfall hrise
          · exact absurd hrise Bool.false_ne_true
          · exact absurd hfall Bool.false_ne_true
        rw [hlast, hsame, hlength]

theorem Receives.clock {frame : Option (List Bool)} (h : Receives a frame)
    (hlow : a.adcEdges.leftRightClkEdge = true → a.bitClockEdges.curTestClk = false) (b : Bus) :
    Receives (a.clock p b) (nextFrame p a frame) := by
  cases hclear : p.reset || a.clearReadFifos with
  | true =>
      rw [nextFrame, if_pos hclear]
      exact idle_clear hclear b
  | false =>
      rw [nextFrame, if_neg (by rw [hclear]; exact Bool.false_ne_true)]
      cases hedge : a.adcEdges.leftRightClkEdge with
      | true =>
          rw [if_pos rfl]
          exact ⟨0, _, counted_edge hclear hedge (hlow hedge) b⟩
      | false =>
          rw [if_neg Bool.false_ne_true]
          rcases frame with - | bits
          · have hidle : Idle (a.clock p b) := Idle.clock h hclear hedge b
            split <;> exact hidle
          · obtain ⟨falls, old, hcounted⟩ := h
            obtain ⟨falls', hcounted'⟩ := hcounted.clock hclear hedge b
            split
            · next hrise => exact ⟨falls', old, by rwa [if_pos hrise] at hcounted'⟩
            · next hrise => exact ⟨falls', old, by rwa [if_neg hrise] at hcounted'⟩

end Receiving

section Runs

variable [Scfifo F]

theorem arrivals_of_receives {frame : Option (List Bool)} {a : Audio F}
    {inputs : List (Pins × Bus)} (h : Receives a frame) (hframed : Framed frame a inputs) :
    arrivals a inputs = (frames frame a inputs).map fun x => (x.1, sampleIn x.2) := by
  induction inputs generalizing frame a with
  | nil => rfl
  | cons input rest ih =>
      obtain ⟨p, b⟩ := input
      obtain ⟨hedge, hrest⟩ := hframed
      have hnext : Receives (a.clock p b) (nextFrame p a frame) :=
        h.clock (fun hlow => (hedge hlow).1) b
      rw [arrivals, frames, List.map_append, ih hnext hrest]
      congr 1
      cases harrival : arrival a with
      | none => rfl
      | some x =>
          obtain ⟨hclk, hsample⟩ := leftRightClkEdge_of_arrival harrival
          have hregister := h.register (hedge hclk).2
          obtain ⟨channel, sample⟩ := x
          obtain rfl : sample = sampleIn frame := hsample.trans hregister
          rfl

/-- From reset on, under any accesses, every sample that the deserializer stores is
the first 16 bits that came in on the data line since the last edge of the channels'
clock, and 0 if there was none since the FIFOs were cleared. -/
theorem arrivals_frames {a : Audio F} {p : Pins} {b : Bus} {inputs : List (Pins × Bus)}
    (hreset : p.reset = true) (hframed : Framed none (a.clock p b) inputs) :
    arrivals (a.clock p b) inputs =
      (frames none (a.clock p b) inputs).map fun x => (x.1, sampleIn x.2) :=
  arrivals_of_receives (idle_clear (by rw [hreset, Bool.true_or]) b) hframed

end Runs

section OneWord

/-- A word is written to the left data register in every clock. -/
def lines (leftRightClk bitClk data : Bool) : Pins × Bus :=
  ({ quietPins leftRightClk with audBclk := bitClk, audAdcdat := data },
    ⟨2, true, false, true, 0x1234⟩)

def oneWord (word : List Bool) : List (Pins × Bus) :=
  [lines true false false, lines true false false] ++
    word.flatMap (fun bit => [lines true true bit, lines true false bit]) ++
    [lines false false false, lines false false false]

theorem arrivals_frames_oneWord :
    arrivals (quietAudio.clock { quietPins false with reset := true } quietBus)
        (oneWord [false, true, false, true, true, false, true, false,
          false, false, true, true, true, true, false, false]) =
      [(.left, 0x5A3C)] :=
  (arrivals_frames rfl (by decide +kernel)).trans (by decide +kernel)

end OneWord

end RockPaperScissors.SerialFrames
