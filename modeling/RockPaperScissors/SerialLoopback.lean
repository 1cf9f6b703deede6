import RockPaperScissors.SerialFrames

namespace RockPaperScissors.SerialLoopback

open RockPaperScissors.Library.ShiftRegister
open RockPaperScissors.AudioCore
open RockPaperScissors.AudioSubsystem
open RockPaperScissors.AudioRefinement
open RockPaperScissors.SerialFrames

variable {F : Type*}

section Transfers

variable [Scfifo F]

/-- The word that the serializer takes at an edge of the channels' clock, 0 if it
takes none. -/
def taken (a : Audio F) : Channel × BitVec 16 :=
  if a.dacEdges.leftRightClkRisingEdge then
    (.left, if a.audioOutSerializer.readLeftChannel a.dacEdges then
      a.audioOutSerializer.leftChannelFifo.readData else 0)
  else
    (.right, if a.audioOutSerializer.readRightChannel a.dacEdges then
      a.audioOutSerializer.rightChannelFifo.readData else 0)

/-- The words on the line, one for each edge of the channels' clock. -/
def sent (word : Channel × BitVec 16) (a : Audio F) :
    List (Pins × Bus) → List (Channel × BitVec 16)
  | [] => []
  | (p, b) :: rest =>
      if a.adcEdges.leftRightClkEdge then
        word :: sent (taken a) (a.clock p b) rest
      else sent word (a.clock p b) rest

/-- The FIFOs are not cleared, the data line is fed back and both directions have
one clock of the channels. -/
structure FedBack (p : Pins) (a : Audio F) : Prop where
  reset : p.reset = false
  clearReadFifos : a.clearReadFifos = false
  clearWriteFifos : a.clearWriteFifos = false
  audAdcdat : p.audAdcdat = a.audioOutSerializer.serialAudioOutData
  audAdclrck : p.audAdclrck = p.audDaclrck

/-- The output had a clock to settle before every rising edge of the bit clock,
and at the edges of the channels' clock the bit clock is low and at least 16 bits
came in. -/
def Looped (settled : Bool) (bits : Nat) (a : Audio F) : List (Pins × Bus) → Prop
  | [] => True
  | (p, b) :: rest =>
      FedBack p a ∧ (a.bitClockEdges.risingEdge = true → settled = true) ∧
        (a.adcEdges.leftRightClkEdge = true →
          a.bitClockEdges.curTestClk = false ∧ 16 ≤ bits) ∧
        Looped (!a.adcEdges.leftRightClkEdge && !a.bitClockEdges.fallingEdge)
          (if a.adcEdges.leftRightClkEdge then 0 else bits + a.bitClockEdges.risingEdge.toNat)
          (a.clock p b) rest

instance (p : Pins) (a : Audio F) : Decidable (FedBack p a) :=
  decidable_of_iff (p.reset = false ∧ a.clearReadFifos = false ∧ a.clearWriteFifos = false ∧
      p.audAdcdat = a.audioOutSerializer.serialAudioOutData ∧ p.audAdclrck = p.audDaclrck)
    ⟨fun h => ⟨h.1, h.2.1, h.2.2.1, h.2.2.2.1, h.2.2.2.2⟩,
      fun h => ⟨h.reset, h.clearReadFifos, h.clearWriteFifos, h.audAdcdat, h.audAdclrck⟩⟩

instance decidableLooped : (settled : Bool) → (bits : Nat) → (a : Audio F) →
    (inputs : List (Pins × Bus)) → Decidable (Looped settled bits a inputs)
  | _, _, _, [] => isTrue trivial
  | _, bits, a, (p, b) :: rest =>
      haveI := decidableLooped (!a.adcEdges.leftRightClkEdge && !a.bitClockEdges.fallingEdge)
        (if a.adcEdges.leftRightClkEdge then 0 else bits + a.bitClockEdges.risingEdge.toNat)
        (a.clock p b) rest
      inferInstanceAs (Decidable (_ ∧ _ ∧ _ ∧ _))

end Transfers

section InFlight

/-- Both directions follow the one clock of the channels. -/
structure Synced (a : Audio F) : Prop where
  doneAdcChannelSync : a.doneAdcChannelSync = true
  doneDacChannelSync : a.doneDacChannelSync = true
  leftRightClk : a.dacLeftRightClockEdges = a.adcLeftRightClockEdges

/-- A word on the line, after a number of bits and falling edges. -/
structure InFlight (word : Channel × BitVec 16) (bits falls : Nat) (settled : Bool)
    (a : Audio F) : Prop extends Synced a where
  channel : word.1 = nextBefore a
  counted : ∃ old, Counted (@topBits 15 word.2 bits) a falls old
  shifted : a.audioOutSerializer.dataOutShiftReg =
    @shiftInAll 15 word.2 (List.replicate falls false)
  sending : settled = true → a.audioOutSerializer.serialAudioOutData = word.2.getMsbD falls

variable {word : Channel × BitVec 16} {bits falls : Nat} {settled : Bool} {a : Audio F} {p : Pins}

theorem Synced.dacEdges (h : Synced a) : a.dacEdges = a.adcEdges := by
  simp [Audio.dacEdges, Audio.adcEdges, h.doneDacChannelSync, h.leftRightClk]

theorem leftRightClkFallingEdge_of_rising {a : Audio F}
    (h : a.dacEdges.leftRightClkRisingEdge = true) :
    a.dacEdges.leftRightClkFallingEdge = false := by
  simp only [Audio.dacEdges, ClockEdge.risingEdge_eq, ClockEdge.fallingEdge_eq, Bool.and_eq_true,
    Bool.not_eq_true'] at h ⊢
  rw [h.2.1, Bool.false_and, Bool.and_false]

theorem exists_arrival (hsync : a.doneAdcChannelSync = true)
    (hedge : a.adcEdges.leftRightClkEdge = true) :
    ∃ channel, arrival a = some (channel, a.audioInDeserializer.dataInShiftReg) ∧
      a.adcEdges.leftRightClkRisingEdge = decide (.right = channel) ∧
      channel = nextBefore a ∧ channel.other = nextAfter a := by
  rcases arrival_cases a with ⟨channel, harrival, hstores, hchannel, hother⟩ | ⟨-, hstores, -⟩
  · refine ⟨channel, harrival, ?_, hchannel, hother⟩
    rw [← hstores .right]
    simp [stores, hsync, Audio.adcEdges]
  · have hleft := hstores .left
    have hright := hstores .right
    simp only [stores, hsync, Bool.true_and] at hleft hright
    simp [Edges.leftRightClkEdge, Audio.adcEdges, hleft, hright] at hedge

theorem FedBack.not_clear (h : FedBack p a) : (p.reset || a.clearReadFifos) = false := by
  rw [h.reset, h.clearReadFifos, Bool.false_or]

theorem InFlight.arrival (h : InFlight word bits falls settled a)
    (hedge : a.adcEdges.leftRightClkEdge = true) (hbits : 16 ≤ bits) :
    arrival a = some word := by
  obtain ⟨old, hcounted⟩ := h.counted
  have hword : a.audioInDeserializer.dataInShiftReg = word.2 := by
    have hreceives : Receives a (some (@topBits 15 word.2 bits)) := ⟨falls, old, hcounted⟩
    rw [hreceives.register (by rintro _ ⟨rfl⟩; rwa [length_topBits])]
    exact ofBoolListBE_topBits word.2 hbits
  obtain ⟨channel, harrival, -, hchannel, -⟩ := exists_arrival h.doneAdcChannelSync hedge
  rw [harrival, hword, hchannel, ← h.channel]

variable [Scfifo F]

theorem Synced.clock (h : Synced a) (hfed : FedBack p a) (b : Bus) : Synced (a.clock p b) := by
  refine ⟨?_, ?_, ?_⟩
  · simp [Audio.clock, hfed.reset, h.doneAdcChannelSync]
  · simp [Audio.clock, hfed.reset, h.doneDacChannelSync]
  · simp [Audio.clock, hfed.audAdclrck, h.leftRightClk]

theorem clock_serializer (hfed : FedBack p a) (b : Bus) :
    (a.clock p b).audioOutSerializer.serialAudioOutData =
        a.audioOutSerializer.dataOutShiftReg.msb ∧
      (a.clock p b).audioOutSerializer.dataOutShiftReg =
        if a.dacEdges.leftRightClkEdge then (taken a).2
        else if a.bitClockEdges.fallingEdge then
          shiftIn (n := 15) a.audioOutSerializer.dataOutShiftReg false
        else a.audioOutSerializer.dataOutShiftReg := by
  refine ⟨?_, ?_⟩
  · simp [Audio.clock, Serializer.clock, hfed.reset, hfed.clearWriteFifos]
  · cases hrise : a.dacEdges.leftRightClkRisingEdge with
    | true =>
        have hfall := leftRightClkFallingEdge_of_rising hrise
        have hright : a.audioOutSerializer.readRightChannel a.dacEdges = false := by
          rw [Serializer.readRightChannel, hfall, Bool.false_and]
        simp [Audio.clock, Serializer.clock, Edges.leftRightClkEdge, taken, hfed.reset,
          hfed.clearWriteFifos, hrise, hright]
    | false =>
        have hleft : a.audioOutSerializer.readLeftChannel a.dacEdges = false := by
          rw [Serializer.readLeftChannel, hrise, Bool.false_and, Bool.false_and]
        cases hfall : a.dacEdges.leftRightClkFallingEdge with
        | true =>
            simp [Audio.clock, Serializer.clock, Edges.leftRightClkEdge, taken, hfed.reset,
              hfed.clearWriteFifos, hrise, hfall, hleft]
        | false =>
            have hright : a.audioOutSerializer.readRightChannel a.dacEdges = false := by
              rw [Serializer.readRightChannel, hfall, Bool.false_and]
            simp [Audio.clock, Serializer.clock, Edges.leftRightClkEdge, hfed.reset,
              hfed.clearWriteFifos, hrise, hfall, hleft, hright, shiftIn]
            rfl

theorem Synced.edge (h : Synced a) (hfed : FedBack p a)
    (hedge : a.adcEdges.leftRightClkEdge = true) (hlow : a.bitClockEdges.curTestClk = false)
    (b : Bus) : InFlight (taken a) 0 0 false (a.clock p b) := by
  obtain ⟨-, hregister⟩ := clock_serializer hfed b
  rw [h.dacEdges, hedge, if_pos rfl] at hregister
  refine ⟨h.clock hfed b, ?_, ⟨_, counted_edge hfed.not_clear hedge hlow b⟩, hregister,
    fun hquiet => absurd hquiet Bool.false_ne_true⟩
  obtain ⟨channel, -, hrising, -, hother⟩ := exists_arrival h.doneAdcChannelSync hedge
  rw [nextBefore_clock hfed.reset, ← hother, taken, h.dacEdges, hrising]
  cases channel <;> rfl

theorem InFlight.clock (h : InFlight word bits falls settled a) (hfed : FedBack p a)
    (hsettled : a.bitClockEdges.risingEdge = true → settled = true)
    (hedge : a.adcEdges.leftRightClkEdge = false) (b : Bus) :
    ∃ falls', InFlight word (bits + a.bitClockEdges.risingEdge.toNat) falls'
      (!a.bitClockEdges.fallingEdge) (a.clock p b) := by
  obtain ⟨hdata, hregister⟩ := clock_serializer hfed b
  obtain ⟨old, hcounted⟩ := h.counted
  have hdacEdge : a.dacEdges.leftRightClkEdge = false := by rw [h.toSynced.dacEdges, hedge]
  rw [hdacEdge, if_neg Bool.false_ne_true] at hregister
  obtain ⟨falls', hcounted'⟩ := hcounted.clock hfed.not_clear hedge b
  have hbits : (if a.bitClockEdges.risingEdge then @topBits 15 word.2 bits ++ [p.audAdcdat]
      else @topBits 15 word.2 bits) =
        @topBits 15 word.2 (bits + a.bitClockEdges.risingEdge.toNat) := by
    cases hrise : a.bitClockEdges.risingEdge with
    | false => rfl
    | true =>
        have hlength := hcounted.length
        have hlow : a.bitClockEdges.lastTestClk = false := by
          have hboth := a.bitClockEdges.risingEdge_eq.symm.trans hrise
          simpa using (Bool.and_eq_true_iff.mp hboth).1
        rw [hlow, length_topBits] at hlength
        obtain rfl : falls = bits := hlength
        rw [if_pos rfl, hfed.audAdcdat, h.sending (hsettled hrise)]
        exact (topBits_succ word.2 falls).symm
  rw [hbits] at hcounted'
  have hfalls : falls' = falls + a.bitClockEdges.fallingEdge.toNat := by
    have hbefore := hcounted.length
    have hafter := hcounted'.length
    rw [length_topBits] at hbefore hafter
    change falls' + a.bitClockEdges.curTestClk.toNat = _ at hafter
    rw [ClockEdge.risingEdge_eq] at hafter
    rw [ClockEdge.fallingEdge_eq]
    -- A bit that is taken in at a rising edge is shifted out at the falling edge after it.
    cases hlast : a.bitClockEdges.lastTestClk <;> cases hcur : a.bitClockEdges.curTestClk <;>
      simp [hlast, hcur] at hbefore hafter ⊢ <;> omega
  have hnext : word.1 = nextBefore (a.clock p b) := by
    rw [nextBefore_clock hfed.reset, h.channel]
    rcases arrival_cases a with ⟨channel, harrival, -⟩ | ⟨-, -, hsame⟩
    · rw [(leftRightClkEdge_of_arrival harrival).1] at hedge
      exact absurd hedge.symm Bool.false_ne_true
    · exact hsame
  refine ⟨falls', h.toSynced.clock hfed b, hnext, ⟨old, hcounted'⟩, ?_, ?_⟩
  · rw [hregister, h.shifted, hfalls]
    cases hfall : a.bitClockEdges.fallingEdge with
    | true =>
        rw [if_pos rfl, Bool.toNat_true, List.replicate_succ', shiftInAll_append]
        rfl
    | false => rfl
  · intro hquiet
    rw [Bool.not_eq_true'] at hquiet
    rw [hdata, h.shifted, hfalls, hquiet]
    exact msb_shiftInAll_replicate word.2 falls

end InFlight

section Runs

variable [Scfifo F]

theorem arrivals_of_inFlight {word : Channel × BitVec 16} {bits falls : Nat} {settled : Bool}
    {a : Audio F} {inputs : List (Pins × Bus)} (h : InFlight word bits falls settled a)
    (hlooped : Looped settled bits a inputs) : arrivals a inputs = sent word a inputs := by
  induction inputs generalizing word bits falls settled a with
  | nil => rfl
  | cons input rest ih =>
      obtain ⟨p, b⟩ := input
      obtain ⟨hfed, hsettled, hlow, hrest⟩ := hlooped
      rw [arrivals, sent]
      cases hedge : a.adcEdges.leftRightClkEdge with
      | true =>
          rw [hedge, if_pos rfl, Bool.not_true, Bool.false_and] at hrest
          have hnext := h.toSynced.edge hfed hedge (hlow hedge).1 b
          rw [h.arrival hedge (hlow hedge).2, if_pos rfl, ih hnext hrest]
          rfl
      | false =>
          rw [hedge, if_neg Bool.false_ne_true, Bool.not_false, Bool.true_and] at hrest
          obtain ⟨falls', hnext⟩ := h.clock hfed hsettled hedge b
          have harrival : arrival a = none := by
            by_contra hsome
            obtain ⟨x, hx⟩ := Option.ne_none_iff_exists'.mp hsome
            rw [(leftRightClkEdge_of_arrival hx).1] at hedge
            exact Bool.false_ne_true hedge.symm
          rw [harrival, if_neg Bool.false_ne_true, ih hnext hrest]
          rfl

/-- With the data line fed back, from an edge of the channels' clock on, the
samples that arrive are the words that the serializer takes, in order and each
in its own channel. -/
theorem arrivals_eq_sent {a : Audio F} {p : Pins} {b : Bus} {inputs : List (Pins × Bus)}
    (hsynced : Synced a) (hfed : FedBack p a) (hedge : a.adcEdges.leftRightClkEdge = true)
    (hlow : a.bitClockEdges.curTestClk = false) (hlooped : Looped false 0 (a.clock p b) inputs) :
    arrivals (a.clock p b) inputs = sent (taken a) (a.clock p b) inputs :=
  arrivals_of_inFlight (hsynced.edge hfed hedge hlow b) hlooped

end Runs

section OnePair

/-- The codec's two clocks, with the data line fed back. -/
def feedBack (a : Audio LatentFifo) : List (Bool × Bool) → List (Pins × Bus)
  | [] => []
  | (leftRightClk, bitClk) :: rest =>
      let p : Pins := { quietPins leftRightClk with
        audBclk := bitClk
        audDaclrck := leftRightClk
        audAdcdat := a.audioOutSerializer.serialAudioOutData }
      (p, quietBus) :: feedBack (a.clock p quietBus) rest

def half (leftRightClk : Bool) : List (Bool × Bool) :=
  (List.replicate 16 [(leftRightClk, true), (leftRightClk, true), (leftRightClk, false),
    (leftRightClk, false)]).flatten

def pairWritten : Audio LatentFifo :=
  { quietAudio with
    adcLeftRightClockEdges := ⟨true, false⟩
    dacLeftRightClockEdges := ⟨true, false⟩
    doneAdcChannelSync := true
    doneDacChannelSync := true
    audioOutSerializer := { quietAudio.audioOutSerializer with
      leftChannelFifo := ⟨⟨[0x1234], by decide⟩, 0⟩
      rightChannelFifo := ⟨⟨[0xABCD], by decide⟩, 0⟩ } }

def onePair : List (Bool × Bool) :=
  half true ++ [(false, false), (false, false)] ++ half false ++ [(true, false), (true, false)]

def firstPins : Pins := { quietPins true with audDaclrck := true }

theorem arrivals_eq_sent_onePair :
    arrivals (pairWritten.clock firstPins quietBus)
        (feedBack (pairWritten.clock firstPins quietBus) onePair) =
      [(.left, 0x1234), (.right, 0xABCD)] :=
  (arrivals_eq_sent ⟨rfl, rfl, rfl⟩ (by decide) rfl rfl (by decide +kernel)).trans
    (by decide +kernel)

end OnePair

end RockPaperScissors.SerialLoopback
