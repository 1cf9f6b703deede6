import RockPaperScissors.AudioSubsystem

/-!
The clock by clock model refines the model of two FIFOs that samples are pushed
into: the program makes the same accesses with the same answers on both.
-/

namespace RockPaperScissors.AudioRefinement

open RockPaperScissors.Library.BoundedFifo
open RockPaperScissors.Library.LabelledRun
open RockPaperScissors.RecordLoop
open RockPaperScissors.AudioCore
open RockPaperScissors.AudioSubsystem
open RockPaperScissors.SampleNormalization

section Code

/-- The bus signals of a register access. -/
def busOf : Option Event → Bus
  | some (.storeControl value) => ⟨0, true, false, true, value⟩
  | some (.loadFifospace _) => ⟨1, true, true, false, 0⟩
  | some (.loadLeft _) => ⟨2, true, true, false, 0⟩
  | some (.loadRight _) => ⟨3, true, true, false, 0⟩
  | _ => ⟨0, false, false, false, 0⟩

/-- The value of a load is what the bus register holds after the clock edge. -/
def Delivers (readdata : BitVec 32) : Option Event → Prop
  | some (.loadFifospace value) => value = readdata
  | some (.loadLeft value) => value = readdata
  | some (.loadRight value) => value = readdata
  | _ => True

instance (readdata : BitVec 32) (event : Option Event) : Decidable (Delivers readdata event) :=
  match event with
  | none => isTrue trivial
  | some (.loadFifospace _) => inferInstanceAs (Decidable (_ = _))
  | some (.loadLeft _) => inferInstanceAs (Decidable (_ = _))
  | some (.loadRight _) => inferInstanceAs (Decidable (_ = _))
  | some (.loadKey _) => isTrue trivial
  | some (.storeControl _) => isTrue trivial
  | some .analyse => isTrue trivial

/-- One clock: the signals of the codec and the access that the program makes. -/
structure Cycle where
  pins : Pins
  event : Option Event

def Cycle.signals (c : Cycle) : Pins × Bus := (c.pins, busOf c.event)

structure Clocked (F : Type*) where
  cpu : State
  audio : Audio F

variable {F : Type*}

def Clocked.step [Scfifo F] (s : Clocked F) (c : Cycle) : Option (Clocked F) :=
  let audio := s.audio.clock c.pins (busOf c.event)
  if Delivers audio.readdata c.event then
    match c.event with
    | none => some { cpu := s.cpu, audio := audio }
    | some e => (RecordLoop.step s.cpu e).map fun cpu => { cpu := cpu, audio := audio }
  else none

def usesBus : Option Event → Bool
  | some (.loadKey _) => false
  | some .analyse => false
  | event => event.isSome

def countsWords : Option Event → Bool
  | some (.loadFifospace _) => true
  | _ => false

end Code

section Channels

variable {F : Type*}

def fifoOf (core : Core) : Channel → Fifo (BitVec 16) 128
  | .left => core.left
  | .right => core.right

def deserializerFifo (a : Audio F) : Channel → SyncFifo F
  | .left => a.audioInDeserializer.leftChannelFifo
  | .right => a.audioInDeserializer.rightChannelFifo

def readSpace (a : Audio F) : Channel → BitVec 8
  | .left => a.audioInDeserializer.leftAudioFifoReadSpace
  | .right => a.audioInDeserializer.rightAudioFifoReadSpace

/-- The channel's sample is complete, and no edge of the codec's clock was missed. -/
def stores (a : Audio F) : Channel → Bool
  | .left => a.doneAdcChannelSync && a.adcLeftRightClockEdges.fallingEdge
  | .right => a.doneAdcChannelSync && a.adcLeftRightClockEdges.risingEdge

/-- Before the first rising edge of the codec's clock nothing is stored. -/
def nextOf (doneAdcChannelSync leftRightClk : Bool) : Channel :=
  if doneAdcChannelSync && !leftRightClk then .right else .left

def nextBefore (a : Audio F) : Channel :=
  nextOf a.doneAdcChannelSync a.adcLeftRightClockEdges.lastTestClk

def nextAfter (a : Audio F) : Channel :=
  nextOf (a.doneAdcChannelSync || a.adcLeftRightClockEdges.risingEdge)
    a.adcLeftRightClockEdges.curTestClk

def loadOf : Channel → BitVec 32 → Event
  | .left => .loadLeft
  | .right => .loadRight

def reads (b : Bus) : Channel → Bool
  | .left => b.address == 2 && b.chipselect && b.read
  | .right => b.address == 3 && b.chipselect && b.read

variable [ShowAhead F]

/-- A data register is not read while its FIFO holds a word that does not show yet. -/
def Shows (a : Audio F) (b : Bus) : Prop :=
  ∀ channel, reads b channel = true → (deserializerFifo a channel).fifoIsEmpty = true →
    (deserializerFifo a channel).words.used = 0

/-- The core is not reset, no word is read before it shows, and the counts are not
asked for in the clock after another access: the count registers lag by one clock. -/
def Spaced (quiet : Bool) (a : Audio F) : List Cycle → Prop
  | [] => True
  | c :: rest =>
      c.pins.reset = false ∧ Shows a (busOf c.event) ∧ (countsWords c.event = true → quiet = true) ∧
        Spaced (!usesBus c.event) (a.clock c.pins (busOf c.event)) rest

instance (a : Audio F) (b : Bus) : Decidable (Shows a b) :=
  haveI (channel : Channel) : Decidable (reads b channel = true →
      (deserializerFifo a channel).fifoIsEmpty = true →
        (deserializerFifo a channel).words.used = 0) := inferInstance
  decidable_of_iff (_ ∧ _) ⟨fun h channel => Channel.rec h.1 h.2 channel,
    fun h => ⟨h .left, h .right⟩⟩

instance decidableSpaced : (quiet : Bool) → (a : Audio F) → (cycles : List Cycle) →
    Decidable (Spaced quiet a cycles)
  | _, _, [] => isTrue trivial
  | _, a, c :: rest =>
      haveI := decidableSpaced (!usesBus c.event) (a.clock c.pins (busOf c.event)) rest
      inferInstanceAs (Decidable (_ ∧ _ ∧ _ ∧ _))

end Channels

section Relations

variable {F : Type*} [ShowAhead F]

/-- The state of the core that the registers stand for.  While the FIFOs are held
in reset, the deserializer empties them one clock later. -/
structure Abstracts (a : Audio F) (core : Core) : Prop where
  clearReadFifos : core.clearReadFifos = a.clearReadFifos
  fifos : a.clearReadFifos = false →
    ∀ channel, fifoOf core channel = (deserializerFifo a channel).words
  cleared : a.clearReadFifos = true → ∀ channel, fifoOf core channel = .empty
  next : core.next = nextBefore a

def Counts (a : Audio F) (core : Core) : Prop :=
  ∀ channel, readSpace a channel = BitVec.ofNat 8 (fifoOf core channel).used

def deliver : Option (Channel × BitVec 16) → Core → Core
  | none, core => core
  | some (_, sample), core => core.push sample

end Relations

section Fifos

variable {F : Type*} [ShowAhead F]

theorem fifoIsFull_eq (f : SyncFifo F) : f.fifoIsFull = decide (f.words.used = 128) :=
  ShowAhead.full_eq f.syncFifo

theorem space_eq (f : SyncFifo F) : f.space = BitVec.ofNat 8 f.words.used := by
  have hle := f.words.used_le
  have hused : f.wordsUsed = BitVec.ofNat 7 f.words.used := ShowAhead.usedw_eq f.syncFifo
  apply BitVec.eq_of_toNat_eq
  rw [SyncFifo.space, BitVec.toNat_append, hused, fifoIsFull_eq, BitVec.toNat_ofNat,
    BitVec.toNat_ofBool, BitVec.toNat_ofNat]
  rcases Nat.lt_or_ge f.words.used 128 with hlt | hge
  · rw [decide_eq_false hlt.ne, Nat.mod_eq_of_lt (by omega), Nat.mod_eq_of_lt (by omega)]
    simp
  · have hfull : f.words.used = 128 := by omega
    rw [decide_eq_true hfull, hfull]
    rfl

theorem pop_of_used_eq_zero {f : Fifo (BitVec 16) 128} (h : f.used = 0) : f.pop = f := by
  apply Fifo.ext_words
  have hnil : f.words = [] := List.eq_nil_of_length_eq_zero h
  change f.words.tail = f.words
  rw [hnil]
  rfl

theorem words_clear (f : SyncFifo F) (write read : Bool) (sample : BitVec 16) :
    (f.clock true write sample read).words = .empty :=
  ShowAhead.words_clear write sample read f.syncFifo

/-- With the flags in front of its enables, a FIFO reads what shows and writes where
there was room.  Reading an empty FIFO changes nothing. -/
theorem words_clock {f : SyncFifo F} (write : Bool) {read : Bool} (sample : BitVec 16)
    (hshows : read = true → f.fifoIsEmpty = true → f.words.used = 0) :
    (f.clock false (write && !f.fifoIsFull) sample (read && !f.fifoIsEmpty)).words =
      if write && !f.fifoIsFull then (if read then f.words.pop else f.words).push sample
      else if read then f.words.pop else f.words := by
  have hread : (if (read && !f.fifoIsEmpty) = true then f.words.pop else f.words) =
      if read = true then f.words.pop else f.words := by
    cases hflag : f.fifoIsEmpty with
    | false => rw [Bool.not_false, Bool.and_true]
    | true =>
        rw [Bool.not_true, Bool.and_false, if_neg Bool.false_ne_true]
        split
        · next hpop => exact (pop_of_used_eq_zero (hshows hpop hflag)).symm
        · rfl
  rw [← hread]
  refine ShowAhead.words_clock (fun h => ?_) (fun h => ?_) sample
  · exact (Bool.not_eq_true' _).mp (Bool.and_eq_true_iff.mp h).2
  · exact (Bool.not_eq_true' _).mp (Bool.and_eq_true_iff.mp h).2

theorem clock_of_full {f : SyncFifo F} (h : f.words.used = 128) (write : Bool) {read : Bool}
    (sample : BitVec 16) (hshows : read = true → f.fifoIsEmpty = true → f.words.used = 0) :
    (f.clock false (write && !f.fifoIsFull) sample (read && !f.fifoIsEmpty)).words =
      if read then f.words.pop else f.words := by
  rw [words_clock write sample hshows, fifoIsFull_eq, decide_eq_true h, Bool.not_true,
    Bool.and_false, if_neg Bool.false_ne_true]

theorem clock_of_not_full {f : SyncFifo F} (h : f.words.used ≠ 128) (write : Bool) {read : Bool}
    (sample : BitVec 16) (hshows : read = true → f.fifoIsEmpty = true → f.words.used = 0) :
    (f.clock false (write && !f.fifoIsFull) sample (read && !f.fifoIsEmpty)).words =
      if write then (if read then f.words.pop else f.words).push sample
      else if read then f.words.pop else f.words := by
  rw [words_clock write sample hshows, fifoIsFull_eq, decide_eq_false h, Bool.not_false,
    Bool.and_true]

theorem clock_of_unread (f : SyncFifo F) (write : Bool) (sample : BitVec 16) :
    (f.clock false (write && !f.fifoIsFull) sample (false && !f.fifoIsEmpty)).words =
      if write then f.words.push sample else f.words := by
  have hshows : false = true → f.fifoIsEmpty = true → f.words.used = 0 :=
    fun h => absurd h Bool.false_ne_true
  by_cases hfull : f.words.used = 128
  · rw [clock_of_full hfull write sample hshows, Fifo.push_of_full hfull, ite_self]
    rfl
  · rw [clock_of_not_full hfull write sample hshows]
    rfl

end Fifos

section Arrivals

variable {F : Type*} {a : Audio F} {core : Core}

theorem arrival_cases (a : Audio F) :
    (∃ channel, arrival a = some (channel, a.audioInDeserializer.dataInShiftReg) ∧
      (∀ other, stores a other = decide (other = channel)) ∧
      channel = nextBefore a ∧ channel.other = nextAfter a) ∨
    (arrival a = none ∧ (∀ other, stores a other = false) ∧ nextBefore a = nextAfter a) := by
  have hfall := a.adcLeftRightClockEdges.fallingEdge_eq
  have hrise := a.adcLeftRightClockEdges.risingEdge_eq
  cases hsync : a.doneAdcChannelSync with
  | false =>
      refine .inr ⟨by simp [arrival, hsync], ?_, ?_⟩
      · rintro (_ | _) <;> simp [stores, hsync]
      · cases hcur : a.adcLeftRightClockEdges.curTestClk <;>
          simp [nextBefore, nextAfter, nextOf, hsync, hcur, hrise]
  | true =>
      have hbefore : nextBefore a =
          if a.adcLeftRightClockEdges.lastTestClk then .left else .right := by
        cases hlast : a.adcLeftRightClockEdges.lastTestClk <;>
          simp [nextBefore, nextOf, hsync, hlast]
      have hafter : nextAfter a =
          if a.adcLeftRightClockEdges.curTestClk then .left else .right := by
        cases hcur : a.adcLeftRightClockEdges.curTestClk <;>
          simp [nextAfter, nextOf, hsync, hcur]
      rw [hbefore, hafter]
      cases hlast : a.adcLeftRightClockEdges.lastTestClk <;>
        cases hcur : a.adcLeftRightClockEdges.curTestClk <;>
        rw [hlast, hcur] at hfall hrise
      · refine .inr ⟨by simp [arrival, hfall, hrise], ?_, rfl⟩
        rintro (_ | _) <;> simp [stores, hfall, hrise]
      · refine .inl ⟨.right, by simp [arrival, hsync, hfall, hrise], ?_, rfl, rfl⟩
        rintro (_ | _) <;> simp [stores, hsync, hfall, hrise]
      · refine .inl ⟨.left, by simp [arrival, hsync, hfall], ?_, rfl, rfl⟩
        rintro (_ | _) <;> simp [stores, hsync, hfall, hrise]
      · refine .inr ⟨by simp [arrival, hfall, hrise], ?_, rfl⟩
        rintro (_ | _) <;> simp [stores, hfall, hrise]

theorem Abstracts.arrival_next [ShowAhead F] (h : Abstracts a core) {channel : Channel} {sample : BitVec 16}
    (harrival : arrival a = some (channel, sample)) : channel = core.next := by
  rw [h.next]
  rcases arrival_cases a with ⟨channel', heq, -, hchannel, -⟩ | ⟨heq, -, -⟩
  · rw [heq] at harrival
    obtain ⟨rfl, -⟩ := Prod.mk.inj (Option.some.inj harrival)
    exact hchannel
  · rw [heq] at harrival
    exact absurd harrival.symm (Option.some_ne_none _)

theorem push_spec (core : Core) (sample : BitVec 16) :
    (core.push sample).clearReadFifos = core.clearReadFifos ∧
      (core.push sample).next = core.next.other ∧
      ∀ channel, fifoOf (core.push sample) channel =
        if core.clearReadFifos = false ∧ channel = core.next then
          (fifoOf core channel).push sample else fifoOf core channel := by
  cases hclear : core.clearReadFifos <;> cases hnext : core.next <;>
    refine ⟨by simp [Core.push, hclear, hnext], by simp [Core.push, Channel.other, hclear, hnext],
      ?_⟩ <;>
    rintro (_ | _) <;> simp [Core.push, fifoOf, hclear, hnext]

theorem deliver_arrival (hnext : core.next = nextBefore a) :
    (deliver (arrival a) core).clearReadFifos = core.clearReadFifos ∧
      (deliver (arrival a) core).next = nextAfter a ∧
      ∀ channel, fifoOf (deliver (arrival a) core) channel =
        if core.clearReadFifos = false ∧ stores a channel = true then
          (fifoOf core channel).push a.audioInDeserializer.dataInShiftReg
        else fifoOf core channel := by
  rcases arrival_cases a with ⟨channel', heq, hedge, hlast, hcur⟩ | ⟨heq, hedge, hsame⟩
  · obtain ⟨hclear, hother, hfifo⟩ := push_spec core a.audioInDeserializer.dataInShiftReg
    rw [heq]
    have hchannel := hnext.trans hlast.symm
    refine ⟨hclear, hother.trans ?_, fun channel => (hfifo channel).trans ?_⟩
    · rw [hchannel, hcur]
    · rw [hchannel, hedge]
      simp only [decide_eq_true_eq]
  · rw [heq]
    refine ⟨rfl, ?_, fun channel => ?_⟩
    · rw [← hsame]
      exact hnext
    · rw [hedge, if_neg (fun h => absurd h.2 Bool.false_ne_true)]
      rfl

end Arrivals

section Edges

variable {F : Type*} {a : Audio F} {core : Core} {p : Pins}

theorem nextBefore_clock [Scfifo F] (hreset : p.reset = false) (b : Bus) :
    nextBefore (a.clock p b) = nextAfter a := by
  have hsync : (a.clock p b).doneAdcChannelSync =
      (a.doneAdcChannelSync || a.adcLeftRightClockEdges.risingEdge) := by
    cases hrise : a.adcLeftRightClockEdges.risingEdge <;> simp [Audio.clock, hreset, hrise]
  rw [nextBefore, hsync]
  rfl

variable [ShowAhead F]

theorem words_deserializerFifo_clock (hreset : p.reset = false) (b : Bus) (channel : Channel) :
    (deserializerFifo (a.clock p b) channel).words =
      if a.clearReadFifos then .empty
      else ((deserializerFifo a channel).clock false
        (stores a channel && !(deserializerFifo a channel).fifoIsFull)
        a.audioInDeserializer.dataInShiftReg
        (reads b channel && !(deserializerFifo a channel).fifoIsEmpty)).words := by
  cases hclear : a.clearReadFifos <;> cases hsync : a.doneAdcChannelSync <;> cases channel <;>
    simp [deserializerFifo, Audio.clock, Deserializer.clock, Audio.adcEdges, stores, reads,
      words_clear, hreset, hsync, hclear]

/-- What has to be shown for a clock edge that does not write the control register. -/
theorem Abstracts.clock (h : Abstracts a core) (hreset : p.reset = false) {b : Bus}
    (hwrite : b.write = false) {core' : Core} (hclear : core'.clearReadFifos = core.clearReadFifos)
    (hnext : core'.next = nextAfter a)
    (hfifos : a.clearReadFifos = false → ∀ channel,
      fifoOf core' channel = (deserializerFifo (a.clock p b) channel).words)
    (hcleared : a.clearReadFifos = true → ∀ channel, fifoOf core' channel = .empty) :
    Abstracts (a.clock p b) core' := by
  have hcontrol : (a.clock p b).clearReadFifos = a.clearReadFifos := by
    simp [Audio.clock, Audio.controlBit, hreset, hwrite]
  refine ⟨?_, ?_, ?_, hnext.trans (nextBefore_clock hreset b).symm⟩
  · rw [hclear, hcontrol, h.clearReadFifos]
  · rwa [hcontrol]
  · rwa [hcontrol]

theorem Abstracts.fifos_clock (h : Abstracts a core) (hreset : p.reset = false) {b : Bus}
    (hread : ∀ channel, reads b channel = false) (channel : Channel) :
    fifoOf (deliver (arrival a) core) channel = (deserializerFifo (a.clock p b) channel).words := by
  obtain ⟨-, -, hfifo⟩ := deliver_arrival h.next
  rw [hfifo, words_deserializerFifo_clock hreset, h.clearReadFifos, hread]
  cases hclear : a.clearReadFifos with
  | true => rw [if_neg (fun h => absurd h.1 Bool.false_ne_true.symm), h.cleared hclear, if_pos rfl]
  | false =>
      rw [if_neg Bool.false_ne_true, clock_of_unread, h.fifos hclear]
      simp only [true_and]

theorem Abstracts.clock_of_unread (h : Abstracts a core) (hreset : p.reset = false) {b : Bus}
    (hwrite : b.write = false) (hread : ∀ channel, reads b channel = false) :
    Abstracts (a.clock p b) (deliver (arrival a) core) := by
  obtain ⟨hclear, hnext, hfifo⟩ := deliver_arrival h.next
  refine h.clock hreset hwrite hclear hnext (fun _ => h.fifos_clock hreset hread) fun hheld => ?_
  intro channel
  rw [hfifo, h.clearReadFifos, hheld, if_neg (fun h => absurd h.1 Bool.false_ne_true.symm),
    h.cleared hheld]

theorem Abstracts.counts_clock (h : Abstracts a core) (hreset : p.reset = false) (b : Bus) :
    Counts (a.clock p b) core := by
  have hspace : ∀ channel, readSpace (a.clock p b) channel =
      if a.clearReadFifos then 0x00 else (deserializerFifo a channel).space := by
    rintro (_ | _) <;>
      simp [readSpace, Audio.clock, Deserializer.clock, deserializerFifo, hreset]
  intro channel
  rw [hspace]
  cases hclear : a.clearReadFifos with
  | true =>
      rw [h.cleared hclear]
      rfl
  | false =>
      rw [h.fifos hclear]
      exact space_eq _

theorem Abstracts.clock_storeControl (h : Abstracts a core) (hreset : p.reset = false)
    (value : BitVec 32) :
    Abstracts (a.clock p (busOf (some (.storeControl value))))
      ((deliver (arrival a) core).access (.storeControl value)) := by
  have hcontrol : (a.clock p (busOf (some (.storeControl value)))).clearReadFifos =
      value.getLsbD 2 := by
    simp only [Audio.clock, Audio.controlBit, busOf, hreset]
    rfl
  have hread : ∀ channel, reads (busOf (some (.storeControl value))) channel = false := by
    rintro (_ | _) <;> rfl
  obtain ⟨-, hnext, -⟩ := deliver_arrival h.next
  have hnext' := hnext.trans (nextBefore_clock hreset (busOf (some (.storeControl value)))).symm
  cases hvalue : value.getLsbD 2 with
  | true =>
      have haccess : (deliver (arrival a) core).access (.storeControl value) =
          { deliver (arrival a) core with
            left := .empty, right := .empty, clearReadFifos := true } := if_pos hvalue
      rw [haccess]
      refine ⟨(hcontrol.trans hvalue).symm, ?_, ?_, hnext'⟩
      · rw [hcontrol, hvalue]
        exact fun hheld => absurd hheld.symm Bool.false_ne_true
      · rintro - (_ | _) <;> rfl
  | false =>
      have haccess : (deliver (arrival a) core).access (.storeControl value) =
          { deliver (arrival a) core with clearReadFifos := false } :=
        if_neg (by rw [hvalue]; exact Bool.false_ne_true)
      rw [haccess]
      refine ⟨(hcontrol.trans hvalue).symm, ?_, ?_, hnext'⟩
      · intro _ channel
        rw [← h.fifos_clock hreset hread channel]
        cases channel <;> rfl
      · rw [hcontrol, hvalue]
        exact fun hheld => absurd hheld Bool.false_ne_true

theorem access_loadOf (core : Core) (channel : Channel) (value : BitVec 32) :
    (core.access (loadOf channel value)).clearReadFifos = core.clearReadFifos ∧
      (core.access (loadOf channel value)).next = core.next ∧
      ∀ other, fifoOf (core.access (loadOf channel value)) other =
        if other = channel then (fifoOf core other).pop else fifoOf core other := by
  cases channel <;> refine ⟨rfl, rfl, ?_⟩ <;> rintro (_ | _) <;> rfl

/-- A clock edge at which a data register is read.  A full FIFO loses the sample
that arrives at the same edge. -/
theorem Abstracts.clock_loadOf (h : Abstracts a core) (hreset : p.reset = false)
    {channel : Channel} {value : BitVec 32} (hshows : Shows a (busOf (some (loadOf channel value)))) :
    Abstracts (a.clock p (busOf (some (loadOf channel value))))
      (if (fifoOf core channel).used = 128 then
          (deliver (arrival a) core).access (loadOf channel value)
        else deliver (arrival a) (core.access (loadOf channel value))) := by
  have hwrite : (busOf (some (loadOf channel value))).write = false := by cases channel <;> rfl
  have hreads : ∀ other, reads (busOf (some (loadOf channel value))) other =
      decide (other = channel) := by
    cases channel <;> rintro (_ | _) <;> rfl
  have hshown := hreads channel ▸ hshows channel
  split
  · next hfull =>
      obtain ⟨hclear, hnext, hfifo⟩ := deliver_arrival h.next
      obtain ⟨hclear', hnext', hfifo'⟩ :=
        access_loadOf (deliver (arrival a) core) channel value
      refine h.clock hreset hwrite (hclear'.trans hclear) (hnext'.trans hnext)
        (fun hrun other => ?_) fun hheld => ?_
      · have hcore := h.clearReadFifos.trans hrun
        rw [hfifo', hfifo, words_deserializerFifo_clock hreset, hrun, hreads,
          if_neg Bool.false_ne_true]
        rw [h.fifos hrun] at hfull ⊢
        rcases eq_or_ne other channel with rfl | hne
        · rw [if_pos rfl, clock_of_full hfull _ _ hshown, Fifo.push_of_full hfull, ite_self,
            if_pos (by simp)]
        · rw [if_neg hne, decide_eq_false hne, AudioRefinement.clock_of_unread]
          simp only [hcore, true_and]
      · rw [h.cleared hheld] at hfull
        exact absurd hfull (by decide)
  · next hroom =>
      obtain ⟨hclear, hnext, hfifo⟩ := access_loadOf core channel value
      obtain ⟨hclear', hnext', hfifo'⟩ := deliver_arrival (hnext.trans h.next)
      refine h.clock hreset hwrite (hclear'.trans hclear) hnext' (fun hrun other => ?_)
        fun hheld other => ?_
      · have hcore := hclear.trans (h.clearReadFifos.trans hrun)
        rw [hfifo', hfifo, words_deserializerFifo_clock hreset, hrun, hreads,
          if_neg Bool.false_ne_true]
        rw [h.fifos hrun] at hroom ⊢
        rcases eq_or_ne other channel with rfl | hne
        · rw [clock_of_not_full hroom _ _ hshown]
          simp [hcore]
        · rw [if_neg hne, decide_eq_false hne, AudioRefinement.clock_of_unread]
          simp only [hcore, true_and]
      · have hcore := hclear.trans (h.clearReadFifos.trans hheld)
        rw [hfifo', hfifo, hcore, if_neg (fun h => absurd h.1 Bool.false_ne_true.symm),
          h.cleared hheld]
        split
        · exact pop_of_used_eq_zero rfl
        · rfl

end Edges

section Runs

variable {F : Type*}

def pushLabels (arrived : Option (Channel × BitVec 16)) : List Label :=
  arrived.toList.map fun x => .push x.1 x.2

def eventOf : Label → Option Event
  | .cpu e => some e
  | .push _ _ => none

def sampleOf : Label → Option (Channel × BitVec 16)
  | .push channel sample => some (channel, sample)
  | .cpu _ => none

theorem events_pushLabels (arrived : Option (Channel × BitVec 16)) :
    (pushLabels arrived).filterMap eventOf = [] := by
  cases arrived <;> rfl

theorem samples_pushLabels (arrived : Option (Channel × BitVec 16)) :
    (pushLabels arrived).filterMap sampleOf = arrived.toList := by
  cases arrived <;> rfl

theorem run_pushLabels {s : System} {arrived : Option (Channel × BitVec 16)}
    (hnext : ∀ channel sample, arrived = some (channel, sample) → channel = s.core.next) :
    run System.step s (pushLabels arrived) = some { s with core := deliver arrived s.core } := by
  rcases arrived with - | ⟨channel, sample⟩
  · rfl
  · change run System.step s [.push channel sample] = _
    rw [run_cons, System.step, if_pos (hnext channel sample rfl)]
    rfl

theorem run_cpu {s : System} {e : Event} {cpu : State} (hanswers : s.core.Answers e)
    (hstep : RecordLoop.step s.cpu e = some cpu) :
    run System.step s [.cpu e] = some { cpu := cpu, core := s.core.access e } := by
  rw [run_cons, System.step, if_pos hanswers, hstep]
  rfl

structure Follows (s t : Clocked F) (event : Option Event) (core core' : Core)
    (arrived arrived' : Option (Channel × BitVec 16)) (labels : List Label) : Prop where
  run : run System.step { cpu := s.cpu, core := core } labels =
    some { cpu := t.cpu, core := core' }
  events : labels.filterMap eventOf = event.toList
  samples : labels.filterMap sampleOf ++ arrived'.toList =
    arrived.toList ++ (arrival s.audio).toList

variable {s t : Clocked F} {c : Cycle} {core : Core} {arrived : Option (Channel × BitVec 16)}
variable {quiet : Bool}

theorem events_load (labels : List Label) (e : Event) (arrived : Option (Channel × BitVec 16))
    (h : labels = pushLabels arrived ++ [.cpu e] ∨ labels = .cpu e :: pushLabels arrived) :
    labels.filterMap eventOf = [e] ∧ labels.filterMap sampleOf = arrived.toList := by
  rcases h with rfl | rfl
  · rw [List.filterMap_append, List.filterMap_append, events_pushLabels, samples_pushLabels]
    exact ⟨rfl, List.append_nil _⟩
  · rw [List.filterMap_cons, List.filterMap_cons, events_pushLabels, samples_pushLabels]
    exact ⟨rfl, rfl⟩

theorem follows_of_run {e : Event} {core' : Core} {labels : List Label}
    (harrived : ∀ channel sample, arrived = some (channel, sample) → channel = core.next)
    (hevent : c.event = some e)
    (hlabels : labels = pushLabels (arrival s.audio) ++ [.cpu e] ∨
      labels = .cpu e :: pushLabels (arrival s.audio))
    (hrun : run System.step { cpu := s.cpu, core := deliver arrived core } labels =
      some { cpu := t.cpu, core := core' }) :
    Follows s t c.event core core' arrived none (pushLabels arrived ++ labels) := by
  obtain ⟨hevents, hsamples⟩ := events_load labels e (arrival s.audio) hlabels
  have hpush := run_pushLabels (s := { cpu := s.cpu, core := core }) harrived
  refine ⟨(run_append_of_eq hpush _).trans hrun, ?_, ?_⟩
  · rw [List.filterMap_append, events_pushLabels, hevents, hevent]
    rfl
  · rw [List.filterMap_append, samples_pushLabels, hsamples]
    exact List.append_nil _

variable [ShowAhead F]

/-- The core is one arrival behind the registers, as the count registers are. -/
structure Lags (a : Audio F) (core : Core) (arrived : Option (Channel × BitVec 16))
    (quiet : Bool) : Prop where
  abstracts : Abstracts a (deliver arrived core)
  next : ∀ channel sample, arrived = some (channel, sample) → channel = core.next
  counts : quiet = true → Counts a core

theorem readSpaces_of_readdata (w x y z : BitVec 8) :
    (w ++ x ++ y ++ z).setWidth 16 = y ++ z := by
  rw [BitVec.setWidth_append]
  simp only [Nat.reduceLeDiff, dite_false, Nat.reduceSub]
  rw [BitVec.setWidth_append]
  simp

theorem step_clocked (h : s.step c = some t) :
    t.audio = s.audio.clock c.pins (busOf c.event) ∧ Delivers t.audio.readdata c.event ∧
      (c.event = none → t.cpu = s.cpu) ∧
      ∀ e, c.event = some e → RecordLoop.step s.cpu e = some t.cpu := by
  obtain ⟨hdelivers, h⟩ := Option.ite_none_right_eq_some.mp h
  cases hevent : c.event with
  | none =>
      rw [hevent] at h hdelivers
      obtain rfl := Option.some.inj h
      exact ⟨rfl, hdelivers, fun _ => rfl, fun e he => absurd he.symm (Option.some_ne_none e)⟩
  | some e =>
      rw [hevent] at h hdelivers
      obtain ⟨cpu, hstep, rfl⟩ := Option.map_eq_some_iff.mp h
      refine ⟨rfl, hdelivers, fun hnone => absurd hnone (Option.some_ne_none e), fun e' he => ?_⟩
      obtain rfl := Option.some.inj he
      exact hstep

theorem busOf_of_not_usesBus {event : Option Event} (h : usesBus event = false) :
    busOf event = ⟨0, false, false, false, 0⟩ := by
  rcases event with - | e
  · rfl
  · cases e with
    | loadKey | analyse => rfl
    | storeControl | loadFifospace | loadLeft | loadRight =>
        exact absurd h.symm Bool.false_ne_true

theorem access_of_not_usesBus {e : Event} (h : usesBus (some e) = false) (core : Core) :
    core.Answers e ∧ core.access e = core := by
  cases e with
  | loadKey | analyse => exact ⟨trivial, rfl⟩
  | storeControl | loadFifospace | loadLeft | loadRight =>
      exact absurd h.symm Bool.false_ne_true

theorem Lags.idle (h : Lags s.audio core arrived quiet) (hreset : c.pins.reset = false)
    (hbus : usesBus c.event = false) (hstep : s.step c = some t) :
    ∃ labels, Follows s t c.event core (deliver arrived core) arrived (arrival s.audio) labels ∧
      Lags t.audio (deliver arrived core) (arrival s.audio) true := by
  obtain ⟨haudio, -, hnone, hsome⟩ := step_clocked hstep
  have hlags : Lags t.audio (deliver arrived core) (arrival s.audio) true := by
    rw [haudio, busOf_of_not_usesBus hbus]
    exact ⟨h.abstracts.clock_of_unread hreset rfl (by rintro (_ | _) <;> rfl),
      fun _ _ => h.abstracts.arrival_next, fun _ => h.abstracts.counts_clock hreset _⟩
  have hpush := run_pushLabels (s := { cpu := s.cpu, core := core }) h.next
  cases hevent : c.event with
  | none =>
      refine ⟨pushLabels arrived, ⟨?_, events_pushLabels arrived, ?_⟩, hlags⟩
      · rw [hpush, hnone hevent]
      · rw [samples_pushLabels]
  | some e =>
      rw [hevent] at hbus
      obtain ⟨hanswers, haccess⟩ := access_of_not_usesBus hbus (deliver arrived core)
      have hcpu := run_cpu (s := { cpu := s.cpu, core := deliver arrived core }) hanswers
        (hsome e hevent)
      refine ⟨pushLabels arrived ++ [.cpu e], ⟨?_, ?_, ?_⟩, hlags⟩
      · exact ((run_append_of_eq hpush _).trans hcpu).trans (by rw [haccess])
      · rw [List.filterMap_append, events_pushLabels]
        rfl
      · rw [List.filterMap_append, samples_pushLabels, List.append_assoc]
        rfl

/-- A clock at which the counts are asked for: the answer is that of the clock
before. -/
theorem Lags.loadFifospace (h : Lags s.audio core arrived true) (hreset : c.pins.reset = false)
    {value : BitVec 32} (hevent : c.event = some (.loadFifospace value))
    (hstep : s.step c = some t) :
    ∃ labels, Follows s t c.event core (deliver arrived core) arrived (arrival s.audio) labels ∧
      Lags t.audio (deliver arrived core) (arrival s.audio) false := by
  obtain ⟨haudio, hvalue, -, hsome⟩ := step_clocked hstep
  have hlags : Lags t.audio (deliver arrived core) (arrival s.audio) false := by
    rw [haudio, hevent]
    exact ⟨h.abstracts.clock_of_unread hreset rfl (by rintro (_ | _) <;> rfl),
      fun _ _ => h.abstracts.arrival_next, fun hquiet => absurd hquiet Bool.false_ne_true⟩
  -- The count registers are one clock behind, as the core is: it answers before the push.
  have hanswers : core.Answers (.loadFifospace value) := by
    rw [hevent] at hvalue haudio
    have hcounts := h.counts rfl
    change value.setWidth 16 = core.readAvailable
    have hread : t.audio.readdata = s.audio.readRegister 1 := by
      rw [haudio]
      simp [Audio.clock, busOf, hreset]
    have hregister : value = t.audio.readdata := hvalue
    rw [hregister, hread, Audio.readRegister, if_neg (by decide), if_pos rfl,
      readSpaces_of_readdata]
    exact congrArg₂ (· ++ ·) (hcounts .left) (hcounts .right)
  have hcpu := run_cpu (s := { cpu := s.cpu, core := core }) hanswers (hsome _ hevent)
  have hpush := run_pushLabels (s := { cpu := t.cpu, core := core }) h.next
  refine ⟨.cpu (.loadFifospace value) :: pushLabels arrived, ⟨?_, ?_, ?_⟩, hlags⟩
  · exact (run_append_of_eq hcpu _).trans hpush
  · rw [List.filterMap_cons, events_pushLabels, hevent]
    rfl
  · rw [List.filterMap_cons, samples_pushLabels]
    rfl

theorem answers_loadOf {channel : Channel} {value : BitVec 32} :
    core.Answers (loadOf channel value) ↔
      ∀ sample ∈ (fifoOf core channel).first, value = readdata sample := by
  cases channel <;> rfl

/-- The data register shows the first word of its FIFO. -/
theorem Abstracts.answers_loadOf {a : Audio F} {p : Pins} {channel : Channel} {value : BitVec 32}
    (h : Abstracts a core) (hreset : p.reset = false)
    (hshows : Shows a (busOf (some (loadOf channel value))))
    (hvalue : value = (a.clock p (busOf (some (loadOf channel value)))).readdata) :
    ∀ sample ∈ (fifoOf core channel).first, value = readdata sample := by
  intro sample hsample
  have hregister : value = readdata (deserializerFifo a channel).readData := by
    refine hvalue.trans ?_
    cases channel <;> simp [Audio.clock, busOf, loadOf, hreset, Audio.readRegister, deserializerFifo]
  cases hclear : a.clearReadFifos with
  | true =>
      rw [h.cleared hclear] at hsample
      exact absurd hsample.symm (Option.some_ne_none sample)
  | false =>
      rw [h.fifos hclear] at hsample
      cases hempty : (deserializerFifo a channel).fifoIsEmpty with
      | false =>
          have hshown : (deserializerFifo a channel).words.first =
            some (deserializerFifo a channel).readData := ShowAhead.first_eq hempty
          rw [hregister, Option.some.inj (hshown.symm.trans hsample)]
      | true =>
          have hused := hshows channel (by cases channel <;> rfl) hempty
          have hnone : (deserializerFifo a channel).words.first = none :=
            List.head?_eq_none_iff.mpr (List.eq_nil_of_length_eq_zero hused)
          exact absurd (hsample.symm.trans hnone) (Option.some_ne_none sample)

theorem fifoOf_deliver_of_full {a : Audio F} {channel : Channel} (h : Abstracts a core)
    (hfull : (fifoOf core channel).used = 128) :
    fifoOf (deliver (arrival a) core) channel = fifoOf core channel := by
  obtain ⟨-, -, hfifo⟩ := deliver_arrival h.next
  rw [hfifo, Fifo.push_of_full hfull, ite_self]

theorem Abstracts.lags {a : Audio F} (h : Abstracts a core) : Lags a core none false :=
  ⟨h, fun _ _ hnone => absurd hnone.symm (Option.some_ne_none _),
    fun hquiet => absurd hquiet Bool.false_ne_true⟩

theorem Lags.load (h : Lags s.audio core arrived quiet) (hreset : c.pins.reset = false)
    {channel : Channel} {value : BitVec 32} (hevent : c.event = some (loadOf channel value))
    (hshows : Shows s.audio (busOf c.event)) (hstep : s.step c = some t) :
    ∃ labels core', Follows s t c.event core core' arrived none labels ∧
      Lags t.audio core' none false := by
  obtain ⟨haudio, hvalue, -, hsome⟩ := step_clocked hstep
  have hfirst : ∀ sample ∈ (fifoOf (deliver arrived core) channel).first,
      value = readdata sample := by
    rw [haudio, hevent] at hvalue
    refine h.abstracts.answers_loadOf hreset (p := c.pins) (hevent ▸ hshows) ?_
    cases channel <;> exact hvalue
  have habstracts := h.abstracts.clock_loadOf hreset (hevent ▸ hshows) (p := c.pins)
  rw [← hevent, ← haudio] at habstracts
  have hmoves := hsome _ hevent
  generalize hdelivered : deliver arrived core = delivered at hfirst habstracts
  -- A full FIFO drops the sample of this clock: it arrives before the read, any other after it.
  by_cases hfull : (fifoOf delivered channel).used = 128
  · rw [if_pos hfull] at habstracts
    have hanswers : (deliver (arrival s.audio) delivered).Answers (loadOf channel value) := by
      rw [answers_loadOf, fifoOf_deliver_of_full (hdelivered ▸ h.abstracts) hfull]
      exact hfirst
    refine ⟨_, _, follows_of_run h.next hevent (.inl rfl) ?_, habstracts.lags⟩
    have hpush := run_pushLabels (s := { cpu := s.cpu, core := delivered })
      (fun _ _ => (hdelivered ▸ h.abstracts).arrival_next)
    rw [hdelivered]
    exact (run_append_of_eq hpush _).trans
      (run_cpu (s := { cpu := s.cpu, core := deliver (arrival s.audio) delivered }) hanswers hmoves)
  · rw [if_neg hfull] at habstracts
    have hanswers : delivered.Answers (loadOf channel value) := answers_loadOf.mpr hfirst
    refine ⟨_, _, follows_of_run h.next hevent (.inr rfl) ?_, habstracts.lags⟩
    have hcpu := run_cpu (s := { cpu := s.cpu, core := delivered }) hanswers hmoves
    rw [hdelivered]
    refine (run_append_of_eq hcpu _).trans
      (run_pushLabels (s := { cpu := t.cpu, core := delivered.access (loadOf channel value) }) ?_)
    intro arriving sample harrival
    rw [(access_loadOf delivered channel value).2.1]
    exact (hdelivered ▸ h.abstracts).arrival_next harrival

theorem Lags.storeControl (h : Lags s.audio core arrived quiet) (hreset : c.pins.reset = false)
    {value : BitVec 32} (hevent : c.event = some (.storeControl value))
    (hstep : s.step c = some t) :
    ∃ labels core', Follows s t c.event core core' arrived none labels ∧
      Lags t.audio core' none false := by
  obtain ⟨haudio, -, -, hsome⟩ := step_clocked hstep
  have habstracts := h.abstracts.clock_storeControl hreset value (p := c.pins)
  rw [← hevent, ← haudio] at habstracts
  refine ⟨_, _, follows_of_run h.next hevent (.inl rfl) ?_, habstracts.lags⟩
  have hpush := run_pushLabels (s := { cpu := s.cpu, core := deliver arrived core })
    (fun _ _ => h.abstracts.arrival_next)
  refine (run_append_of_eq hpush _).trans ?_
  exact run_cpu (s := { cpu := s.cpu, core := deliver (arrival s.audio) (deliver arrived core) })
    trivial (hsome _ hevent)

/-- One clock of the registers is a run of the core. -/
theorem Lags.step (h : Lags s.audio core arrived quiet) (hreset : c.pins.reset = false)
    (hshows : Shows s.audio (busOf c.event)) (hquiet : countsWords c.event = true → quiet = true)
    (hstep : s.step c = some t) :
    ∃ labels core' arrived', Follows s t c.event core core' arrived arrived' labels ∧
      Lags t.audio core' arrived' (!usesBus c.event) := by
  cases hbus : usesBus c.event with
  | false =>
      obtain ⟨labels, hfollows, hlags⟩ := h.idle hreset hbus hstep
      exact ⟨labels, _, _, hfollows, hlags⟩
  | true =>
      obtain ⟨e, hevent⟩ : ∃ e, c.event = some e := by
        cases hevent : c.event with
        | none => rw [hevent] at hbus; exact absurd hbus Bool.false_ne_true
        | some e => exact ⟨e, rfl⟩
      cases e with
      | loadKey | analyse => rw [hevent] at hbus; exact absurd hbus Bool.false_ne_true
      | storeControl value =>
          obtain ⟨labels, core', hfollows, hlags⟩ := h.storeControl hreset hevent hstep
          exact ⟨labels, core', _, hfollows, hlags⟩
      | loadFifospace value =>
          obtain rfl := hquiet (by rw [hevent]; rfl)
          obtain ⟨labels, hfollows, hlags⟩ := h.loadFifospace hreset hevent hstep
          exact ⟨labels, _, _, hfollows, hlags⟩
      | loadLeft value =>
          obtain ⟨labels, core', hfollows, hlags⟩ :=
            h.load hreset (show c.event = some (loadOf .left value) from hevent) hshows hstep
          exact ⟨labels, core', _, hfollows, hlags⟩
      | loadRight value =>
          obtain ⟨labels, core', hfollows, hlags⟩ :=
            h.load hreset (show c.event = some (loadOf .right value) from hevent) hshows hstep
          exact ⟨labels, core', _, hfollows, hlags⟩

/-- A run of the registers is a run of the core, with the same accesses and the
samples that the deserializer stored. -/
theorem run_of_lags (h : Lags s.audio core arrived quiet) {cycles : List Cycle}
    (hspaced : Spaced quiet s.audio cycles) (hrun : run Clocked.step s cycles = some t) :
    ∃ labels core', run System.step { cpu := s.cpu, core := core } labels =
        some { cpu := t.cpu, core := core' } ∧
      Abstracts t.audio core' ∧
      labels.filterMap eventOf = cycles.filterMap (·.event) ∧
      labels.filterMap sampleOf = arrived.toList ++ arrivals s.audio (cycles.map Cycle.signals) := by
  induction cycles generalizing s core arrived quiet with
  | nil =>
      obtain rfl := Option.some.inj hrun
      refine ⟨pushLabels arrived, _, run_pushLabels (s := { cpu := s.cpu, core := core }) h.next,
        h.abstracts, events_pushLabels arrived, ?_⟩
      rw [samples_pushLabels, List.map_nil, arrivals, List.append_nil]
  | cons c rest ih =>
      obtain ⟨hreset, hshows, hquiet, hrest⟩ := hspaced
      obtain ⟨middle, hstep, hrun⟩ := run_cons_eq_some.mp hrun
      obtain ⟨front, middleCore, arrived', hfollows, hlags⟩ := h.step hreset hshows hquiet hstep
      rw [← (step_clocked hstep).1] at hrest
      obtain ⟨back, core', hback, habstracts, hevents, hsamples⟩ := ih hlags hrest hrun
      refine ⟨front ++ back, core', (run_append_of_eq hfollows.run back).trans hback, habstracts,
        ?_, ?_⟩
      · rw [List.filterMap_append, hfollows.events, hevents]
        cases hevent : c.event <;> simp [hevent]
      · rw [List.filterMap_append, hsamples, ← List.append_assoc, hfollows.samples,
          (step_clocked hstep).1, List.map_cons, Cycle.signals, arrivals, List.append_assoc]

theorem abstracts_reset {a : Audio F} {p : Pins} (hreset : p.reset = true) (b : Bus) :
    Abstracts (a.clock p b)
      { left := .empty, right := .empty, next := .left, clearReadFifos := false } := by
  have hclear : (a.clock p b).clearReadFifos = false := by
    simp [Audio.clock, Audio.controlBit, hreset]
  refine ⟨hclear.symm, fun _ => ?_, fun hheld => ?_, ?_⟩
  · rintro (_ | _) <;>
      simp [fifoOf, deserializerFifo, Audio.clock, Deserializer.clock, words_clear, hreset]
  · rw [hclear] at hheld
    exact absurd hheld Bool.false_ne_true
  · simp [nextBefore, nextOf, Audio.clock, hreset]

theorem counts_reset {a : Audio F} {p : Pins} (hreset : p.reset = true) (b : Bus) :
    Counts (a.clock p b)
      { left := .empty, right := .empty, next := .left, clearReadFifos := false } := by
  rintro (_ | _) <;>
    simp [readSpace, fifoOf, Audio.clock, Deserializer.clock, hreset]

/-- From reset on, what the registers do is a run of the core with two FIFOs:
the same accesses, in order, get the same answers, and the samples that are
pushed are those of the deserializer. -/
theorem run_clocked {cpu : State} {a : Audio F} {p : Pins} {b : Bus} {cycles : List Cycle}
    {t : Clocked F} (hreset : p.reset = true) (hspaced : Spaced true (a.clock p b) cycles)
    (hrun : run Clocked.step { cpu := cpu, audio := a.clock p b } cycles = some t) :
    ∃ labels core',
      run System.step { cpu := cpu, core := {
          left := .empty, right := .empty, next := .left, clearReadFifos := false } } labels =
        some { cpu := t.cpu, core := core' } ∧
      Abstracts t.audio core' ∧
      labels.filterMap eventOf = cycles.filterMap (·.event) ∧
      labels.filterMap sampleOf = arrivals (a.clock p b) (cycles.map Cycle.signals) := by
  have hlags : Lags (a.clock p b)
      { left := .empty, right := .empty, next := .left, clearReadFifos := false } none true :=
    ⟨abstracts_reset hreset b, fun _ _ hnone => absurd hnone.symm (Option.some_ne_none _),
      fun _ => counts_reset hreset b⟩
  exact run_of_lags hlags hspaced hrun

end Runs

section KeyPress

/-- A FIFO in which a word shows two clocks after it was written to the empty FIFO. -/
structure LatentFifo where
  stored : Fifo (BitVec 16) 128
  latency : Nat

def LatentFifo.clock (sclr wrreq : Bool) (data : BitVec 16) (rdreq : Bool) (f : LatentFifo) :
    LatentFifo :=
  let left := if rdreq then f.stored.pop else f.stored
  if sclr then ⟨.empty, 0⟩
  else if wrreq then ⟨left.push data, if left.used = 0 then 2 else f.latency - 1⟩
  else ⟨left, f.latency - 1⟩

instance : ShowAhead LatentFifo where
  empty f := decide (f.latency ≠ 0 ∨ f.stored.used = 0)
  full f := decide (f.stored.used = 128)
  usedw f := BitVec.ofNat 7 f.stored.used
  q f := f.stored.first.getD 0
  clock := LatentFifo.clock
  words f := f.stored
  words_clear _ _ _ _ := rfl
  words_clock _ _ _ := by
    rw [LatentFifo.clock, if_neg Bool.false_ne_true]
    split <;> rfl
  full_eq _ := rfl
  usedw_eq _ := rfl
  first_eq {f} h := by
    cases hwords : f.stored.words with
    | nil => exact absurd (.inr (congrArg List.length hwords)) (of_decide_eq_false h)
    | cons sample rest => rw [Fifo.first, hwords, List.head?_cons, Option.getD_some]

def quietPins (leftRightClk : Bool) : Pins where
  reset := false
  audAdcdat := false
  audAdclrck := leftRightClk
  audBclk := false
  audDaclrck := false

def quietBus : Bus := busOf none

def noWords : SyncFifo LatentFifo := ⟨⟨.empty, 0⟩⟩

def quietAudio : Audio LatentFifo where
  bitClockEdges := ⟨false, false⟩
  adcLeftRightClockEdges := ⟨false, false⟩
  dacLeftRightClockEdges := ⟨false, false⟩
  doneAdcChannelSync := false
  readInterruptEn := false
  clearReadFifos := false
  readInterrupt := false
  doneDacChannelSync := false
  writeInterruptEn := false
  clearWriteFifos := false
  writeInterrupt := false
  irq := false
  readdata := 0
  audioInDeserializer := ⟨⟨0, false⟩, 0, noWords, noWords, 0, 0⟩
  audioOutSerializer := ⟨noWords, noWords, 0, 0, false, 0, false⟩

def powered (cpu : State) : Clocked LatentFifo where
  cpu := cpu
  audio := quietAudio.clock { quietPins false with reset := true } quietBus

def quietPair : List Cycle :=
  [⟨quietPins false, none⟩, ⟨quietPins false, none⟩, ⟨quietPins true, none⟩,
    ⟨quietPins true, none⟩]

/-- KEY0 is pressed, 97 pairs of samples arrive, and one of them is read. -/
def keyPress : List Cycle :=
  [⟨quietPins true, some (.loadKey 0x1)⟩, ⟨quietPins true, some (.loadKey 0)⟩,
    ⟨quietPins true, some (.storeControl 0x4)⟩, ⟨quietPins true, some (.storeControl 0x0)⟩] ++
  (List.replicate 97 quietPair).flatten ++
  [⟨quietPins true, none⟩, ⟨quietPins true, some (.loadFifospace 0x80806161)⟩,
    ⟨quietPins true, some (.loadLeft 0x0)⟩, ⟨quietPins true, some (.loadRight 0x0)⟩,
    ⟨quietPins true, none⟩, ⟨quietPins true, some (.loadFifospace 0x80806060)⟩]

theorem run_clocked_keyPress :
    ∃ t labels core',
      run System.step { cpu := quietStart, core := {
          left := .empty, right := .empty, next := .left, clearReadFifos := false } } labels =
        some { cpu := t, core := core' } ∧
      labels.filterMap eventOf = [.loadKey 0x1, .loadKey 0, .storeControl 0x4, .storeControl 0x0,
        .loadFifospace 0x80806161, .loadLeft 0x0, .loadRight 0x0, .loadFifospace 0x80806060] ∧
      labels.filterMap sampleOf = (List.replicate 97 [(.left, 0), (.right, 0)]).flatten := by
  have hspaced : Spaced true (powered quietStart).audio keyPress := by decide +kernel
  obtain ⟨t, hrun⟩ : ∃ t, run Clocked.step (powered quietStart) keyPress = some t :=
    Option.isSome_iff_exists.mp (by decide +kernel)
  have hsamples : arrivals (powered quietStart).audio (keyPress.map Cycle.signals) =
      (List.replicate 97 [(.left, 0), (.right, 0)]).flatten := by
    decide +kernel
  rw [← hsamples]
  obtain ⟨labels, core', hlabels, -, hevents, hpushed⟩ := run_clocked rfl hspaced hrun
  exact ⟨t.cpu, labels, core', hlabels, hevents.trans (by decide +kernel), hpushed⟩

end KeyPress

end RockPaperScissors.AudioRefinement
