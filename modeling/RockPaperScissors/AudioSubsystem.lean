import RockPaperScissors.AudioCore

/-!
The audio core clock by clock: the edge detectors on the codec's clocks, the
deserializer, the serializer and the registers on the bus.
-/

namespace RockPaperScissors.AudioSubsystem

open RockPaperScissors.Library.BoundedFifo
open RockPaperScissors.AudioCore
open RockPaperScissors.SampleNormalization

section ClockEdge

/-- `altera_up_clock_edge`. -/
structure ClockEdge where
  curTestClk : Bool
  lastTestClk : Bool

namespace ClockEdge

def foundEdge (e : ClockEdge) : Bool := e.lastTestClk ^^ e.curTestClk

def risingEdge (e : ClockEdge) : Bool := e.foundEdge && e.curTestClk

def fallingEdge (e : ClockEdge) : Bool := e.foundEdge && e.lastTestClk

def clock (testClk : Bool) (e : ClockEdge) : ClockEdge where
  curTestClk := testClk
  lastTestClk := e.curTestClk

theorem risingEdge_eq (e : ClockEdge) :
    e.risingEdge = (!e.lastTestClk && e.curTestClk) := by
  cases hlast : e.lastTestClk <;> cases hcur : e.curTestClk <;>
    simp [risingEdge, foundEdge, hlast, hcur]

theorem fallingEdge_eq (e : ClockEdge) :
    e.fallingEdge = (e.lastTestClk && !e.curTestClk) := by
  cases hlast : e.lastTestClk <;> cases hcur : e.curTestClk <;>
    simp [fallingEdge, foundEdge, hlast, hcur]

end ClockEdge

structure Edges where
  bitClkRisingEdge : Bool
  bitClkFallingEdge : Bool
  leftRightClkRisingEdge : Bool
  leftRightClkFallingEdge : Bool

def Edges.leftRightClkEdge (e : Edges) : Bool :=
  e.leftRightClkRisingEdge || e.leftRightClkFallingEdge

end ClockEdge

section SyncFifo

/-- Altera's `scfifo` by its ports, for 128 words of 16 bits. -/
class Scfifo (F : Type*) where
  empty : F → Bool
  full : F → Bool
  usedw : F → BitVec 7
  q : F → BitVec 16
  clock (sclr wrreq : Bool) (data : BitVec 16) (rdreq : Bool) (f : F) : F

/-- What `scfifo` promises in show-ahead mode and without its own checks: a word
is written only while it is not full and read only while it is not empty.  A word
written to an empty FIFO is counted at once, but `q` and `empty` may lag. -/
class ShowAhead (F : Type*) extends Scfifo F where
  words : F → Fifo (BitVec 16) 128
  words_clear (wrreq : Bool) (data : BitVec 16) (rdreq : Bool) (f : F) :
    words (clock true wrreq data rdreq f) = .empty
  words_clock {wrreq rdreq : Bool} {f : F} (hwrite : wrreq = true → full f = false)
    (hread : rdreq = true → empty f = false) (data : BitVec 16) :
    words (clock false wrreq data rdreq f) =
      if wrreq then (if rdreq then (words f).pop else words f).push data
      else if rdreq then (words f).pop else words f
  full_eq (f : F) : full f = decide ((words f).used = 128)
  usedw_eq (f : F) : usedw f = BitVec.ofNat 7 (words f).used
  first_eq {f : F} (h : empty f = false) : (words f).first = some (q f)

/-- `altera_up_sync_fifo`. -/
structure SyncFifo (F : Type*) where
  syncFifo : F

namespace SyncFifo

variable {F : Type*} [Scfifo F]

def fifoIsEmpty (f : SyncFifo F) : Bool := Scfifo.empty f.syncFifo

def fifoIsFull (f : SyncFifo F) : Bool := Scfifo.full f.syncFifo

/-- The 7 bits of the count: 0 also when the FIFO is full. -/
def wordsUsed (f : SyncFifo F) : BitVec 7 := Scfifo.usedw f.syncFifo

def readData (f : SyncFifo F) : BitVec 16 := Scfifo.q f.syncFifo

def clock (reset writeEn : Bool) (writeData : BitVec 16) (readEn : Bool) (f : SyncFifo F) :
    SyncFifo F where
  syncFifo := Scfifo.clock reset writeEn writeData readEn f.syncFifo

def space (f : SyncFifo F) : BitVec 8 := BitVec.ofBool f.fifoIsFull ++ f.wordsUsed

def words {F : Type*} [ShowAhead F] (f : SyncFifo F) : Fifo (BitVec 16) 128 :=
  ShowAhead.words f.syncFifo

end SyncFifo

end SyncFifo

section Deserializer

/-- `altera_up_audio_bit_counter`. -/
structure BitCounter where
  bitCounter : BitVec 5
  counting : Bool

def BitCounter.clock (reset : Bool) (e : Edges) (c : BitCounter) : BitCounter where
  bitCounter :=
    if reset then 0x00
    else if e.leftRightClkEdge then 0x0F
    else if e.bitClkFallingEdge && c.bitCounter != 0x00 then c.bitCounter - 0x01
    else c.bitCounter
  counting :=
    if reset then false
    else if e.leftRightClkEdge then true
    else if e.bitClkFallingEdge && c.bitCounter == 0x00 then false
    else c.counting

/-- `altera_up_audio_in_deserializer`. -/
structure Deserializer (F : Type*) where
  audioOutBitCounter : BitCounter
  dataInShiftReg : BitVec 16
  leftChannelFifo : SyncFifo F
  rightChannelFifo : SyncFifo F
  leftAudioFifoReadSpace : BitVec 8
  rightAudioFifoReadSpace : BitVec 8

def Deserializer.clock {F : Type*} [Scfifo F] (reset : Bool) (e : Edges)
    (doneChannelSync serialAudioInData : Bool)
    (readLeftAudioDataEn readRightAudioDataEn : Bool) (d : Deserializer F) : Deserializer F where
  audioOutBitCounter := d.audioOutBitCounter.clock reset e
  dataInShiftReg :=
    if reset then 0
    else if e.bitClkRisingEdge && d.audioOutBitCounter.counting then
      d.dataInShiftReg.extractLsb' 0 15 ++ BitVec.ofBool serialAudioInData
    else d.dataInShiftReg
  leftChannelFifo := d.leftChannelFifo.clock reset
    (e.leftRightClkFallingEdge && !d.leftChannelFifo.fifoIsFull && doneChannelSync)
    d.dataInShiftReg (readLeftAudioDataEn && !d.leftChannelFifo.fifoIsEmpty)
  rightChannelFifo := d.rightChannelFifo.clock reset
    (e.leftRightClkRisingEdge && !d.rightChannelFifo.fifoIsFull && doneChannelSync)
    d.dataInShiftReg (readRightAudioDataEn && !d.rightChannelFifo.fifoIsEmpty)
  leftAudioFifoReadSpace := if reset then 0x00 else d.leftChannelFifo.space
  rightAudioFifoReadSpace := if reset then 0x00 else d.rightChannelFifo.space

end Deserializer

section Serializer

/-- `altera_up_audio_out_serializer`. -/
structure Serializer (F : Type*) where
  leftChannelFifo : SyncFifo F
  rightChannelFifo : SyncFifo F
  leftChannelFifoWriteSpace : BitVec 8
  rightChannelFifoWriteSpace : BitVec 8
  leftChannelWasRead : Bool
  dataOutShiftReg : BitVec 16
  serialAudioOutData : Bool

namespace Serializer

variable {F : Type*} [Scfifo F]

def readLeftChannel (e : Edges) (s : Serializer F) : Bool :=
  e.leftRightClkRisingEdge && !s.leftChannelFifo.fifoIsEmpty && !s.rightChannelFifo.fifoIsEmpty

def readRightChannel (e : Edges) (s : Serializer F) : Bool :=
  e.leftRightClkFallingEdge && s.leftChannelWasRead

def clock (reset : Bool) (e : Edges) (channelData : BitVec 16)
    (leftChannelDataEn rightChannelDataEn : Bool) (s : Serializer F) : Serializer F where
  leftChannelFifo := s.leftChannelFifo.clock reset
    (leftChannelDataEn && !s.leftChannelFifo.fifoIsFull) channelData (s.readLeftChannel e)
  rightChannelFifo := s.rightChannelFifo.clock reset
    (rightChannelDataEn && !s.rightChannelFifo.fifoIsFull) channelData (s.readRightChannel e)
  leftChannelFifoWriteSpace := if reset then 0x00 else 0x80 - s.leftChannelFifo.space
  rightChannelFifoWriteSpace := if reset then 0x00 else 0x80 - s.rightChannelFifo.space
  leftChannelWasRead :=
    if reset then false
    else if s.readLeftChannel e then true
    else if s.readRightChannel e then false
    else s.leftChannelWasRead
  dataOutShiftReg :=
    if reset then 0
    else if s.readLeftChannel e then s.leftChannelFifo.readData
    else if s.readRightChannel e then s.rightChannelFifo.readData
    else if e.leftRightClkEdge then 0
    else if e.bitClkFallingEdge then s.dataOutShiftReg.extractLsb' 0 15 ++ 0#1
    else s.dataOutShiftReg
  serialAudioOutData := if reset then false else s.dataOutShiftReg.msb

end Serializer

end Serializer

section Audio

/-- The signals from the codec and the global reset. -/
structure Pins where
  reset : Bool
  audAdcdat : Bool
  audAdclrck : Bool
  audBclk : Bool
  audDaclrck : Bool

structure Bus where
  address : BitVec 2
  chipselect : Bool
  read : Bool
  write : Bool
  writedata : BitVec 32

structure Audio (F : Type*) where
  bitClockEdges : ClockEdge
  adcLeftRightClockEdges : ClockEdge
  dacLeftRightClockEdges : ClockEdge
  doneAdcChannelSync : Bool
  readInterruptEn : Bool
  clearReadFifos : Bool
  readInterrupt : Bool
  doneDacChannelSync : Bool
  writeInterruptEn : Bool
  clearWriteFifos : Bool
  writeInterrupt : Bool
  irq : Bool
  readdata : BitVec 32
  audioInDeserializer : Deserializer F
  audioOutSerializer : Serializer F

namespace Audio

variable {F : Type*} [Scfifo F]

def adcEdges (a : Audio F) : Edges where
  bitClkRisingEdge := a.bitClockEdges.risingEdge
  bitClkFallingEdge := a.bitClockEdges.fallingEdge
  leftRightClkRisingEdge := a.adcLeftRightClockEdges.risingEdge
  leftRightClkFallingEdge := a.adcLeftRightClockEdges.fallingEdge

def dacEdges (a : Audio F) : Edges where
  bitClkRisingEdge := a.bitClockEdges.risingEdge
  bitClkFallingEdge := a.bitClockEdges.fallingEdge
  leftRightClkRisingEdge := a.doneDacChannelSync && a.dacLeftRightClockEdges.risingEdge
  leftRightClkFallingEdge := a.doneDacChannelSync && a.dacLeftRightClockEdges.fallingEdge

def nearlyFull (space : BitVec 8) : Bool :=
  space.getLsbD 6 && space.getLsbD 5 || space.getLsbD 7

def readRegister (address : BitVec 2) (a : Audio F) : BitVec 32 :=
  if address = 0 then
    0#22 ++ BitVec.ofBool a.writeInterrupt ++ BitVec.ofBool a.readInterrupt ++ 0#4 ++
      BitVec.ofBool a.clearWriteFifos ++ BitVec.ofBool a.clearReadFifos ++
      BitVec.ofBool a.writeInterruptEn ++ BitVec.ofBool a.readInterruptEn
  else if address = 1 then
    a.audioOutSerializer.leftChannelFifoWriteSpace ++
      a.audioOutSerializer.rightChannelFifoWriteSpace ++
      a.audioInDeserializer.leftAudioFifoReadSpace ++ a.audioInDeserializer.rightAudioFifoReadSpace
  else if address = 2 then
    SampleNormalization.readdata (a.audioInDeserializer.leftChannelFifo.readData)
  else SampleNormalization.readdata (a.audioInDeserializer.rightChannelFifo.readData)

def controlBit (reset : Bool) (b : Bus) (i : Nat) (old : Bool) : Bool :=
  if reset then false
  else if b.chipselect && b.write && b.address == 0 then b.writedata.getLsbD i
  else old

def clock (p : Pins) (b : Bus) (a : Audio F) : Audio F where
  bitClockEdges := a.bitClockEdges.clock p.audBclk
  adcLeftRightClockEdges := a.adcLeftRightClockEdges.clock p.audAdclrck
  dacLeftRightClockEdges := a.dacLeftRightClockEdges.clock p.audDaclrck
  doneAdcChannelSync :=
    if p.reset then false
    else if a.adcLeftRightClockEdges.risingEdge then true else a.doneAdcChannelSync
  readInterruptEn := controlBit p.reset b 0 a.readInterruptEn
  clearReadFifos := controlBit p.reset b 2 a.clearReadFifos
  readInterrupt :=
    if p.reset then false
    else if a.readInterruptEn = false then false
    else nearlyFull a.audioInDeserializer.leftAudioFifoReadSpace ||
      nearlyFull a.audioInDeserializer.rightAudioFifoReadSpace
  doneDacChannelSync :=
    if p.reset then false
    else if a.dacLeftRightClockEdges.fallingEdge then true else a.doneDacChannelSync
  writeInterruptEn := controlBit p.reset b 1 a.writeInterruptEn
  clearWriteFifos := controlBit p.reset b 3 a.clearWriteFifos
  writeInterrupt :=
    if p.reset then false
    else if a.writeInterruptEn = false then false
    else nearlyFull a.audioOutSerializer.leftChannelFifoWriteSpace ||
      nearlyFull a.audioOutSerializer.rightChannelFifoWriteSpace
  irq := if p.reset then false else a.writeInterrupt || a.readInterrupt
  readdata :=
    if p.reset then 0x00000000
    else if b.chipselect then a.readRegister b.address else a.readdata
  audioInDeserializer := a.audioInDeserializer.clock (p.reset || a.clearReadFifos) a.adcEdges
    a.doneAdcChannelSync p.audAdcdat (b.address == 2 && b.chipselect && b.read)
    (b.address == 3 && b.chipselect && b.read)
  audioOutSerializer := a.audioOutSerializer.clock (p.reset || a.clearWriteFifos) a.dacEdges
    (b.writedata.setWidth 16) (b.address == 2 && b.chipselect && b.write)
    (b.address == 3 && b.chipselect && b.write)

end Audio

variable {F : Type*} [Scfifo F]

/-- The sample that the deserializer stores at a clock edge, if its FIFO takes it. -/
def arrival (a : Audio F) : Option (Channel × BitVec 16) :=
  if a.doneAdcChannelSync && a.adcLeftRightClockEdges.fallingEdge then
    some (.left, a.audioInDeserializer.dataInShiftReg)
  else if a.doneAdcChannelSync && a.adcLeftRightClockEdges.risingEdge then
    some (.right, a.audioInDeserializer.dataInShiftReg)
  else none

def arrivals (a : Audio F) : List (Pins × Bus) → List (Channel × BitVec 16)
  | [] => []
  | (p, b) :: rest => (arrival a).toList ++ arrivals (a.clock p b) rest

end Audio

end RockPaperScissors.AudioSubsystem
