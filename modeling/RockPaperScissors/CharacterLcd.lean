import Mathlib.Data.BitVec

/-!
The controller of the character LCD clock by clock: the transfers to the
display, its initialization, and the accesses on the bus.
-/

namespace RockPaperScissors.CharacterLcd

section Communication

inductive LcdState
  | operation
  | enable
  | hold
  | finish
  | idle
deriving DecidableEq

/-- `altera_up_character_lcd_communication`. -/
structure Communication where
  sLcd : LcdState
  lcdEn : Bool
  lcdRs : Bool
  lcdRw : Bool
  dataToLcd : BitVec 8
  dataOut : BitVec 8
  transferComplete : Bool
  idleCounter : BitVec 7
  state0Counter : BitVec 4
  state1Counter : BitVec 4
  state2Counter : BitVec 4

namespace Communication

def nsLcd (enable : Bool) (c : Communication) : LcdState :=
  match c.sLcd with
  | .idle => if c.idleCounter == 0x7F && enable then .operation else .idle
  | .operation => if c.state0Counter = 3 then .enable else .operation
  | .enable => if c.state1Counter = 15 then .hold else .enable
  | .hold => if c.state2Counter = 1 then .finish else .hold
  | .finish => if enable = false then .idle else .finish

/-- The data bus, on which `display` is what the display puts. -/
def lcdData (display : BitVec 8) (c : Communication) : BitVec 8 :=
  if (c.sLcd = .enable ∨ c.sLcd = .hold) ∧ c.lcdRw = false then c.dataToLcd else display

def clock (reset : Bool) (dataIn : BitVec 8) (enable rs rw : Bool) (display : BitVec 8)
    (c : Communication) : Communication where
  sLcd := if reset then .idle else c.nsLcd enable
  lcdEn := if reset then false else c.sLcd == .enable
  lcdRs := if reset then false else if c.sLcd = .idle then rs else c.lcdRs
  lcdRw := if reset then false else if c.sLcd = .idle then rw else c.lcdRw
  dataToLcd := if reset then c.dataToLcd else if c.sLcd = .idle then dataIn else c.dataToLcd
  dataOut := if reset then 0x00 else if c.sLcd = .enable then c.lcdData display else c.dataOut
  transferComplete := if reset then false else c.sLcd == .finish
  idleCounter := if reset then 0 else if c.sLcd = .idle then c.idleCounter + 0x01 else 0
  state0Counter :=
    if reset then 0 else if c.sLcd = .operation then c.state0Counter + 0x1 else 0
  state1Counter := if reset then 0 else if c.sLcd = .enable then c.state1Counter + 0x1 else 0
  state2Counter := if reset then 0 else if c.sLcd = .hold then c.state2Counter + 0x1 else 0

end Communication

end Communication

section Initialization

inductive LcdInitState
  | waitPowerUp
  | sendCommand
  | checkDone
  | done
deriving DecidableEq

def commandRom (commandCounter : BitVec 4) : BitVec 9 :=
  match commandCounter.toNat with
  | 0 => 0x030
  | 1 => 0x030
  | 2 => 0x030
  | 3 => 0x03C
  | 4 => 0x008
  | 5 => 0x001
  | 6 => 0x006
  | 7 => 0x03#7 ++ 1#1 ++ 1#1
  | _ => 0x000

/-- `altera_up_character_lcd_initialization`. -/
structure Initialization where
  sLcdInitialize : LcdInitState
  theCommand : BitVec 9
  waitingPowerUp : BitVec 20
  waitingToSend : BitVec 18
  commandCounter : BitVec 4

namespace Initialization

def doneInitialization (i : Initialization) : Bool := i.sLcdInitialize == .done

def sendCommand (i : Initialization) : Bool := i.sLcdInitialize == .sendCommand

def nsLcdInitialize (initializeLcdDisplay commandWasSent : Bool) (i : Initialization) :
    LcdInitState :=
  match i.sLcdInitialize with
  | .waitPowerUp =>
      if i.waitingPowerUp == 750000 && initializeLcdDisplay then .sendCommand else .waitPowerUp
  | .sendCommand => if commandWasSent then .checkDone else .sendCommand
  | .checkDone =>
      if i.commandCounter = 0x8 then .done
      else if i.waitingToSend = 250000 then .sendCommand else .checkDone
  | .done => if initializeLcdDisplay then .done else .waitPowerUp

def clock (reset initializeLcdDisplay commandWasSent : Bool) (i : Initialization) :
    Initialization where
  sLcdInitialize :=
    if reset then .waitPowerUp else i.nsLcdInitialize initializeLcdDisplay commandWasSent
  theCommand := if reset then 0x000 else commandRom i.commandCounter
  waitingPowerUp :=
    if reset then 0
    else if i.sLcdInitialize = .waitPowerUp ∧ i.waitingPowerUp ≠ 750000 then
      i.waitingPowerUp + 0x00001
    else i.waitingPowerUp
  waitingToSend :=
    if reset then 0
    else if i.sLcdInitialize = .checkDone then
      if i.waitingToSend = 250000 then i.waitingToSend else i.waitingToSend + 0x00001
    else 0
  commandCounter :=
    if reset then 0x0
    else if i.sLcdInitialize = .sendCommand then
      if commandWasSent then i.commandCounter + 0x1 else i.commandCounter
    else if i.sLcdInitialize = .done then 0x5
    else i.commandCounter

end Initialization

end Initialization

section Controller

inductive LcdControllerState
  | idle
  | initializing
  | startCheckBusy
  | checkBusy
  | beginTransfer
  | transfer
  | complete
deriving DecidableEq

structure Bus where
  address : Bool
  chipselect : Bool
  write : Bool
  writedata : BitVec 8
deriving DecidableEq

/-- `Computer_System_Char_LCD_16x2`. -/
structure Lcd where
  sLcdController : LcdControllerState
  initializeLcdDisplay : Bool
  dataToSend : BitVec 8
  rs : Bool
  rw : Bool
  charLcdComm : Communication
  charLcdInit : Initialization

namespace Lcd

def waitrequest (b : Bus) (l : Lcd) : Bool := b.chipselect && l.sLcdController != .complete

def sendData (l : Lcd) : Bool :=
  match l.sLcdController with
  | .initializing => l.charLcdInit.sendCommand
  | .checkBusy => true
  | .transfer => true
  | _ => false

def nsLcdController (b : Bus) (l : Lcd) : LcdControllerState :=
  match l.sLcdController with
  | .idle =>
      if l.initializeLcdDisplay then .initializing
      else if b.chipselect then .startCheckBusy else .idle
  | .initializing => if l.charLcdInit.doneInitialization then .complete else .initializing
  | .startCheckBusy =>
      if l.charLcdComm.transferComplete = false then .checkBusy else .startCheckBusy
  | .checkBusy =>
      if l.charLcdComm.transferComplete && l.charLcdComm.dataOut.msb then .startCheckBusy
      else if l.charLcdComm.transferComplete && l.charLcdComm.dataOut.msb == false then
        .beginTransfer
      else .checkBusy
  | .beginTransfer =>
      if l.charLcdComm.transferComplete = false then .transfer else .beginTransfer
  | .transfer => if l.charLcdComm.transferComplete then .complete else .transfer
  | .complete => .idle

def clock (reset : Bool) (b : Bus) (display : BitVec 8) (l : Lcd) : Lcd where
  sLcdController := if reset then .idle else l.nsLcdController b
  initializeLcdDisplay :=
    if reset then true
    else if l.charLcdInit.doneInitialization then false else l.initializeLcdDisplay
  dataToSend :=
    if reset then 0x00
    else if l.sLcdController = .initializing then l.charLcdInit.theCommand.extractLsb' 0 8
    else if l.sLcdController = .beginTransfer then b.writedata
    else l.dataToSend
  rs :=
    if reset then false
    else if l.sLcdController = .initializing then l.charLcdInit.theCommand.getLsbD 8
    else if l.sLcdController = .startCheckBusy then false
    else if l.sLcdController = .beginTransfer then b.address
    else l.rs
  rw :=
    if reset then false
    else if l.sLcdController = .initializing then false
    else if l.sLcdController = .startCheckBusy then true
    else if l.sLcdController = .beginTransfer then !b.write
    else l.rw
  charLcdComm := l.charLcdComm.clock reset l.dataToSend l.sendData l.rs l.rw display
  charLcdInit := l.charLcdInit.clock reset l.initializeLcdDisplay l.charLcdComm.transferComplete

end Lcd

end Controller

end RockPaperScissors.CharacterLcd
