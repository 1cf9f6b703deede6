import RockPaperScissors.CharacterLcdTransfers

namespace RockPaperScissors.CharacterLcdPowerUp

open RockPaperScissors.CharacterLcd
open RockPaperScissors.CharacterLcdTransfers

section Commands

def commandStrobe (n : Nat) : Strobe :=
  ⟨(commandRom (BitVec.ofNat 4 n)).getLsbD 8, false,
    (commandRom (BitVec.ofNat 4 n)).extractLsb' 0 8⟩

def initCommands : List Strobe := (List.range 8).map commandStrobe

theorem take_initCommands {n : Nat} (hn : n < 8) :
    initCommands.take (n + 1) = initCommands.take n ++ [commandStrobe n] := by
  have hlength : n < initCommands.length := by simpa [initCommands] using hn
  have hget : initCommands[n] = commandStrobe n := by simp [initCommands]
  rw [List.take_succ_eq_append_getElem hlength, hget]

theorem counter_eq_eight_iff {n : Nat} (hn : n ≤ 8) : BitVec.ofNat 4 n = 8#4 ↔ n = 8 := by
  constructor
  · intro hcount
    bv_omega
  · rintro rfl
    rfl

end Commands

section Phases

structure Loaded (l : Lcd) (n : Nat) : Prop where
  theCommand : l.charLcdInit.theCommand = commandRom (BitVec.ofNat 4 n)
  dataToSend : l.dataToSend = (commandStrobe n).data
  rs : l.rs = (commandStrobe n).rs
  rw : l.rw = false

/-- The controller leaves the bus waiting, with `n` commands sent. -/
structure Initializing (l : Lcd) (n : Nat) : Prop where
  initializeLcdDisplay : l.initializeLcdDisplay = true
  controller : l.sLcdController = .initializing
  counter : l.charLcdInit.commandCounter = BitVec.ofNat 4 n

/-- Where the initialization is, and what the display took over. -/
inductive PoweringUp (l : Lcd) : List Strobe → Prop
  | start (hflag : l.initializeLcdDisplay = true) (hs : l.sLcdController = .idle)
      (hcomm : l.charLcdComm.sLcd = .idle)
      (hinit : l.charLcdInit.sLcdInitialize = .waitPowerUp)
      (hcounter : l.charLcdInit.commandCounter = 0x0)
      (hwait : l.charLcdInit.waitingPowerUp = 0) : PoweringUp l []
  | fetching (h : Initializing l 0) (hcomm : l.charLcdComm.sLcd = .idle)
      (hinit : l.charLcdInit.sLcdInitialize = .waitPowerUp)
      (hwait : l.charLcdInit.waitingPowerUp = 1)
      (hfetched : l.charLcdInit.theCommand = commandRom (BitVec.ofNat 4 0)) : PoweringUp l []
  | waiting (h : Initializing l 0) (hcomm : l.charLcdComm.sLcd = .idle)
      (hinit : l.charLcdInit.sLcdInitialize = .waitPowerUp) (hloaded : Loaded l 0) :
      PoweringUp l []
  | sending {n : Nat} (hn : n < 8) (h : Initializing l n)
      (hinit : l.charLcdInit.sLcdInitialize = .sendCommand) (hloaded : Loaded l n)
      (hcomm : Waiting l.charLcdComm (commandStrobe n).rs false (commandStrobe n).data) :
      PoweringUp l (initCommands.take n)
  | sent {n : Nat} (hn : n < 8) (h : Initializing l n)
      (hinit : l.charLcdInit.sLcdInitialize = .sendCommand) (hcomm : Taken l.charLcdComm) :
      PoweringUp l (initCommands.take (n + 1))
  | checking {n : Nat} (hn : n ≤ 8) (h : Initializing l n)
      (hinit : l.charLcdInit.sLcdInitialize = .checkDone)
      (hwait : l.charLcdInit.waitingToSend = 0) (hcomm : Resting l.charLcdComm) :
      PoweringUp l (initCommands.take n)
  | settling {n : Nat} (hn : n < 8) (h : Initializing l n)
      (hinit : l.charLcdInit.sLcdInitialize = .checkDone)
      (hwait : l.charLcdInit.waitingToSend = 1) (hcomm : l.charLcdComm.sLcd = .idle)
      (hfetched : l.charLcdInit.theCommand = commandRom (BitVec.ofNat 4 n)) :
      PoweringUp l (initCommands.take n)
  | pausing {n : Nat} (hn : n < 8) (h : Initializing l n)
      (hinit : l.charLcdInit.sLcdInitialize = .checkDone) (hcomm : l.charLcdComm.sLcd = .idle)
      (hloaded : Loaded l n) : PoweringUp l (initCommands.take n)
  | done (h : Initializing l 8) (hinit : l.charLcdInit.sLcdInitialize = .done)
      (hcomm : l.charLcdComm.sLcd = .idle) : PoweringUp l initCommands

/-- The one clock in which the bus does not wait although no access was sent. -/
structure Leaving (l : Lcd) : Prop where
  initializeLcdDisplay : l.initializeLcdDisplay = false
  controller : l.sLcdController = .complete
  done : l.charLcdInit.sLcdInitialize = .done
  commIdle : l.charLcdComm.sLcd = .idle

variable {l : Lcd} {taken : List Strobe} {n : Nat}

theorem next_init (l : Lcd) (i : Input) : (Lcd.next l i).charLcdInit =
    l.charLcdInit.clock false l.initializeLcdDisplay l.charLcdComm.transferComplete := rfl

theorem Initializing.sendData (h : Initializing l n) :
    l.sendData = (l.charLcdInit.sLcdInitialize == .sendCommand) := by
  rw [Lcd.sendData, h.controller, Initialization.sendCommand]

theorem Initializing.next (h : Initializing l n) (i : Input)
    (hinit : l.charLcdInit.sLcdInitialize ≠ .done)
    {m : Nat} (hcounter : (Lcd.next l i).charLcdInit.commandCounter = BitVec.ofNat 4 m) :
    Initializing (Lcd.next l i) m := by
  have hdone : l.charLcdInit.doneInitialization = false := by
    simpa [Initialization.doneInitialization] using hinit
  refine ⟨?_, ?_, hcounter⟩
  · simp [Lcd.next, Lcd.clock, hdone, h.initializeLcdDisplay]
  · simp [Lcd.next, Lcd.clock, Lcd.nsLcdController, hdone, h.controller]

theorem Initializing.loaded (h : Initializing l n)
    (hfetched : l.charLcdInit.theCommand = commandRom (BitVec.ofNat 4 n)) (i : Input) :
    Loaded (Lcd.next l i) n := by
  refine ⟨?_, ?_, ?_, ?_⟩
  · simp [Lcd.next, Lcd.clock, Initialization.clock, h.counter]
  · simp [Lcd.next, Lcd.clock, h.controller, hfetched, commandStrobe]
  · simp [Lcd.next, Lcd.clock, h.controller, hfetched, commandStrobe]
  · simp [Lcd.next, Lcd.clock, h.controller]

theorem Initializing.comm_idle (h : Initializing l n) (hcomm : Resting l.charLcdComm)
    (hinit : l.charLcdInit.sLcdInitialize ≠ .sendCommand) (i : Input) :
    (Lcd.next l i).charLcdComm.sLcd = .idle := by
  have hsend : l.sendData = false := by simpa [h.sendData] using hinit
  rw [next_comm, hsend]
  exact hcomm.clock _ _ _ _

end Phases

section Steps

variable {l : Lcd} {taken : List Strobe} {n : Nat}

theorem PoweringUp.of_quiet {l' : Lcd} (h : PoweringUp l' taken) {display : BitVec 8}
    {c : Communication} (hquiet : strobe display c = none) :
    PoweringUp l' (taken ++ (strobe display c).toList) := by
  rw [hquiet, Option.toList_none, List.append_nil]
  exact h

theorem next_start (hflag : l.initializeLcdDisplay = true) (hs : l.sLcdController = .idle)
    (hcomm : l.charLcdComm.sLcd = .idle) (hinit : l.charLcdInit.sLcdInitialize = .waitPowerUp)
    (hcounter : l.charLcdInit.commandCounter = 0x0) (hwait : l.charLcdInit.waitingPowerUp = 0)
    (i : Input) : PoweringUp (Lcd.next l i) [] := by
  have hsend : l.sendData = false := by simp [Lcd.sendData, hs]
  have hcounter' : (Lcd.next l i).charLcdInit.commandCounter = BitVec.ofNat 4 0 := by
    simp [next_init, Initialization.clock, hinit, hcounter]
  refine .fetching ⟨?_, ?_, hcounter'⟩ ?_ ?_ ?_ ?_
  · simp [Lcd.next, Lcd.clock, Initialization.doneInitialization, hinit, hflag]
  · simp [Lcd.next, Lcd.clock, Lcd.nsLcdController, hs, hflag]
  · rw [next_comm, hsend]
    exact clock_of_idle hcomm
  · simp [next_init, Initialization.clock, Initialization.nsLcdInitialize, hinit, hwait]
  · simp [next_init, Initialization.clock, hinit, hwait]
  · simp [next_init, Initialization.clock, hcounter]

theorem next_fetching (h : Initializing l 0) (hcomm : l.charLcdComm.sLcd = .idle)
    (hinit : l.charLcdInit.sLcdInitialize = .waitPowerUp)
    (hwait : l.charLcdInit.waitingPowerUp = 1)
    (hfetched : l.charLcdInit.theCommand = commandRom (BitVec.ofNat 4 0)) (i : Input) :
    PoweringUp (Lcd.next l i) [] := by
  have hcounter : (Lcd.next l i).charLcdInit.commandCounter = BitVec.ofNat 4 0 := by
    simp [next_init, Initialization.clock, hinit, h.counter]
  refine .waiting (h.next i (by simp [hinit]) hcounter) ?_ ?_ (h.loaded hfetched i)
  · exact h.comm_idle (.inl hcomm) (by simp [hinit]) i
  · simp [next_init, Initialization.clock, Initialization.nsLcdInitialize, hinit, hwait]

/-- The display gets the time that it needs after the power came up. -/
theorem next_waiting (h : Initializing l 0) (hcomm : l.charLcdComm.sLcd = .idle)
    (hinit : l.charLcdInit.sLcdInitialize = .waitPowerUp) (hloaded : Loaded l 0) (i : Input) :
    PoweringUp (Lcd.next l i) [] := by
  have hsend : l.sendData = false := by simp [h.sendData, hinit]
  have hcounter : (Lcd.next l i).charLcdInit.commandCounter = BitVec.ofNat 4 0 := by
    simp [next_init, Initialization.clock, hinit, h.counter]
  have hnext := h.next i (by simp [hinit]) hcounter
  have hloaded' := h.loaded hloaded.theCommand i
  by_cases hwait : l.charLcdInit.waitingPowerUp = 750000#20
  · refine .sending (by omega : 0 < 8) hnext ?_ hloaded' ?_
    · simp [next_init, Initialization.clock, Initialization.nsLcdInitialize, hinit, hwait,
        h.initializeLcdDisplay]
    · rw [next_comm, hsend]
      exact waiting_of_idle hcomm _ _ _ _ _ _ _
  · refine .waiting hnext (h.comm_idle (.inl hcomm) (by simp [hinit]) i) ?_ hloaded'
    simp [next_init, Initialization.clock, Initialization.nsLcdInitialize, hinit, hwait]

/-- The display takes over the command when the enable line falls. -/
theorem next_sending (hn : n < 8) (h : Initializing l n)
    (hinit : l.charLcdInit.sLcdInitialize = .sendCommand) (hloaded : Loaded l n)
    (hcomm : Waiting l.charLcdComm (commandStrobe n).rs false (commandStrobe n).data)
    (htimed : Timed l.charLcdComm) (i : Input) :
    PoweringUp (Lcd.next l i)
      (initCommands.take n ++ (strobe i.display l.charLcdComm).toList) := by
  have hsend : l.sendData = true := by simp [h.sendData, hinit]
  have hcounter : (Lcd.next l i).charLcdInit.commandCounter = BitVec.ofNat 4 n := by
    simp [next_init, Initialization.clock, hinit, hcomm.notComplete, h.counter]
  have hnext := h.next i (by simp [hinit]) hcounter
  have hinit' : (Lcd.next l i).charLcdInit.sLcdInitialize = .sendCommand := by
    simp [next_init, Initialization.clock, Initialization.nsLcdInitialize, hinit,
      hcomm.notComplete]
  have hcomm' : (Lcd.next l i).charLcdComm = l.charLcdComm.clock false (commandStrobe n).data true
      (commandStrobe n).rs false i.display := by
    rw [next_comm, hsend, hloaded.dataToSend, hloaded.rs, hloaded.rw]
  rcases hcomm.clock htimed with ⟨hnone, hwaiting⟩ | ⟨hstrobe, hover⟩
  · refine (PoweringUp.sending hn hnext hinit' (h.loaded hloaded.theCommand i) ?_).of_quiet hnone
    rw [hcomm']
    exact hwaiting
  · rw [hstrobe, Option.toList_some]
    have htake : initCommands.take n ++ [(⟨(commandStrobe n).rs, false, (commandStrobe n).data⟩ :
        Strobe)] = initCommands.take (n + 1) := (take_initCommands hn).symm
    refine htake ▸ .sent hn hnext hinit' ?_
    rw [hcomm']
    exact hover

theorem next_sent (hn : n < 8) (h : Initializing l n)
    (hinit : l.charLcdInit.sLcdInitialize = .sendCommand) (hcomm : Taken l.charLcdComm)
    (i : Input) : PoweringUp (Lcd.next l i) (initCommands.take (n + 1)) := by
  have hsend : l.sendData = true := by simp [h.sendData, hinit]
  cases hcomplete : l.charLcdComm.transferComplete with
  | false =>
      have hcounter : (Lcd.next l i).charLcdInit.commandCounter = BitVec.ofNat 4 n := by
        simp [next_init, Initialization.clock, hinit, hcomplete, h.counter]
      refine .sent hn (h.next i (by simp [hinit]) hcounter) ?_ (hcomm.next i hsend).2.1
      simp [next_init, Initialization.clock, Initialization.nsLcdInitialize, hinit, hcomplete]
  | true =>
      have hcounter : (Lcd.next l i).charLcdInit.commandCounter = BitVec.ofNat 4 (n + 1) := by
        simp [next_init, Initialization.clock, hinit, hcomplete, h.counter, BitVec.ofNat_add]
      refine .checking (by omega) (h.next i (by simp [hinit]) hcounter) ?_ ?_
        (.inr (hcomm.finishes i hsend hcomplete))
      · simp [next_init, Initialization.clock, Initialization.nsLcdInitialize, hinit, hcomplete]
      · simp [next_init, Initialization.clock, hinit]

theorem next_checking (hn : n ≤ 8) (h : Initializing l n)
    (hinit : l.charLcdInit.sLcdInitialize = .checkDone)
    (hwait : l.charLcdInit.waitingToSend = 0) (hcomm : Resting l.charLcdComm) (i : Input) :
    PoweringUp (Lcd.next l i) (initCommands.take n) := by
  have hcounter : (Lcd.next l i).charLcdInit.commandCounter = BitVec.ofNat 4 n := by
    simp [next_init, Initialization.clock, hinit, h.counter]
  have hnext := h.next i (by simp [hinit]) hcounter
  have hidle := h.comm_idle hcomm (by simp [hinit]) i
  rcases Nat.lt_or_eq_of_le hn with hlt | rfl
  · have hnot : BitVec.ofNat 4 n ≠ 8#4 := by
      rw [Ne, counter_eq_eight_iff hn]
      omega
    refine .settling hlt hnext ?_ ?_ hidle ?_
    · simp [next_init, Initialization.clock, Initialization.nsLcdInitialize, hinit, h.counter,
        hnot, hwait]
    · simp [next_init, Initialization.clock, hinit, hwait]
    · simp [next_init, Initialization.clock, h.counter]
  · refine .done hnext ?_ hidle
    simp [next_init, Initialization.clock, Initialization.nsLcdInitialize, hinit, h.counter]

theorem next_settling (hn : n < 8) (h : Initializing l n)
    (hinit : l.charLcdInit.sLcdInitialize = .checkDone)
    (hwait : l.charLcdInit.waitingToSend = 1) (hcomm : l.charLcdComm.sLcd = .idle)
    (hfetched : l.charLcdInit.theCommand = commandRom (BitVec.ofNat 4 n)) (i : Input) :
    PoweringUp (Lcd.next l i) (initCommands.take n) := by
  have hcounter : (Lcd.next l i).charLcdInit.commandCounter = BitVec.ofNat 4 n := by
    simp [next_init, Initialization.clock, hinit, h.counter]
  have hnot : BitVec.ofNat 4 n ≠ 8#4 := by
    rw [Ne, counter_eq_eight_iff hn.le]
    omega
  refine .pausing hn (h.next i (by simp [hinit]) hcounter) ?_
    (h.comm_idle (.inl hcomm) (by simp [hinit]) i) (h.loaded hfetched i)
  simp [next_init, Initialization.clock, Initialization.nsLcdInitialize, hinit, h.counter, hnot,
    hwait]

/-- The display gets the time that it needs after a command. -/
theorem next_pausing (hn : n < 8) (h : Initializing l n)
    (hinit : l.charLcdInit.sLcdInitialize = .checkDone) (hcomm : l.charLcdComm.sLcd = .idle)
    (hloaded : Loaded l n) (i : Input) : PoweringUp (Lcd.next l i) (initCommands.take n) := by
  have hsend : l.sendData = false := by simp [h.sendData, hinit]
  have hcounter : (Lcd.next l i).charLcdInit.commandCounter = BitVec.ofNat 4 n := by
    simp [next_init, Initialization.clock, hinit, h.counter]
  have hnext := h.next i (by simp [hinit]) hcounter
  have hloaded' := h.loaded hloaded.theCommand i
  have hnot : BitVec.ofNat 4 n ≠ 8#4 := by
    rw [Ne, counter_eq_eight_iff hn.le]
    omega
  by_cases hwait : l.charLcdInit.waitingToSend = 250000#18
  · refine .sending hn hnext ?_ hloaded' ?_
    · simp [next_init, Initialization.clock, Initialization.nsLcdInitialize, hinit, h.counter,
        hnot, hwait]
    · rw [next_comm, hsend]
      exact waiting_of_idle hcomm _ _ _ _ _ _ _
  · refine .pausing hn hnext ?_ (h.comm_idle (.inl hcomm) (by simp [hinit]) i) hloaded'
    simp [next_init, Initialization.clock, Initialization.nsLcdInitialize, hinit, h.counter, hnot,
      hwait]

theorem next_done (h : Initializing l 8) (hinit : l.charLcdInit.sLcdInitialize = .done)
    (hcomm : l.charLcdComm.sLcd = .idle) (i : Input) : Leaving (Lcd.next l i) := by
  refine ⟨?_, ?_, ?_, h.comm_idle (.inl hcomm) (by simp [hinit]) i⟩
  · simp [Lcd.next, Lcd.clock, Initialization.doneInitialization, hinit]
  · simp [Lcd.next, Lcd.clock, Lcd.nsLcdController, Initialization.doneInitialization, hinit,
      h.controller]
  · simp [next_init, Initialization.clock, Initialization.nsLcdInitialize, hinit,
      h.initializeLcdDisplay]

end Steps

section Progress

variable {l : Lcd} {taken : List Strobe}

/-- The clocks that a transfer takes at most, from each state to the next. -/
def transferLeft (c : Communication) : Nat :=
  match c.sLcd with
  | .finish => if c.transferComplete then 1 else 2
  | .hold => 3 + (1 - c.state2Counter).toNat
  | .enable => 19 + (15 - c.state1Counter).toNat
  | .operation => 35 + (3 - c.state0Counter).toNat
  | .idle => 51 + (0x7F - c.idleCounter).toNat

/-- The clocks that the initialization takes at most.  A command has 250180: its
pause, and its transfer. -/
def clocksLeft (l : Lcd) : Nat :=
  match l.charLcdInit.sLcdInitialize with
  | .waitPowerUp => 8 * 250180 + 3 + (750000 - l.charLcdInit.waitingPowerUp).toNat
  | .sendCommand =>
      (7 - l.charLcdInit.commandCounter.toNat) * 250180 + 250003 + transferLeft l.charLcdComm
  | .checkDone =>
      (8 - l.charLcdInit.commandCounter.toNat) * 250180 + 2 +
        (250000 - l.charLcdInit.waitingToSend).toNat
  | .done => if l.initializeLcdDisplay then 1 else 0

theorem transferLeft_le (c : Communication) : transferLeft c ≤ 178 := by
  cases hs : c.sLcd with
  | finish =>
      simp only [transferLeft, hs]
      split <;> omega
  | hold | enable | operation | idle =>
      simp only [transferLeft, hs]
      bv_omega

/-- While the transfer is not complete, every clock brings it nearer to its end. -/
theorem transferLeft_clock {c : Communication} (hcomplete : c.transferComplete = false)
    (data : BitVec 8) (rs rw : Bool) (display : BitVec 8) :
    transferLeft (c.clock false data true rs rw display) < transferLeft c := by
  cases hs : c.sLcd with
  | idle =>
      rcases eq_or_ne c.idleCounter 0x7F#7 with hcount | hcount
      · simp [transferLeft, Communication.clock, Communication.nsLcd, hs, hcount]
      · simp [transferLeft, Communication.clock, Communication.nsLcd, hs, hcount]
        bv_omega
  | operation =>
      rcases eq_or_ne c.state0Counter 3#4 with hcount | hcount
      · simp [transferLeft, Communication.clock, Communication.nsLcd, hs, hcount]
      · simp [transferLeft, Communication.clock, Communication.nsLcd, hs, hcount]
        bv_omega
  | enable =>
      rcases eq_or_ne c.state1Counter 15#4 with hcount | hcount
      · simp [transferLeft, Communication.clock, Communication.nsLcd, hs, hcount]
      · simp [transferLeft, Communication.clock, Communication.nsLcd, hs, hcount]
        bv_omega
  | hold =>
      rcases eq_or_ne c.state2Counter 1#4 with hcount | hcount
      · simp [transferLeft, Communication.clock, Communication.nsLcd, hs, hcount]
      · simp [transferLeft, Communication.clock, Communication.nsLcd, hs, hcount]
        bv_omega
  | finish =>
      simp [transferLeft, Communication.clock, Communication.nsLcd, hs, hcomplete]

theorem PoweringUp.flag (h : PoweringUp l taken) : l.initializeLcdDisplay = true := by
  cases h with
  | start hflag => exact hflag
  | fetching h | waiting h | sending hn h | sent hn h | checking hn h | settling hn h
  | pausing hn h | done h => exact h.initializeLcdDisplay

theorem PoweringUp.counter_le (h : PoweringUp l taken) :
    l.charLcdInit.commandCounter.toNat ≤ 8 := by
  cases h with
  | start hflag hs hcomm hinit hcounter => simp [hcounter]
  | fetching h | waiting h | done h => simp [h.counter]
  | sending hn h | sent hn h | settling hn h | pausing hn h | checking hn h =>
      simp [h.counter]
      omega

theorem PoweringUp.sends (h : PoweringUp l taken)
    (hsend : l.charLcdInit.sLcdInitialize = .sendCommand) :
    l.charLcdInit.commandCounter.toNat < 8 ∧ l.sendData = true := by
  cases h with
  | sending hn h | sent hn h =>
      refine ⟨?_, by simp [h.sendData, hsend]⟩
      simp [h.counter]
      omega
  | start hflag hs hcomm hinit | fetching h hcomm hinit | waiting h hcomm hinit
  | checking hn h hinit | settling hn h hinit | pausing hn h hinit | done h hinit =>
      simp [hinit] at hsend

theorem clocksLeft_of_waitPowerUp (h : l.charLcdInit.sLcdInitialize = .waitPowerUp) :
    clocksLeft l = 8 * 250180 + 3 + (750000 - l.charLcdInit.waitingPowerUp).toNat := by
  simp only [clocksLeft, h]

theorem clocksLeft_of_sendCommand (h : l.charLcdInit.sLcdInitialize = .sendCommand) :
    clocksLeft l = (7 - l.charLcdInit.commandCounter.toNat) * 250180 + 250003 +
      transferLeft l.charLcdComm := by
  simp only [clocksLeft, h]

theorem clocksLeft_of_checkDone (h : l.charLcdInit.sLcdInitialize = .checkDone) :
    clocksLeft l = (8 - l.charLcdInit.commandCounter.toNat) * 250180 + 2 +
      (250000 - l.charLcdInit.waitingToSend).toNat := by
  simp only [clocksLeft, h]

theorem clocksLeft_of_done (h : l.charLcdInit.sLcdInitialize = .done) :
    clocksLeft l = if l.initializeLcdDisplay then 1 else 0 := by
  simp only [clocksLeft, h]

theorem clocksLeft_next_of_waitPowerUp (hinit : l.charLcdInit.sLcdInitialize = .waitPowerUp)
    (hflag : l.initializeLcdDisplay = true) (i : Input) :
    clocksLeft (Lcd.next l i) < clocksLeft l := by
  rw [clocksLeft_of_waitPowerUp hinit]
  rcases eq_or_ne l.charLcdInit.waitingPowerUp 750000#20 with hwait | hwait
  · have hinit' : (Lcd.next l i).charLcdInit.sLcdInitialize = .sendCommand := by
      simp [next_init, Initialization.clock, Initialization.nsLcdInitialize, hinit, hwait, hflag]
    have htransfer := transferLeft_le (Lcd.next l i).charLcdComm
    rw [clocksLeft_of_sendCommand hinit']
    omega
  · have hinit' : (Lcd.next l i).charLcdInit.sLcdInitialize = .waitPowerUp := by
      simp [next_init, Initialization.clock, Initialization.nsLcdInitialize, hinit, hwait]
    have hwait' : (Lcd.next l i).charLcdInit.waitingPowerUp =
        l.charLcdInit.waitingPowerUp + 1 := by
      simp [next_init, Initialization.clock, hinit, hwait]
    rw [clocksLeft_of_waitPowerUp hinit', hwait']
    exact Nat.add_lt_add_left (by bv_omega) _

theorem clocksLeft_next_of_sendCommand (hinit : l.charLcdInit.sLcdInitialize = .sendCommand)
    (hcounter : l.charLcdInit.commandCounter.toNat < 8) (hsend : l.sendData = true) (i : Input) :
    clocksLeft (Lcd.next l i) < clocksLeft l := by
  rw [clocksLeft_of_sendCommand hinit]
  cases hcomplete : l.charLcdComm.transferComplete with
  | false =>
      have hinit' : (Lcd.next l i).charLcdInit.sLcdInitialize = .sendCommand := by
        simp [next_init, Initialization.clock, Initialization.nsLcdInitialize, hinit, hcomplete]
      have hcounter' : (Lcd.next l i).charLcdInit.commandCounter =
          l.charLcdInit.commandCounter := by
        simp [next_init, Initialization.clock, hinit, hcomplete]
      rw [clocksLeft_of_sendCommand hinit', hcounter', next_comm, hsend]
      exact Nat.add_lt_add_left (transferLeft_clock hcomplete _ _ _ _) _
  | true =>
      have hinit' : (Lcd.next l i).charLcdInit.sLcdInitialize = .checkDone := by
        simp [next_init, Initialization.clock, Initialization.nsLcdInitialize, hinit, hcomplete]
      have hcounter' : (Lcd.next l i).charLcdInit.commandCounter.toNat =
          l.charLcdInit.commandCounter.toNat + 1 := by
        simp [next_init, Initialization.clock, hinit, hcomplete]
        omega
      have hwait : (Lcd.next l i).charLcdInit.waitingToSend = 0 := by
        simp [next_init, Initialization.clock, hinit]
      have hpause : (250000 - 0 : BitVec 18).toNat = 250000 := rfl
      rw [clocksLeft_of_checkDone hinit', hcounter', hwait, hpause]
      omega

theorem clocksLeft_next_of_checkDone (hinit : l.charLcdInit.sLcdInitialize = .checkDone)
    (hcounter : l.charLcdInit.commandCounter.toNat ≤ 8) (i : Input) :
    clocksLeft (Lcd.next l i) < clocksLeft l := by
  rw [clocksLeft_of_checkDone hinit]
  have hcounter' : (Lcd.next l i).charLcdInit.commandCounter =
      l.charLcdInit.commandCounter := by
    simp [next_init, Initialization.clock, hinit]
  rcases eq_or_ne l.charLcdInit.commandCounter 8#4 with hcount | hcount
  · have hinit' : (Lcd.next l i).charLcdInit.sLcdInitialize = .done := by
      simp [next_init, Initialization.clock, Initialization.nsLcdInitialize, hinit, hcount]
    rw [clocksLeft_of_done hinit']
    split <;> omega
  rcases eq_or_ne l.charLcdInit.waitingToSend 250000#18 with hwait | hwait
  · have hinit' : (Lcd.next l i).charLcdInit.sLcdInitialize = .sendCommand := by
      simp [next_init, Initialization.clock, Initialization.nsLcdInitialize, hinit, hcount, hwait]
    have hless : l.charLcdInit.commandCounter.toNat ≠ 8 := fun hn =>
      hcount (BitVec.eq_of_toNat_eq hn)
    have htransfer := transferLeft_le (Lcd.next l i).charLcdComm
    rw [clocksLeft_of_sendCommand hinit', hcounter']
    omega
  · have hinit' : (Lcd.next l i).charLcdInit.sLcdInitialize = .checkDone := by
      simp [next_init, Initialization.clock, Initialization.nsLcdInitialize, hinit, hcount, hwait]
    have hwait' : (Lcd.next l i).charLcdInit.waitingToSend =
        l.charLcdInit.waitingToSend + 1 := by
      simp [next_init, Initialization.clock, hinit, hwait]
    rw [clocksLeft_of_checkDone hinit', hcounter', hwait']
    exact Nat.add_lt_add_left (by bv_omega) _

theorem clocksLeft_next_of_done (hinit : l.charLcdInit.sLcdInitialize = .done)
    (hflag : l.initializeLcdDisplay = true) (i : Input) :
    clocksLeft (Lcd.next l i) < clocksLeft l := by
  have hinit' : (Lcd.next l i).charLcdInit.sLcdInitialize = .done := by
    simp [next_init, Initialization.clock, Initialization.nsLcdInitialize, hinit, hflag]
  have hflag' : (Lcd.next l i).initializeLcdDisplay = false := by
    simp [Lcd.next, Lcd.clock, Initialization.doneInitialization, hinit]
  rw [clocksLeft_of_done hinit, hflag, clocksLeft_of_done hinit', hflag']
  exact Nat.one_pos

/-- Every clock brings the initialization nearer to its end. -/
theorem PoweringUp.clocksLeft_next (h : PoweringUp l taken) (i : Input) :
    clocksLeft (Lcd.next l i) < clocksLeft l := by
  cases hinit : l.charLcdInit.sLcdInitialize with
  | waitPowerUp => exact clocksLeft_next_of_waitPowerUp hinit h.flag i
  | sendCommand =>
      obtain ⟨hcounter, hsend⟩ := h.sends hinit
      exact clocksLeft_next_of_sendCommand hinit hcounter hsend i
  | checkDone => exact clocksLeft_next_of_checkDone hinit h.counter_le i
  | done => exact clocksLeft_next_of_done hinit h.flag i

end Progress

section Runs

variable {l : Lcd} {taken : List Strobe}

theorem PoweringUp.next (h : PoweringUp l taken) (htimed : Timed l.charLcdComm) (i : Input) :
    PoweringUp (Lcd.next l i) (taken ++ (strobe i.display l.charLcdComm).toList) ∨
      taken = initCommands ∧ strobe i.display l.charLcdComm = none ∧
        Leaving (Lcd.next l i) := by
  cases h with
  | start hflag hs hcomm hinit hcounter hwait =>
      exact .inl ((next_start hflag hs hcomm hinit hcounter hwait i).of_quiet
        (strobe_of_disabled (htimed.off (.inl hcomm))))
  | fetching h hcomm hinit hwait hfetched =>
      exact .inl ((next_fetching h hcomm hinit hwait hfetched i).of_quiet
        (strobe_of_disabled (htimed.off (.inl hcomm))))
  | waiting h hcomm hinit hloaded =>
      exact .inl ((next_waiting h hcomm hinit hloaded i).of_quiet
        (strobe_of_disabled (htimed.off (.inl hcomm))))
  | sending hn h hinit hloaded hcomm =>
      exact .inl (next_sending hn h hinit hloaded hcomm htimed i)
  | sent hn h hinit hcomm =>
      exact .inl ((next_sent hn h hinit hcomm i).of_quiet (strobe_of_disabled hcomm.disabled))
  | checking hn h hinit hwait hcomm =>
      exact .inl ((next_checking hn h hinit hwait hcomm i).of_quiet
        (hcomm.strobe_eq_none htimed _))
  | settling hn h hinit hwait hcomm hfetched =>
      exact .inl ((next_settling hn h hinit hwait hcomm hfetched i).of_quiet
        (strobe_of_disabled (htimed.off (.inl hcomm))))
  | pausing hn h hinit hcomm hloaded =>
      exact .inl ((next_pausing hn h hinit hcomm hloaded i).of_quiet
        (strobe_of_disabled (htimed.off (.inl hcomm))))
  | done h hinit hcomm =>
      exact .inr ⟨rfl, strobe_of_disabled (htimed.off (.inl hcomm)), next_done h hinit hcomm i⟩

theorem PoweringUp.acknowledged (h : PoweringUp l taken) (b : Bus) : acknowledged b l = none := by
  refine acknowledged_eq_none ?_ b
  cases h with
  | start hflag hs => simp [hs]
  | fetching h | waiting h | sending hn h | sent hn h | checking hn h | settling hn h
  | pausing hn h | done h => simp [h.controller]

theorem PoweringUp.taken_eq (h : PoweringUp l taken) : ∃ n, taken = initCommands.take n := by
  cases h with
  | start | fetching | waiting => exact ⟨0, rfl⟩
  | sending | sent | checking | settling | pausing => exact ⟨_, rfl⟩
  | done => exact ⟨8, rfl⟩

theorem Leaving.next (h : Leaving l) (i : Input) : Ready (Lcd.next l i) := by
  have hsend : l.sendData = false := by simp [Lcd.sendData, h.controller]
  refine ⟨⟨?_, ?_⟩, ?_, ?_, ?_⟩
  · simp [Lcd.next, Lcd.clock, Initialization.doneInitialization, h.done]
  · simp [next_init, Initialization.clock, Initialization.nsLcdInitialize, h.done,
      h.initializeLcdDisplay]
  · simp [Lcd.next, Lcd.clock, Lcd.nsLcdController, h.controller]
  · rw [next_comm, hsend]
    exact clock_of_idle h.commIdle
  · simp [next_comm, Communication.clock, h.commIdle]

theorem Leaving.acknowledged (h : Leaving l) (b : Bus) :
    acknowledged b l = if b.chipselect then some (accessOf b l) else none := by
  simp [CharacterLcdTransfers.acknowledged, Lcd.waitrequest, h.controller]

/-- The initialization is still going on, or there is a clock that left it. -/
theorem PoweringUp.run (h : PoweringUp l taken) (htimed : Timed l.charLcdComm)
    (inputs : List Input) :
    inputs.length ≤ clocksLeft l ∧ accesses l inputs = [] ∧
        (∃ n, taken ++ strobes l inputs = initCommands.take n) ∨
      ∃ before i after, inputs = before ++ i :: after ∧ before.length ≤ clocksLeft l ∧
        accesses l before = [] ∧
        taken ++ strobes l before = initCommands ∧ Leaving (run l before) ∧
        Timed (run l before).charLcdComm := by
  -- What is taken grows with the run, so the induction is over all starts of it.
  induction inputs generalizing l taken with
  | nil =>
      obtain ⟨n, htaken⟩ := h.taken_eq
      exact .inl ⟨Nat.zero_le _, rfl, n, by rw [strobes, List.append_nil, htaken]⟩
  | cons i rest ih =>
      have hack : (CharacterLcdTransfers.acknowledged i.bus l).toList = [] := by
        rw [h.acknowledged, Option.toList_none]
      have htimed' : Timed (Lcd.next l i).charLcdComm := by
        rw [next_comm]
        exact htimed.clock
      have hless := h.clocksLeft_next i
      rcases h.next htimed i with hnext | ⟨htaken, hquiet, hleaving⟩
      · rcases ih hnext htimed' with ⟨hlength, hnone, n, hcommands⟩ |
          ⟨before, j, after, hrest, hlength, hnone, hcommands, hrun⟩
        · refine .inl ⟨hlength.trans_lt hless, by rw [accesses, hack, hnone, List.append_nil], n, ?_⟩
          rw [strobes, ← List.append_assoc, hcommands]
        · refine .inr ⟨i :: before, j, after, by rw [hrest, List.cons_append],
            hlength.trans_lt hless, ?_, ?_, hrun⟩
          · rw [accesses, hack, hnone, List.append_nil]
          · rw [strobes, ← List.append_assoc, hcommands]
      · have hcommands : taken ++ strobes l [i] = initCommands := by
          rw [strobes, strobes, hquiet, htaken, Option.toList_none, List.append_nil,
            List.append_nil]
        have hnone : accesses l [i] = [] := by rw [accesses, accesses, hack, List.append_nil]
        have hlength : [i].length ≤ clocksLeft l := Nat.lt_of_le_of_lt (Nat.zero_le _) hless
        cases rest with
        | nil => exact .inl ⟨hlength, hnone, 8, hcommands⟩
        | cons j after =>
            exact .inr ⟨[i], j, after, rfl, hlength, hnone, hcommands, hleaving, htimed'⟩

def reset (l : Lcd) (i : Input) : Lcd := l.clock true i.bus i.display

theorem poweringUp_reset (l : Lcd) (i : Input) : PoweringUp (reset l i) [] :=
  .start rfl rfl rfl rfl rfl rfl

theorem timed_reset (l : Lcd) (i : Input) : Timed (reset l i).charLcdComm := by
  refine ⟨fun hhold => ?_, fun _ => rfl⟩
  cases hhold

theorem clocksLeft_reset (l : Lcd) (i : Input) : clocksLeft (reset l i) = 2751443 := by
  simp [clocksLeft, reset, Lcd.clock, Initialization.clock]

/-- Within 2751443 clocks the display is given the commands of its initialization.
Only after them, and after at most one access that is acknowledged without a
transfer, every access that is acknowledged was given to it once and in order. -/
theorem strobes_reset (l : Lcd) (i : Input) (inputs : List Input)
    (hholds : Holds none (reset l i) inputs) :
    inputs.length ≤ 2751443 ∧ accesses (reset l i) inputs = [] ∧
        (∃ n, strobes (reset l i) inputs = initCommands.take n) ∨
      ∃ before j after given taken,
        inputs = before ++ j :: after ∧ before.length ≤ 2751443 ∧
        accesses (reset l i) before = [] ∧ strobes (reset l i) before = initCommands ∧
        accesses (reset l i) inputs =
          (if j.bus.chipselect then [accessOf j.bus (run (reset l i) before)] else []) ++ given ∧
        strobes (reset l i) inputs = initCommands ++ taken ∧ Delivers given taken := by
  rcases (poweringUp_reset l i).run (timed_reset l i) inputs with
    hearly | ⟨before, j, after, hinputs, hlength, hnone, hcommands, hleaving, htimed⟩
  · exact .inl (clocksLeft_reset l i ▸ hearly)
  · obtain ⟨held, hheld⟩ := (hinputs ▸ hholds).append
    have hready := hleaving.next j
    have hfree : (run (reset l i) before).waitrequest j.bus = false := by
      simp [Lcd.waitrequest, hleaving.controller]
    have hafter : Holds none (Lcd.next (run (reset l i) before) j) after := by
      have hrest := hheld.2
      rw [hfree, if_neg Bool.false_ne_true] at hrest
      exact hrest
    have hidle : Phase (Lcd.next (run (reset l i) before) j) [] [] none :=
      .idle none hready.idle hready.commIdle .nil
    obtain ⟨held', hrun⟩ := hidle.run hready.initialized hready.timed after hafter
    refine .inr ⟨before, j, after, _, _, hinputs, clocksLeft_reset l i ▸ hlength, hnone,
      hcommands, ?_, ?_, hrun.delivers⟩
    · rw [hinputs, accesses_append, hnone, accesses, hleaving.acknowledged]
      cases j.bus.chipselect <;> rfl
    · have hquiet : strobe j.display (run (reset l i) before).charLcdComm = none :=
        strobe_of_disabled (htimed.off (.inl hleaving.commIdle))
      rw [List.nil_append] at hcommands
      rw [hinputs, strobes_append, hcommands, strobes, hquiet]
      rfl

/-- A letter that is written in every clock, to a display that is never busy. -/
def letter : Input := ⟨⟨true, true, true, 0x41⟩, 0x00⟩

theorem holds_replicate {i : Input} (n : Nat) {held : Option Bus} (hheld : ∀ b ∈ held, i.bus = b)
    (l : Lcd) : Holds held l (List.replicate n i) := by
  induction n generalizing held l with
  | zero => trivial
  | succ n ih =>
      refine ⟨hheld, ih (fun b hb => ?_) (Lcd.next l i)⟩
      split at hb
      · exact Option.some.inj hb
      · exact absurd hb.symm (Option.some_ne_none b)

theorem strobes_reset_letter : ∃ before after given taken,
    List.replicate 3000000 letter = before ++ letter :: after ∧ before.length ≤ 2751443 ∧
    accesses (reset readyLcd letter) before = [] ∧
    strobes (reset readyLcd letter) before = initCommands ∧
    accesses (reset readyLcd letter) (List.replicate 3000000 letter) =
      accessOf letter.bus (run (reset readyLcd letter) before) :: given ∧
    strobes (reset readyLcd letter) (List.replicate 3000000 letter) = initCommands ++ taken ∧
    Delivers given taken := by
  obtain ⟨before, j, after, given, taken, hinputs, hrun⟩ :=
    (strobes_reset readyLcd letter (List.replicate 3000000 letter)
      (holds_replicate 3000000 (by simp) (reset readyLcd letter))).resolve_left fun hearly => by
        have hlength := hearly.1
        rw [List.length_replicate] at hlength
        omega
  obtain rfl : j = letter := List.eq_of_mem_replicate (n := 3000000) (by rw [hinputs]; simp)
  exact ⟨before, after, given, taken, hinputs, hrun⟩

end Runs

end RockPaperScissors.CharacterLcdPowerUp
