import RockPaperScissors.CharacterLcd

namespace RockPaperScissors.CharacterLcdTransfers

open RockPaperScissors.CharacterLcd

section Traffic

/-- What is on the lines of the display when it takes it over. -/
structure Strobe where
  rs : Bool
  rw : Bool
  data : BitVec 8
deriving DecidableEq

def strobe (display : BitVec 8) (c : Communication) : Option Strobe :=
  if c.lcdEn && c.sLcd != .enable then
    some ⟨c.lcdRs, c.lcdRw, if c.lcdRw then c.dataOut else c.lcdData display⟩
  else none

/-- The access of the bus, with the data that it writes or reads. -/
def accessOf (b : Bus) (l : Lcd) : Strobe :=
  ⟨b.address, !b.write, if b.write then b.writedata else l.charLcdComm.dataOut⟩

def acknowledged (b : Bus) (l : Lcd) : Option Strobe :=
  if b.chipselect && !l.waitrequest b then some (accessOf b l) else none

structure Input where
  bus : Bus
  display : BitVec 8

def Lcd.next (l : Lcd) (i : Input) : Lcd := l.clock false i.bus i.display

def strobes (l : Lcd) : List Input → List Strobe
  | [] => []
  | i :: rest => (strobe i.display l.charLcdComm).toList ++ strobes (Lcd.next l i) rest

def accesses (l : Lcd) : List Input → List Strobe
  | [] => []
  | i :: rest => (acknowledged i.bus l).toList ++ accesses (Lcd.next l i) rest

/-- An access stays on the bus while it has to wait. -/
def Holds (held : Option Bus) (l : Lcd) : List Input → Prop
  | [] => True
  | i :: rest =>
      (∀ b ∈ held, i.bus = b) ∧
        Holds (if l.waitrequest i.bus then some i.bus else none) (Lcd.next l i) rest

/-- The status of the display, with the busy flag on top. -/
def status (data : BitVec 8) : Strobe := ⟨false, true, data⟩

/-- The display is asked until it is not busy, and then it is given the access. -/
inductive Serves : List Strobe → List Strobe → Prop
  | nil : Serves [] []
  | busy {given taken : List Strobe} (h : Serves given taken) {data : BitVec 8}
      (hbusy : data.msb = true) : Serves given (taken ++ [status data])
  | access {given taken : List Strobe} (h : Serves given taken) {data : BitVec 8}
      (hfree : data.msb = false) (a : Strobe) : Serves (given ++ [a]) (taken ++ [status data] ++ [a])

/-- The display was given what was acknowledged, up to one access that it has
already, or one question that is not answered yet. -/
def Delivers (given taken : List Strobe) : Prop :=
  ∃ pending asked served, pending.length + asked.length ≤ 1 ∧
    (∀ s ∈ asked, ∃ data, s = status data) ∧ taken = served ++ asked ∧
    Serves (given ++ pending) served

end Traffic

section Transfer

/-- How the enable line follows the states. -/
structure Timed (c : Communication) : Prop where
  hold : c.sLcd = .hold →
    c.state2Counter = 0 ∧ c.lcdEn = true ∨ c.state2Counter = 1 ∧ c.lcdEn = false
  off : c.sLcd = .idle ∨ c.sLcd = .operation ∨ c.sLcd = .finish → c.lcdEn = false

/-- A transfer that did not take place yet. -/
structure Waiting (c : Communication) (rs rw : Bool) (data : BitVec 8) : Prop where
  notComplete : c.transferComplete = false
  notFinished : c.sLcd ≠ .finish
  enabled : c.sLcd = .hold → c.lcdEn = true
  lines : c.sLcd ≠ .idle → c.lcdRs = rs ∧ c.lcdRw = rw ∧ c.dataToLcd = data

structure Taken (c : Communication) : Prop where
  state : c.sLcd = .hold ∨ c.sLcd = .finish
  disabled : c.lcdEn = false
  notComplete : c.sLcd = .hold → c.transferComplete = false

variable {c : Communication} {rs rw enable : Bool} {data display : BitVec 8}

inductive Advances (c : Communication) (enable : Bool) : LcdState → Prop
  | rests (hs : c.sLcd = .idle) : Advances c enable .idle
  | starts (hs : c.sLcd = .idle) (henable : enable = true) : Advances c enable .operation
  | operates (hs : c.sLcd = .operation) : Advances c enable .operation
  | rises (hs : c.sLcd = .operation) : Advances c enable .enable
  | enables (hs : c.sLcd = .enable) : Advances c enable .enable
  | falls (hs : c.sLcd = .enable) : Advances c enable .hold
  | holds (hs : c.sLcd = .hold) (hcount : c.state2Counter ≠ 1) : Advances c enable .hold
  | finishes (hs : c.sLcd = .hold) (hcount : c.state2Counter = 1) : Advances c enable .finish
  | stays (hs : c.sLcd = .finish) (henable : enable = true) : Advances c enable .finish
  | ends (hs : c.sLcd = .finish) (henable : enable = false) : Advances c enable .idle

theorem advances (enable : Bool) (c : Communication) : Advances c enable (c.nsLcd enable) := by
  cases hs : c.sLcd with
  | idle =>
      simp only [Communication.nsLcd, hs]
      split
      · next hready => exact .starts hs (Bool.and_eq_true_iff.mp hready).2
      · exact .rests hs
  | operation =>
      simp only [Communication.nsLcd, hs]
      split
      · exact .rises hs
      · exact .operates hs
  | enable =>
      simp only [Communication.nsLcd, hs]
      split
      · exact .falls hs
      · exact .enables hs
  | hold =>
      simp only [Communication.nsLcd, hs]
      split
      · next hcount => exact .finishes hs hcount
      · next hcount => exact .holds hs hcount
  | finish =>
      simp only [Communication.nsLcd, hs]
      split
      · next hstop => exact .ends hs hstop
      · next hstop => exact .stays hs (Bool.not_eq_false _ |>.mp hstop)

theorem Timed.clock (h : Timed c) : Timed (c.clock false data enable rs rw display) := by
  have hnext := advances enable c
  have hstate : (c.clock false data enable rs rw display).sLcd = c.nsLcd enable := rfl
  have hen : (c.clock false data enable rs rw display).lcdEn = (c.sLcd == .enable) := rfl
  have hcounter : (c.clock false data enable rs rw display).state2Counter =
      if c.sLcd = .hold then c.state2Counter + 0x1 else 0 := rfl
  refine ⟨fun hhold => ?_, fun hoff => ?_⟩
  · rw [hstate] at hhold
    rw [hen, hcounter]
    rw [hhold] at hnext
    cases hnext with
    | falls hs => exact .inl (by simp [hs])
    | holds hs hcount =>
        obtain ⟨hzero, -⟩ := (h.hold hs).resolve_right fun hone => hcount hone.1
        exact .inr (by simp [hs, hzero])
  · rw [hen]
    rw [hstate] at hoff
    generalize c.nsLcd enable = next at hnext hoff
    cases hnext with
    | rises | enables | falls | holds => simp at hoff
    | rests hs | starts hs | operates hs | finishes hs | stays hs | ends hs => simp [hs]

theorem strobe_of_disabled (h : c.lcdEn = false) : strobe display c = none := by
  rw [strobe, h, Bool.false_and, if_neg Bool.false_ne_true]

theorem Timed.strobe_eq_none (h : Timed c) (hhold : c.sLcd ≠ .hold) : strobe display c = none := by
  cases hs : c.sLcd with
  | hold => exact absurd hs hhold
  | enable => simp [strobe, hs]
  | idle => exact strobe_of_disabled (h.off (.inl hs))
  | operation => exact strobe_of_disabled (h.off (.inr (.inl hs)))
  | finish => exact strobe_of_disabled (h.off (.inr (.inr hs)))

theorem Waiting.falls (h : Waiting c rs rw data) (htimed : Timed c) (hhold : c.sLcd = .hold) :
    strobe display c = some ⟨rs, rw, if rw then (c.clock false data true rs rw display).dataOut
        else data⟩ ∧ Taken (c.clock false data true rs rw display) := by
  obtain ⟨hrs, hrw, hdata⟩ := h.lines (by simp [hhold])
  have hcount : c.state2Counter = 0 := by
    rcases htimed.hold hhold with ⟨hzero, -⟩ | ⟨-, hen⟩
    · exact hzero
    · rw [h.enabled hhold] at hen
      exact absurd hen.symm Bool.false_ne_true
  have hnext : (c.clock false data true rs rw display).sLcd = .hold := by
    simp [Communication.clock, Communication.nsLcd, hhold, hcount]
  refine ⟨?_, .inl hnext, ?_, fun _ => ?_⟩
  · cases rw <;> simp [strobe, Communication.clock, Communication.lcdData, h.enabled hhold, hhold,
      hrs, hrw, hdata]
  · simp [Communication.clock, hhold]
  · simp [Communication.clock, hhold]

theorem Waiting.waits (h : Waiting c rs rw data) (hhold : c.sLcd ≠ .hold) :
    Waiting (c.clock false data true rs rw display) rs rw data := by
  have hnext := advances true c
  have hstate : (c.clock false data true rs rw display).sLcd = c.nsLcd true := rfl
  refine ⟨?_, ?_, ?_, ?_⟩
  · simp [Communication.clock, h.notFinished]
  · intro hfinish
    rw [← hstate, hfinish] at hnext
    cases hnext with
    | finishes hs => exact hhold hs
    | stays hs => exact h.notFinished hs
  · intro hfalls
    rw [← hstate, hfalls] at hnext
    cases hnext with
    | falls hs => simp [Communication.clock, hs]
    | holds hs => exact absurd hs hhold
  · intro _
    by_cases hidle : c.sLcd = .idle
    · simp [Communication.clock, hidle]
    · obtain ⟨hrs, hrw, hdata⟩ := h.lines hidle
      simp [Communication.clock, hidle, hrs, hrw, hdata]

theorem Waiting.clock (h : Waiting c rs rw data) (htimed : Timed c) :
    strobe display c = none ∧ Waiting (c.clock false data true rs rw display) rs rw data ∨
      strobe display c = some ⟨rs, rw, if rw then (c.clock false data true rs rw display).dataOut
        else data⟩ ∧ Taken (c.clock false data true rs rw display) := by
  by_cases hhold : c.sLcd = .hold
  · exact .inr (h.falls htimed hhold)
  · exact .inl ⟨htimed.strobe_eq_none hhold, h.waits hhold⟩

theorem Taken.clock (h : Taken c) :
    strobe display c = none ∧ Taken (c.clock false data true rs rw display) ∧
      (c.clock false data true rs rw display).dataOut = c.dataOut := by
  have hnext := advances true c
  have hstate : (c.clock false data true rs rw display).sLcd = c.nsLcd true := rfl
  have hnot : c.sLcd ≠ .enable := by
    rcases h.state with hs | hs <;> simp [hs]
  refine ⟨strobe_of_disabled h.disabled, ⟨?_, ?_, ?_⟩, ?_⟩
  · rw [hstate]
    generalize c.nsLcd true = next at hnext
    cases hnext with
    | holds => exact .inl rfl
    | finishes | stays => exact .inr rfl
    | ends hs henable => exact absurd henable.symm Bool.false_ne_true
    | rests hs | starts hs | operates hs | rises hs | enables hs | falls hs =>
        rcases h.state with hstate | hstate <;> simp [hs] at hstate
  · simp [Communication.clock, hnot]
  · intro hhold
    rw [← hstate, hhold] at hnext
    cases hnext with
    | falls hs => exact absurd hs hnot
    | holds hs => simp [Communication.clock, hs]
  · simp [Communication.clock, hnot]

theorem clock_of_finish (hs : c.sLcd = .finish) :
    (c.clock false data false rs rw display).sLcd = .idle := by
  simp [Communication.clock, Communication.nsLcd, hs]

theorem clock_of_idle (hs : c.sLcd = .idle) :
    (c.clock false data false rs rw display).sLcd = .idle := by
  simp [Communication.clock, Communication.nsLcd, hs]

end Transfer

section Phases

/-- No transfer is going on. -/
def Resting (c : Communication) : Prop :=
  c.sLcd = .idle ∨ c.sLcd = .finish ∧ c.transferComplete = true

/-- Where the controller is with the access that it holds: `given` was
acknowledged, and `taken` is what the display took over. -/
inductive Phase (l : Lcd) (given taken : List Strobe) : Option Bus → Prop
  | idle (held : Option Bus) (hs : l.sLcdController = .idle) (hcomm : l.charLcdComm.sLcd = .idle)
      (hserves : Serves given taken) : Phase l given taken held
  | startCheckBusy {b : Bus} (hselect : b.chipselect = true)
      (hs : l.sLcdController = .startCheckBusy) (hcomm : Resting l.charLcdComm)
      (hserves : Serves given taken) : Phase l given taken (some b)
  | checkBusy {b : Bus} (hselect : b.chipselect = true) (hs : l.sLcdController = .checkBusy)
      (hrs : l.rs = false) (hrw : l.rw = true)
      (hcomm : Waiting l.charLcdComm false true l.dataToSend) (hserves : Serves given taken) :
      Phase l given taken (some b)
  | checked {b : Bus} (hselect : b.chipselect = true) (hs : l.sLcdController = .checkBusy)
      (hcomm : Taken l.charLcdComm) {before : List Strobe}
      (htaken : taken = before ++ [status l.charLcdComm.dataOut]) (hserves : Serves given before) :
      Phase l given taken (some b)
  | beginTransfer {b : Bus} (hselect : b.chipselect = true)
      (hs : l.sLcdController = .beginTransfer) (hcomm : Resting l.charLcdComm)
      {before : List Strobe} {data : BitVec 8} (hfree : data.msb = false)
      (htaken : taken = before ++ [status data]) (hserves : Serves given before) :
      Phase l given taken (some b)
  | transfer {b : Bus} (hselect : b.chipselect = true) (hs : l.sLcdController = .transfer)
      (hrs : l.rs = b.address) (hrw : l.rw = !b.write) (hdata : l.dataToSend = b.writedata)
      (hcomm : Waiting l.charLcdComm b.address (!b.write) b.writedata)
      {before : List Strobe} {data : BitVec 8} (hfree : data.msb = false)
      (htaken : taken = before ++ [status data]) (hserves : Serves given before) :
      Phase l given taken (some b)
  | sent {b : Bus} (hselect : b.chipselect = true) (hs : l.sLcdController = .transfer)
      (hcomm : Taken l.charLcdComm) (hserves : Serves (given ++ [accessOf b l]) taken) :
      Phase l given taken (some b)
  | complete {b : Bus} (hselect : b.chipselect = true) (hs : l.sLcdController = .complete)
      (hcomm : l.charLcdComm.sLcd = .finish)
      (hserves : Serves (given ++ [accessOf b l]) taken) : Phase l given taken (some b)

/-- The initialization is over for good. -/
structure Initialized (l : Lcd) : Prop where
  initializeLcdDisplay : l.initializeLcdDisplay = false
  waitPowerUp : l.charLcdInit.sLcdInitialize = .waitPowerUp

variable {l : Lcd} {given taken : List Strobe} {i : Input} {b : Bus}

theorem Initialized.next (h : Initialized l) (i : Input) : Initialized (Lcd.next l i) := by
  refine ⟨?_, ?_⟩
  · simp [Lcd.next, Lcd.clock, h.initializeLcdDisplay]
  · simp [Lcd.next, Lcd.clock, Initialization.clock, Initialization.nsLcdInitialize,
      h.waitPowerUp, h.initializeLcdDisplay]

theorem Resting.clock {c : Communication} (h : Resting c) (data : BitVec 8) (rs rw : Bool)
    (display : BitVec 8) : (c.clock false data false rs rw display).sLcd = .idle := by
  rcases h with hidle | ⟨hfinish, -⟩
  · exact clock_of_idle hidle
  · exact clock_of_finish hfinish

theorem Resting.strobe_eq_none {c : Communication} (h : Resting c) (htimed : Timed c)
    (display : BitVec 8) : strobe display c = none := by
  rcases h with hidle | ⟨hfinish, -⟩
  · exact strobe_of_disabled (htimed.off (.inl hidle))
  · exact strobe_of_disabled (htimed.off (.inr (.inr hfinish)))

theorem waiting_of_idle {c : Communication} (hidle : c.sLcd = .idle) (data data' : BitVec 8)
    (rs rw rs' rw' : Bool) (display : BitVec 8) :
    Waiting (c.clock false data false rs rw display) rs' rw' data' := by
  have hnext : (c.clock false data false rs rw display).sLcd = .idle := clock_of_idle hidle
  refine ⟨?_, ?_, ?_, ?_⟩
  · simp [Communication.clock, hidle]
  · simp [hnext]
  · simp [hnext]
  · simp [hnext]

theorem acknowledged_eq_none (hs : l.sLcdController ≠ .complete) (b : Bus) :
    acknowledged b l = none := by
  cases hselect : b.chipselect <;> simp [acknowledged, Lcd.waitrequest, hselect, hs]

theorem held_eq (hselect : b.chipselect = true) (hs : l.sLcdController ≠ .complete) :
    (if l.waitrequest b then some b else none) = some b := by
  simp [Lcd.waitrequest, hselect, hs]

theorem phase_idle (hs : l.sLcdController = .idle) (hcomm : l.charLcdComm.sLcd = .idle)
    (hinit : Initialized l) (hserves : Serves given taken) :
    Phase (Lcd.next l i) given taken (if l.waitrequest i.bus then some i.bus else none) := by
  have hsend : l.sendData = false := by simp [Lcd.sendData, hs]
  have hidle : (Lcd.next l i).charLcdComm.sLcd = .idle := by
    simp only [Lcd.next, Lcd.clock, hsend]
    exact clock_of_idle hcomm
  cases hselect : i.bus.chipselect with
  | true =>
      rw [held_eq hselect (by simp [hs])]
      refine .startCheckBusy hselect ?_ (.inl hidle) hserves
      simp [Lcd.next, Lcd.clock, Lcd.nsLcdController, hs, hinit.initializeLcdDisplay, hselect]
  | false =>
      refine .idle _ ?_ hidle hserves
      simp [Lcd.next, Lcd.clock, Lcd.nsLcdController, hs, hinit.initializeLcdDisplay, hselect]

theorem next_comm (l : Lcd) (i : Input) : (Lcd.next l i).charLcdComm =
    l.charLcdComm.clock false l.dataToSend l.sendData l.rs l.rw i.display := rfl

theorem Taken.next (h : Taken l.charLcdComm) (i : Input) (hsend : l.sendData = true) :
    strobe i.display l.charLcdComm = none ∧ Taken (Lcd.next l i).charLcdComm ∧
      (Lcd.next l i).charLcdComm.dataOut = l.charLcdComm.dataOut := by
  rw [next_comm, hsend]
  exact h.clock

theorem Taken.finishes (h : Taken l.charLcdComm) (i : Input) (hsend : l.sendData = true)
    (hcomplete : l.charLcdComm.transferComplete = true) :
    (Lcd.next l i).charLcdComm.sLcd = .finish ∧
      (Lcd.next l i).charLcdComm.transferComplete = true := by
  have hfinish : l.charLcdComm.sLcd = .finish := by
    refine h.state.resolve_left fun hhold => ?_
    exact Bool.false_ne_true ((h.notComplete hhold).symm.trans hcomplete)
  refine ⟨?_, ?_⟩
  · simp [next_comm, Communication.clock, Communication.nsLcd, hsend, hfinish]
  · simp [next_comm, Communication.clock, hfinish]

theorem phase_startCheckBusy (hselect : b.chipselect = true)
    (hs : l.sLcdController = .startCheckBusy) (hcomm : Resting l.charLcdComm)
    (hserves : Serves given taken) (i : Input) : Phase (Lcd.next l i) given taken (some b) := by
  have hsend : l.sendData = false := by simp [Lcd.sendData, hs]
  cases hcomplete : l.charLcdComm.transferComplete with
  | true =>
      refine .startCheckBusy hselect ?_ (.inl ?_) hserves
      · simp [Lcd.next, Lcd.clock, Lcd.nsLcdController, hs, hcomplete]
      · rw [next_comm, hsend]
        exact hcomm.clock _ _ _ _
  | false =>
      have hidle : l.charLcdComm.sLcd = .idle :=
        hcomm.resolve_right fun h => Bool.false_ne_true (hcomplete.symm.trans h.2)
      refine .checkBusy hselect ?_ ?_ ?_ ?_ hserves
      · simp [Lcd.next, Lcd.clock, Lcd.nsLcdController, hs, hcomplete]
      · simp [Lcd.next, Lcd.clock, hs]
      · simp [Lcd.next, Lcd.clock, hs]
      · rw [next_comm, hsend]
        exact waiting_of_idle hidle _ _ _ _ _ _ _

theorem phase_checkBusy (hselect : b.chipselect = true) (hs : l.sLcdController = .checkBusy)
    (hrs : l.rs = false) (hrw : l.rw = true)
    (hcomm : Waiting l.charLcdComm false true l.dataToSend) (htimed : Timed l.charLcdComm)
    (hserves : Serves given taken) (i : Input) :
    Phase (Lcd.next l i) given (taken ++ (strobe i.display l.charLcdComm).toList) (some b) := by
  have hsend : l.sendData = true := by simp [Lcd.sendData, hs]
  have hs' : (Lcd.next l i).sLcdController = .checkBusy := by
    simp [Lcd.next, Lcd.clock, Lcd.nsLcdController, hs, hcomm.notComplete]
  have hcomm' : (Lcd.next l i).charLcdComm =
      l.charLcdComm.clock false l.dataToSend true false true i.display := by
    rw [next_comm, hsend, hrs, hrw]
  rcases hcomm.clock htimed with ⟨hnone, hwaiting⟩ | ⟨hstrobe, htaken⟩
  · rw [hnone, Option.toList_none, List.append_nil]
    refine .checkBusy hselect hs' ?_ ?_ ?_ hserves
    · simp [Lcd.next, Lcd.clock, hs, hrs]
    · simp [Lcd.next, Lcd.clock, hs, hrw]
    · have hdata : (Lcd.next l i).dataToSend = l.dataToSend := by
        simp [Lcd.next, Lcd.clock, hs]
      rw [hcomm', hdata]
      exact hwaiting
  · refine .checked hselect hs' (by rw [hcomm']; exact htaken) ?_ hserves
    rw [hstrobe, hcomm']
    rfl

/-- The display was asked: it is asked again while it is busy. -/
theorem phase_checked (hselect : b.chipselect = true) (hs : l.sLcdController = .checkBusy)
    (hcomm : Taken l.charLcdComm) {before : List Strobe}
    (htaken : taken = before ++ [status l.charLcdComm.dataOut]) (hserves : Serves given before)
    (i : Input) : Phase (Lcd.next l i) given taken (some b) := by
  have hsend : l.sendData = true := by simp [Lcd.sendData, hs]
  obtain ⟨-, htaken', hdata⟩ := hcomm.next i hsend
  cases hcomplete : l.charLcdComm.transferComplete with
  | false =>
      refine .checked hselect ?_ htaken' (by rw [hdata]; exact htaken) hserves
      simp [Lcd.next, Lcd.clock, Lcd.nsLcdController, hs, hcomplete]
  | true =>
      have hresting : Resting (Lcd.next l i).charLcdComm := .inr (hcomm.finishes i hsend hcomplete)
      cases hbusy : l.charLcdComm.dataOut.msb with
      | true =>
          refine .startCheckBusy hselect ?_ hresting ?_
          · simp [Lcd.next, Lcd.clock, Lcd.nsLcdController, hs, hcomplete, hbusy]
          · rw [htaken]
            exact hserves.busy hbusy
      | false =>
          refine .beginTransfer hselect ?_ hresting hbusy htaken hserves
          simp [Lcd.next, Lcd.clock, Lcd.nsLcdController, hs, hcomplete, hbusy]

theorem phase_beginTransfer (hselect : b.chipselect = true)
    (hs : l.sLcdController = .beginTransfer) (hcomm : Resting l.charLcdComm)
    {before : List Strobe} {data : BitVec 8} (hfree : data.msb = false)
    (htaken : taken = before ++ [status data]) (hserves : Serves given before)
    (hbus : i.bus = b) : Phase (Lcd.next l i) given taken (some b) := by
  have hsend : l.sendData = false := by simp [Lcd.sendData, hs]
  cases hcomplete : l.charLcdComm.transferComplete with
  | true =>
      refine .beginTransfer hselect ?_ (.inl ?_) hfree htaken hserves
      · simp [Lcd.next, Lcd.clock, Lcd.nsLcdController, hs, hcomplete]
      · rw [next_comm, hsend]
        exact hcomm.clock _ _ _ _
  | false =>
      have hidle : l.charLcdComm.sLcd = .idle :=
        hcomm.resolve_right fun h => Bool.false_ne_true (hcomplete.symm.trans h.2)
      refine .transfer hselect ?_ ?_ ?_ ?_ ?_ hfree htaken hserves
      · simp [Lcd.next, Lcd.clock, Lcd.nsLcdController, hs, hcomplete]
      · simp [Lcd.next, Lcd.clock, hs, hbus]
      · simp [Lcd.next, Lcd.clock, hs, hbus]
      · simp [Lcd.next, Lcd.clock, hs, hbus]
      · rw [next_comm, hsend]
        exact waiting_of_idle hidle _ _ _ _ _ _ _

theorem phase_transfer (hselect : b.chipselect = true) (hs : l.sLcdController = .transfer)
    (hrs : l.rs = b.address) (hrw : l.rw = !b.write) (hdata : l.dataToSend = b.writedata)
    (hcomm : Waiting l.charLcdComm b.address (!b.write) b.writedata)
    (htimed : Timed l.charLcdComm) {before : List Strobe} {data : BitVec 8}
    (hfree : data.msb = false) (htaken : taken = before ++ [status data])
    (hserves : Serves given before) (i : Input) :
    Phase (Lcd.next l i) given (taken ++ (strobe i.display l.charLcdComm).toList) (some b) := by
  have hsend : l.sendData = true := by simp [Lcd.sendData, hs]
  have hs' : (Lcd.next l i).sLcdController = .transfer := by
    simp [Lcd.next, Lcd.clock, Lcd.nsLcdController, hs, hcomm.notComplete]
  have hcomm' : (Lcd.next l i).charLcdComm =
      l.charLcdComm.clock false b.writedata true b.address (!b.write) i.display := by
    rw [next_comm, hsend, hrs, hrw, hdata]
  rcases hcomm.clock htimed with ⟨hnone, hwaiting⟩ | ⟨hstrobe, hover⟩
  · rw [hnone, Option.toList_none, List.append_nil]
    refine .transfer hselect hs' ?_ ?_ ?_ (by rw [hcomm']; exact hwaiting) hfree htaken hserves
    · simp [Lcd.next, Lcd.clock, hs, hrs]
    · simp [Lcd.next, Lcd.clock, hs, hrw]
    · simp [Lcd.next, Lcd.clock, hs, hdata]
  · refine .sent hselect hs' (by rw [hcomm']; exact hover) ?_
    have haccess : strobe i.display l.charLcdComm = some (accessOf b (Lcd.next l i)) := by
      rw [hstrobe, accessOf, hcomm']
      cases b.write <;> rfl
    rw [haccess, htaken]
    exact hserves.access hfree _

theorem phase_sent (hselect : b.chipselect = true) (hs : l.sLcdController = .transfer)
    (hcomm : Taken l.charLcdComm) (hserves : Serves (given ++ [accessOf b l]) taken) (i : Input) :
    Phase (Lcd.next l i) given taken (some b) := by
  have hsend : l.sendData = true := by simp [Lcd.sendData, hs]
  obtain ⟨-, htaken', hdata⟩ := hcomm.next i hsend
  have haccess : accessOf b (Lcd.next l i) = accessOf b l := by
    rw [accessOf, accessOf, hdata]
  rw [← haccess] at hserves
  cases hcomplete : l.charLcdComm.transferComplete with
  | false =>
      refine .sent hselect ?_ htaken' hserves
      simp [Lcd.next, Lcd.clock, Lcd.nsLcdController, hs, hcomplete]
  | true =>
      refine .complete hselect ?_ (hcomm.finishes i hsend hcomplete).1 hserves
      simp [Lcd.next, Lcd.clock, Lcd.nsLcdController, hs, hcomplete]

/-- One clock, with the access held on the bus. -/
theorem Phase.next {held : Option Bus} (h : Phase l given taken held) (hinit : Initialized l)
    (htimed : Timed l.charLcdComm) (hheld : ∀ b ∈ held, i.bus = b) :
    Phase (Lcd.next l i) (given ++ (acknowledged i.bus l).toList)
      (taken ++ (strobe i.display l.charLcdComm).toList)
      (if l.waitrequest i.bus then some i.bus else none) := by
  cases h with
  | idle held hs hcomm hserves =>
      rw [acknowledged_eq_none (by simp [hs]), strobe_of_disabled (htimed.off (.inl hcomm)),
        Option.toList_none, List.append_nil, List.append_nil]
      exact phase_idle hs hcomm hinit hserves
  | startCheckBusy hselect hs hcomm hserves =>
      obtain rfl := (hheld _ rfl).symm
      rw [acknowledged_eq_none (by simp [hs]), hcomm.strobe_eq_none htimed _, Option.toList_none,
        List.append_nil, List.append_nil, held_eq hselect (by simp [hs])]
      exact phase_startCheckBusy hselect hs hcomm hserves i
  | checkBusy hselect hs hrs hrw hcomm hserves =>
      obtain rfl := (hheld _ rfl).symm
      rw [acknowledged_eq_none (by simp [hs]), Option.toList_none, List.append_nil,
        held_eq hselect (by simp [hs])]
      exact phase_checkBusy hselect hs hrs hrw hcomm htimed hserves i
  | checked hselect hs hcomm htaken hserves =>
      obtain rfl := (hheld _ rfl).symm
      rw [acknowledged_eq_none (by simp [hs]), strobe_of_disabled hcomm.disabled,
        Option.toList_none, List.append_nil, List.append_nil, held_eq hselect (by simp [hs])]
      exact phase_checked hselect hs hcomm htaken hserves i
  | beginTransfer hselect hs hcomm hfree htaken hserves =>
      obtain rfl := (hheld _ rfl).symm
      rw [acknowledged_eq_none (by simp [hs]), hcomm.strobe_eq_none htimed _, Option.toList_none,
        List.append_nil, List.append_nil, held_eq hselect (by simp [hs])]
      exact phase_beginTransfer hselect hs hcomm hfree htaken hserves rfl
  | transfer hselect hs hrs hrw hdata hcomm hfree htaken hserves =>
      obtain rfl := (hheld _ rfl).symm
      rw [acknowledged_eq_none (by simp [hs]), Option.toList_none, List.append_nil,
        held_eq hselect (by simp [hs])]
      exact phase_transfer hselect hs hrs hrw hdata hcomm htimed hfree htaken hserves i
  | sent hselect hs hcomm hserves =>
      obtain rfl := (hheld _ rfl).symm
      rw [acknowledged_eq_none (by simp [hs]), strobe_of_disabled hcomm.disabled,
        Option.toList_none, List.append_nil, List.append_nil, held_eq hselect (by simp [hs])]
      exact phase_sent hselect hs hcomm hserves i
  | complete hselect hs hcomm hserves =>
      obtain rfl := (hheld _ rfl).symm
      have hack : acknowledged i.bus l = some (accessOf i.bus l) := by
        simp [acknowledged, Lcd.waitrequest, hselect, hs]
      rw [hack, strobe_of_disabled (htimed.off (.inr (.inr hcomm))), Option.toList_none,
        List.append_nil]
      refine .idle _ ?_ ?_ hserves
      · simp [Lcd.next, Lcd.clock, Lcd.nsLcdController, hs]
      · simp [next_comm, Communication.clock, Communication.nsLcd, Lcd.sendData, hs, hcomm]

end Phases

section Runs

def run (l : Lcd) (inputs : List Input) : Lcd := inputs.foldl Lcd.next l

/-- The initialization is over, and nothing is going on. -/
structure Ready (l : Lcd) : Prop where
  initialized : Initialized l
  idle : l.sLcdController = .idle
  commIdle : l.charLcdComm.sLcd = .idle
  disabled : l.charLcdComm.lcdEn = false

variable {l : Lcd} {given taken : List Strobe} {held : Option Bus}

instance decidableHolds : ∀ (held : Option Bus) (l : Lcd) (inputs : List Input),
    Decidable (Holds held l inputs)
  | _, _, [] => inferInstanceAs (Decidable True)
  | held, l, i :: rest =>
      haveI := decidableHolds (if l.waitrequest i.bus then some i.bus else none) (Lcd.next l i) rest
      inferInstanceAs (Decidable ((∀ b ∈ held, i.bus = b) ∧
        Holds (if l.waitrequest i.bus then some i.bus else none) (Lcd.next l i) rest))

theorem Ready.timed (h : Ready l) : Timed l.charLcdComm := by
  refine ⟨fun hhold => ?_, fun _ => h.disabled⟩
  rw [h.commIdle] at hhold
  cases hhold

theorem accesses_append (l : Lcd) (before after : List Input) :
    accesses l (before ++ after) = accesses l before ++ accesses (run l before) after := by
  induction before generalizing l with
  | nil => rfl
  | cons i before ih =>
      rw [List.cons_append, accesses, accesses, ih, List.append_assoc]
      rfl

theorem strobes_append (l : Lcd) (before after : List Input) :
    strobes l (before ++ after) = strobes l before ++ strobes (run l before) after := by
  induction before generalizing l with
  | nil => rfl
  | cons i before ih =>
      rw [List.cons_append, strobes, strobes, ih, List.append_assoc]
      rfl

theorem Holds.append {before after : List Input} (h : Holds held l (before ++ after)) :
    ∃ held', Holds held' (run l before) after := by
  induction before generalizing l held with
  | nil => exact ⟨held, h⟩
  | cons i before ih => exact ih h.2

theorem Phase.run (h : Phase l given taken held) (hinit : Initialized l)
    (htimed : Timed l.charLcdComm) (inputs : List Input) (hholds : Holds held l inputs) :
    ∃ held', Phase (run l inputs) (given ++ accesses l inputs) (taken ++ strobes l inputs)
      held' := by
  induction inputs generalizing l given taken held with
  | nil =>
      refine ⟨held, ?_⟩
      rw [accesses, strobes, List.append_nil, List.append_nil]
      exact h
  | cons i rest ih =>
      obtain ⟨hheld, hrest⟩ := hholds
      have hnext := h.next hinit htimed hheld
      have htimed' : Timed (Lcd.next l i).charLcdComm := by
        rw [next_comm]
        exact htimed.clock
      obtain ⟨held', hrun⟩ := ih hnext (hinit.next i) htimed' hrest
      refine ⟨held', ?_⟩
      rw [accesses, strobes, ← List.append_assoc, ← List.append_assoc]
      exact hrun

theorem Phase.delivers (h : Phase l given taken held) : Delivers given taken := by
  cases h with
  | idle held hs hcomm hserves | startCheckBusy hselect hs hcomm hserves
  | checkBusy hselect hs hrs hrw hcomm hserves =>
      exact ⟨[], [], taken, by simp, by simp, (List.append_nil taken).symm,
        (List.append_nil given).symm ▸ hserves⟩
  | @checked b hselect hs hcomm before htaken hserves =>
      exact ⟨[], [_], before, by simp, by simp, htaken, (List.append_nil given).symm ▸ hserves⟩
  | @beginTransfer b hselect hs hcomm before data hfree htaken hserves
  | @transfer b hselect hs hrs hrw hdata hcomm before data hfree htaken hserves =>
      exact ⟨[], [_], before, by simp, by simp, htaken, (List.append_nil given).symm ▸ hserves⟩
  | @sent b hselect hs hcomm hserves | @complete b hselect hs hcomm hserves =>
      exact ⟨[accessOf b l], [], taken, by simp, by simp, (List.append_nil taken).symm, hserves⟩

/-- Every access that is acknowledged was given to the display once and in
order, after the display said that it is not busy. -/
theorem strobes_serve (l : Lcd) (hready : Ready l) (inputs : List Input)
    (hholds : Holds none l inputs) : Delivers (accesses l inputs) (strobes l inputs) := by
  have hidle : Phase l [] [] none := .idle none hready.idle hready.commIdle .nil
  obtain ⟨held', hrun⟩ := hidle.run hready.initialized hready.timed inputs hholds
  exact hrun.delivers

def readyLcd : Lcd where
  sLcdController := .idle
  initializeLcdDisplay := false
  dataToSend := 0x0F
  rs := false
  rw := false
  charLcdComm := ⟨.idle, false, false, false, 0x0F, 0x00, false, 0x7C, 0, 0, 0⟩
  charLcdInit := ⟨.waitPowerUp, 0x001, 750000, 0, 5⟩

theorem ready_readyLcd : Ready readyLcd := ⟨⟨rfl, rfl⟩, rfl, rfl, rfl⟩

/-- A letter is written while the display is busy at first. -/
def writesLetter : List Input :=
  List.replicate 40 ⟨⟨true, true, true, 0x52⟩, 0x80⟩ ++
    List.replicate 295 ⟨⟨true, true, true, 0x52⟩, 0x05⟩

theorem strobes_serve_writesLetter :
    Holds none readyLcd writesLetter ∧
      accesses readyLcd writesLetter = [⟨true, false, 0x52⟩] ∧
      strobes readyLcd writesLetter = [status 0x80, status 0x05, ⟨true, false, 0x52⟩] ∧
      Delivers (accesses readyLcd writesLetter) (strobes readyLcd writesLetter) := by
  have hholds : Holds none readyLcd writesLetter := by decide +kernel
  exact ⟨hholds, by decide +kernel, by decide +kernel,
    strobes_serve readyLcd ready_readyLcd writesLetter hholds⟩

end Runs

end RockPaperScissors.CharacterLcdTransfers
