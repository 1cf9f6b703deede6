import RockPaperScissors.Library.LabelledRun
import Mathlib.Data.BitVec
import Mathlib.Logic.Function.Basic

/-!
The record loop of `main` with `check_KEYs`, as a machine that makes one
register access or one analysis at a time.  The values that the loads return
are chosen by the surroundings.
-/

namespace RockPaperScissors.RecordLoop

/-- About 1.5 seconds of buffer. -/
def bufSize : Nat := 12000

/-- 75% of the 128 word buffer. -/
def bufThreshold : Nat := 96

/-- The register access the program makes next, or an analysis. -/
inductive Location
  | loadKey
  | waitRelease
  | clearIn
  | releaseIn
  | clearOut
  | releaseOut
  | loadFifospace
  | loadLeft
  | loadRight
  | analysis
  | reloadFifospace
deriving DecidableEq

/-- The locals of `main` and of `check_KEYs`.  The flags `record` and `play`
are only ever 0 or 1. -/
structure State where
  location : Location
  keyValue : BitVec 32
  fifospace : BitVec 32
  record : Bool
  play : Bool
  bufferIndex : Nat
  leftBuffer : Nat → Int
  rightBuffer : Nat → Int

def atStart (keyValue fifospace : BitVec 32) (leftBuffer rightBuffer : Nat → Int) : State where
  location := .loadKey
  keyValue := keyValue
  fifospace := fifospace
  record := false
  play := false
  bufferIndex := 0
  leftBuffer := leftBuffer
  rightBuffer := rightBuffer

inductive Event
  | loadKey (value : BitVec 32)
  | storeControl (value : BitVec 32)
  | loadFifospace (value : BitVec 32)
  | loadLeft (value : BitVec 32)
  | loadRight (value : BitVec 32)
  | analyse
deriving DecidableEq

/-- The words in the right channel's FIFO, as `fifospace` tells them. -/
def rarc (fifospace : BitVec 32) : Nat := (fifospace &&& 0x000000FF).toNat

def returnFromKeys (s : State) : State :=
  { s with location := if s.record then .loadFifospace else .loadKey }

@[simp] theorem returnFromKeys_record (s : State) : (returnFromKeys s).record = s.record := rfl

@[simp] theorem returnFromKeys_bufferIndex (s : State) :
    (returnFromKeys s).bufferIndex = s.bufferIndex := rfl

@[simp] theorem returnFromKeys_leftBuffer (s : State) :
    (returnFromKeys s).leftBuffer = s.leftBuffer := rfl

theorem returnFromKeys_location (s : State) :
    (returnFromKeys s).location = .loadFifospace ∧ s.record = true ∨
      (returnFromKeys s).location = .loadKey ∧ s.record = false := by
  cases hrecord : s.record <;> simp [returnFromKeys, hrecord]

theorem returnFromKeys_ne {location : Location} (hrecord : location ≠ .loadFifospace)
    (hidle : location ≠ .loadKey) (s : State) : (returnFromKeys s).location ≠ location := by
  rcases returnFromKeys_location s with ⟨hloc, -⟩ | ⟨hloc, -⟩
  · exact hloc ▸ hrecord.symm
  · exact hloc ▸ hidle.symm

theorem record_of_returnFromKeys_ne {s : State} (hloc : (returnFromKeys s).location ≠ .loadKey) :
    (returnFromKeys s).record = true := by
  rcases returnFromKeys_location s with ⟨-, hrecord⟩ | ⟨hidle, -⟩
  · exact hrecord
  · exact absurd hidle hloc

def handleKeys (s : State) : State :=
  if s.keyValue = 0x1 then { s with bufferIndex := 0, location := .clearIn }
  else if s.keyValue = 0x2 then { s with bufferIndex := 0, location := .clearOut }
  else returnFromKeys s

def testInner (s : State) : State :=
  { s with
    location := if rarc s.fifospace ≠ 0 ∧ s.bufferIndex < bufSize then .loadLeft
      else .loadKey }

def step (s : State) : Event → Option State
  | .loadKey value =>
      match s.location with
      | .loadKey => some { s with keyValue := value, location := .waitRelease }
      | .waitRelease => some (if value = 0 then handleKeys s else s)
      | _ => none
  | .storeControl value =>
      match s.location with
      | .clearIn => if value = 0x4 then some { s with location := .releaseIn } else none
      | .releaseIn =>
          if value = 0x0 then some (returnFromKeys { s with record := true }) else none
      | .clearOut => if value = 0x8 then some { s with location := .releaseOut } else none
      | .releaseOut =>
          if value = 0x0 then some (returnFromKeys { s with play := true }) else none
      | _ => none
  | .loadFifospace value =>
      match s.location with
      | .loadFifospace =>
          some (if bufThreshold < rarc value then testInner { s with fifospace := value }
            else { s with fifospace := value, location := .loadKey })
      | .reloadFifospace => some (testInner { s with fifospace := value })
      | _ => none
  | .loadLeft value =>
      match s.location with
      | .loadLeft =>
          some { s with
            leftBuffer := Function.update s.leftBuffer s.bufferIndex value.toInt
            location := .loadRight }
      | _ => none
  | .loadRight value =>
      match s.location with
      | .loadRight =>
          some { s with
            rightBuffer := Function.update s.rightBuffer s.bufferIndex value.toInt
            bufferIndex := s.bufferIndex + 1
            location := if s.bufferIndex + 1 = bufSize then .analysis else .reloadFifospace }
      | _ => none
  | .analyse =>
      match s.location with
      | .analysis =>
          some { s with record := false, bufferIndex := 0, location := .reloadFifospace }
      | _ => none

/-- Everything a step can do. -/
inductive Moves (s : State) : Event → State → Prop
  | keyLoaded (value : BitVec 32) (hloc : s.location = .loadKey) :
      Moves s (.loadKey value) { s with keyValue := value, location := .waitRelease }
  | keyHeld (value : BitVec 32) (hloc : s.location = .waitRelease) (hvalue : value ≠ 0) :
      Moves s (.loadKey value) s
  | key0 (hloc : s.location = .waitRelease) (hkey : s.keyValue = 0x1) :
      Moves s (.loadKey 0) { s with bufferIndex := 0, location := .clearIn }
  | key1 (hloc : s.location = .waitRelease) (hkey : s.keyValue = 0x2) :
      Moves s (.loadKey 0) { s with bufferIndex := 0, location := .clearOut }
  | otherKeys (hloc : s.location = .waitRelease) (h0 : s.keyValue ≠ 0x1)
      (h1 : s.keyValue ≠ 0x2) : Moves s (.loadKey 0) (returnFromKeys s)
  | cleared (hloc : s.location = .clearIn) :
      Moves s (.storeControl 0x4) { s with location := .releaseIn }
  | started (hloc : s.location = .releaseIn) :
      Moves s (.storeControl 0x0) { s with record := true, location := .loadFifospace }
  | clearedOut (hloc : s.location = .clearOut) :
      Moves s (.storeControl 0x8) { s with location := .releaseOut }
  | playStarted (hloc : s.location = .releaseOut) :
      Moves s (.storeControl 0x0) (returnFromKeys { s with play := true })
  | passEntered (value : BitVec 32)
      (hloc : s.location = .loadFifospace ∧ bufThreshold < rarc value ∨
        s.location = .reloadFifospace)
      (hvalue : rarc value ≠ 0) (hindex : s.bufferIndex < bufSize) :
      Moves s (.loadFifospace value) { s with fifospace := value, location := .loadLeft }
  | innerLeft (value : BitVec 32)
      (hloc : s.location = .loadFifospace ∨ s.location = .reloadFifospace)
      (hvalue : rarc value ≤ bufThreshold ∧ s.location = .loadFifospace ∨ rarc value = 0 ∨
        bufSize ≤ s.bufferIndex) :
      Moves s (.loadFifospace value) { s with fifospace := value, location := .loadKey }
  | leftStored (value : BitVec 32) (hloc : s.location = .loadLeft) :
      Moves s (.loadLeft value) { s with
        leftBuffer := Function.update s.leftBuffer s.bufferIndex value.toInt
        location := .loadRight }
  | rightStored (value : BitVec 32) (hloc : s.location = .loadRight)
      (hindex : s.bufferIndex + 1 ≠ bufSize) :
      Moves s (.loadRight value) { s with
        rightBuffer := Function.update s.rightBuffer s.bufferIndex value.toInt
        bufferIndex := s.bufferIndex + 1
        location := .reloadFifospace }
  | bufferFilled (value : BitVec 32) (hloc : s.location = .loadRight)
      (hindex : s.bufferIndex + 1 = bufSize) :
      Moves s (.loadRight value) { s with
        rightBuffer := Function.update s.rightBuffer s.bufferIndex value.toInt
        bufferIndex := s.bufferIndex + 1
        location := .analysis }
  | analysed (hloc : s.location = .analysis) :
      Moves s .analyse { s with
        record := false
        bufferIndex := 0
        location := .reloadFifospace }

theorem Moves.testInner {s : State} {value : BitVec 32}
    (hloc : s.location = .loadFifospace ∧ bufThreshold < rarc value ∨
      s.location = .reloadFifospace) :
    Moves s (.loadFifospace value) (testInner { s with fifospace := value }) := by
  by_cases henter : rarc value ≠ 0 ∧ s.bufferIndex < bufSize
  · simp only [RecordLoop.testInner, if_pos henter]
    exact .passEntered value hloc henter.1 henter.2
  · simp only [RecordLoop.testInner, if_neg henter]
    refine .innerLeft value (hloc.imp And.left id) ?_
    right
    rw [not_and_or, not_not, not_lt] at henter
    exact henter

theorem moves_of_step {s t : State} {e : Event} (h : step s e = some t) : Moves s e t := by
  cases e with
  | loadKey value =>
      simp only [step] at h
      split at h
      · next hloc =>
          obtain rfl := Option.some.inj h
          exact .keyLoaded value hloc
      · next hloc =>
          obtain rfl := Option.some.inj h
          split_ifs with hvalue
          · subst value
            rw [handleKeys]
            split_ifs with h0 h1
            · exact .key0 hloc h0
            · exact .key1 hloc h1
            · exact .otherKeys hloc h0 h1
          · exact .keyHeld value hloc hvalue
      · exact absurd h (by simp)
  | storeControl value =>
      simp only [step] at h
      split at h
      · next hloc =>
          obtain ⟨rfl, h⟩ := Option.ite_none_right_eq_some.mp h
          obtain rfl := Option.some.inj h
          exact .cleared hloc
      · next hloc =>
          obtain ⟨rfl, h⟩ := Option.ite_none_right_eq_some.mp h
          obtain rfl := Option.some.inj h
          exact .started hloc
      · next hloc =>
          obtain ⟨rfl, h⟩ := Option.ite_none_right_eq_some.mp h
          obtain rfl := Option.some.inj h
          exact .clearedOut hloc
      · next hloc =>
          obtain ⟨rfl, h⟩ := Option.ite_none_right_eq_some.mp h
          obtain rfl := Option.some.inj h
          exact .playStarted hloc
      · exact absurd h (by simp)
  | loadFifospace value =>
      simp only [step] at h
      split at h
      · next hloc =>
          obtain rfl := Option.some.inj h
          split_ifs with hvalue
          · exact Moves.testInner (Or.inl ⟨hloc, hvalue⟩)
          · exact .innerLeft value (Or.inl hloc) (Or.inl ⟨not_lt.mp hvalue, hloc⟩)
      · next hloc =>
          obtain rfl := Option.some.inj h
          exact Moves.testInner (Or.inr hloc)
      · exact absurd h (by simp)
  | loadLeft value =>
      simp only [step] at h
      split at h
      · next hloc =>
          obtain rfl := Option.some.inj h
          exact .leftStored value hloc
      · exact absurd h (by simp)
  | loadRight value =>
      simp only [step] at h
      split at h
      · next hloc =>
          obtain rfl := Option.some.inj h
          split_ifs with hindex
          · exact .bufferFilled value hloc hindex
          · exact .rightStored value hloc hindex
      · exact absurd h (by simp)
  | analyse =>
      simp only [step] at h
      split at h
      · next hloc =>
          obtain rfl := Option.some.inj h
          exact .analysed hloc
      · exact absurd h (by simp)

section WholeRecording

open RockPaperScissors.Library.LabelledRun

def pass (value : BitVec 32) : List Event :=
  [.loadLeft value, .loadRight 0, .loadFifospace 97]

def passes (n : Nat) (value : BitVec 32) : List Event :=
  (List.replicate n (pass value)).flatten

def fillBuffer (value : BitVec 32) : List Event :=
  passes (bufSize - 1) value ++ [.loadLeft value, .loadRight 0]

theorem passes_succ (n : Nat) (value : BitVec 32) :
    passes (n + 1) value = passes n value ++ pass value := by
  simp [passes, List.replicate_succ']

def storePair (left right : BitVec 32) (s : State) : State :=
  { s with
    leftBuffer := Function.update s.leftBuffer s.bufferIndex left.toInt
    rightBuffer := Function.update s.rightBuffer s.bufferIndex right.toInt
    bufferIndex := s.bufferIndex + 1 }

theorem run_pass {s : State} (hloc : s.location = .loadLeft)
    (hindex : s.bufferIndex + 1 < bufSize) (value : BitVec 32) :
    run step s (pass value) =
      some { storePair value 0 s with location := .loadLeft, fifospace := 97 } := by
  have hne : s.bufferIndex + 1 ≠ bufSize := hindex.ne
  simp [pass, run_cons, step, hloc, hne, testInner, rarc, hindex, storePair]

theorem run_passes {s : State} (hloc : s.location = .loadLeft) (value : BitVec 32) {n : Nat}
    (hindex : s.bufferIndex + n < bufSize) :
    ∃ t, run step s (passes n value) = some t ∧ t.location = .loadLeft ∧
      t.bufferIndex = s.bufferIndex + n ∧ t.record = s.record ∧
      ∀ i, s.bufferIndex ≤ i → i < s.bufferIndex + n → t.leftBuffer i = value.toInt := by
  induction n with
  | zero =>
      refine ⟨s, rfl, hloc, rfl, rfl, ?_⟩
      intro i hle hlt
      exact absurd hlt (not_lt.mpr hle)
  | succ n ih =>
      obtain ⟨t, hrun, ht, htindex, hrecord, hbuffer⟩ := ih (by omega)
      have hnext : t.bufferIndex + 1 < bufSize := by omega
      refine ⟨{ storePair value 0 t with location := .loadLeft, fifospace := 97 }, ?_, rfl, ?_,
        hrecord, ?_⟩
      · rw [passes_succ, run_append_of_eq hrun]
        exact run_pass ht hnext value
      · change t.bufferIndex + 1 = s.bufferIndex + (n + 1)
        omega
      · intro i hle hlt
        change Function.update t.leftBuffer t.bufferIndex value.toInt i = value.toInt
        by_cases hi : i = t.bufferIndex
        · rw [hi, Function.update_self]
        · rw [Function.update_of_ne hi]
          exact hbuffer i hle (by omega)

theorem run_fillBuffer {s : State} (hloc : s.location = .loadLeft) (hindex : s.bufferIndex = 0)
    (value : BitVec 32) :
    ∃ t, run step s (fillBuffer value) = some t ∧ t.location = .analysis ∧
      t.record = s.record ∧ ∀ i < bufSize, t.leftBuffer i = value.toInt := by
  have hpos : 0 < bufSize := by decide
  obtain ⟨t, hrun, ht, htindex, hrecord, hbuffer⟩ :=
    @run_passes s hloc value (bufSize - 1) (by omega)
  have hfull : t.bufferIndex + 1 = bufSize := by omega
  refine ⟨{ storePair value 0 t with location := .analysis }, ?_, rfl, hrecord, ?_⟩
  · rw [fillBuffer, run_append_of_eq hrun]
    simp [run_cons, step, ht, hfull, storePair]
  · intro i hi
    change Function.update t.leftBuffer t.bufferIndex value.toInt i = value.toInt
    by_cases hlast : i = t.bufferIndex
    · rw [hlast, Function.update_self]
    · rw [Function.update_of_ne hlast]
      exact hbuffer i (by omega) (by omega)

def pressKey0 : List Event :=
  [.loadKey 0x1, .loadKey 0, .storeControl 0x4, .storeControl 0x0, .loadFifospace 97]

def quietStart : State := atStart 0 0 (fun _ => 0) (fun _ => 0)

def recordingStarted : State :=
  { quietStart with location := .loadLeft, record := true, keyValue := 0x1, fifospace := 97 }

theorem run_pressKey0 : run step quietStart pressKey0 = some recordingStarted := rfl

theorem storeControl_not_mem_fillBuffer (value control : BitVec 32) :
    .storeControl control ∉ fillBuffer value := by
  simp [fillBuffer, passes, pass]

theorem analyse_not_mem_fillBuffer (value : BitVec 32) : .analyse ∉ fillBuffer value := by
  simp [fillBuffer, passes, pass]

end WholeRecording

end RockPaperScissors.RecordLoop
