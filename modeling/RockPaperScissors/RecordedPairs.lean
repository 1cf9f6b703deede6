import RockPaperScissors.RecordLoop
import Mathlib.Data.List.Range

namespace RockPaperScissors.RecordedPairs

open RockPaperScissors.Library.LabelledRun
open RockPaperScissors.RecordLoop

/-- The complete pairs read so far, and a left value whose right one is next. -/
def readNext : List (Int × Int) × Option Int → Event → List (Int × Int) × Option Int
  | (pairs, _), .loadLeft value => (pairs, some value.toInt)
  | (pairs, some left), .loadRight value => (pairs ++ [(left, value.toInt)], none)
  | (pairs, _), _ => (pairs, none)

def reads (events : List Event) : List (Int × Int) × Option Int :=
  events.foldl readNext ([], none)

/-- The left/right pairs read from the audio port, in order. -/
def readPairs (events : List Event) : List (Int × Int) := (reads events).1

theorem reads_append_singleton (events : List Event) (e : Event) :
    reads (events ++ [e]) = readNext (reads events) e := by
  rw [reads, List.foldl_append]
  rfl

theorem foldl_readNext (events : List Event) (pairs : List (Int × Int)) (left : Option Int) :
    events.foldl readNext (pairs, left) =
      (pairs ++ (events.foldl readNext ([], left)).1, (events.foldl readNext ([], left)).2) := by
  induction events using List.reverseRecOn with
  | nil => simp
  | append_singleton events e ih =>
      simp only [List.foldl_append, List.foldl_cons, List.foldl_nil, ih]
      rcases events.foldl readNext ([], left) with ⟨more, pending⟩
      cases e <;> cases pending <;> simp [readNext]

def Resets (s : State) (e : Event) : Prop :=
  e = .analyse ∨ e = .loadKey 0 ∧ s.location = .waitRelease ∧
    (s.keyValue = 0x1 ∨ s.keyValue = 0x2)

def stored (s : State) : List (Int × Int) × Option Int :=
  ((List.range s.bufferIndex).map fun i => (s.leftBuffer i, s.rightBuffer i),
    if s.location = .loadRight then some (s.leftBuffer s.bufferIndex) else none)

theorem stored_of_index_zero {s : State} (hindex : s.bufferIndex = 0)
    (hloc : s.location ≠ .loadRight) : stored s = ([], none) := by
  rw [stored, hindex, if_neg hloc]
  rfl

theorem stored_of_ne {s : State} (hloc : s.location ≠ .loadRight) :
    stored s = ((List.range s.bufferIndex).map fun i => (s.leftBuffer i, s.rightBuffer i),
      none) := by
  rw [stored, if_neg hloc]

theorem stored_leftStored (s : State) (value : BitVec 32) (hloc : s.location ≠ .loadRight) :
    stored { s with
      leftBuffer := Function.update s.leftBuffer s.bufferIndex value.toInt
      location := .loadRight } = readNext (stored s) (.loadLeft value) := by
  rw [stored_of_ne hloc]
  simp only [stored, readNext, if_true, Function.update_self]
  congr 1
  apply List.map_congr_left
  intro i hi
  rw [Function.update_of_ne (List.mem_range.mp hi).ne]

theorem stored_rightStored (s : State) (value : BitVec 32) (hloc : s.location = .loadRight)
    {location : Location} (hne : location ≠ .loadRight) :
    stored { s with
      rightBuffer := Function.update s.rightBuffer s.bufferIndex value.toInt
      bufferIndex := s.bufferIndex + 1
      location := location } = readNext (stored s) (.loadRight value) := by
  rw [stored_of_ne hne]
  simp only [stored, if_pos hloc, readNext, List.range_succ, List.map_append, List.map_cons,
    List.map_nil, Function.update_self]
  congr 2
  apply List.map_congr_left
  intro i hi
  rw [Function.update_of_ne (List.mem_range.mp hi).ne]

theorem stored_eq_readNext {s t : State} {e : Event} (hs : s.location ≠ .loadRight)
    (ht : t.location ≠ .loadRight) (hindex : t.bufferIndex = s.bufferIndex)
    (hleft : t.leftBuffer = s.leftBuffer) (hright : t.rightBuffer = s.rightBuffer)
    (hload : ∀ value, e ≠ .loadLeft value) : stored t = readNext (stored s) e := by
  rw [stored_of_ne hs, stored_of_ne ht, hindex, hleft, hright]
  cases e with
  | loadLeft value => exact absurd rfl (hload value)
  | _ => rfl

/-- A step sets the index to 0, or it does to the buffers what it does to the
pairs that were read. -/
theorem reset_or_stored {s t : State} {e : Event} (h : Moves s e t) :
    Resets s e ∧ t.bufferIndex = 0 ∧ t.location ≠ .loadRight ∨
      ¬ Resets s e ∧ stored t = readNext (stored s) e := by
  cases h with
  | key0 hloc hkey => exact Or.inl ⟨Or.inr ⟨rfl, hloc, Or.inl hkey⟩, rfl, by simp⟩
  | key1 hloc hkey => exact Or.inl ⟨Or.inr ⟨rfl, hloc, Or.inr hkey⟩, rfl, by simp⟩
  | analysed hloc => exact Or.inl ⟨Or.inl rfl, rfl, by simp⟩
  | leftStored value hloc =>
      exact Or.inr ⟨by simp [Resets], stored_leftStored s value (by simp [hloc])⟩
  | rightStored value hloc | bufferFilled value hloc =>
      exact Or.inr ⟨by simp [Resets], stored_rightStored s value hloc (by simp)⟩
  | keyHeld value hloc hvalue =>
      have hreset : ¬ Resets s (.loadKey value) := by
        rintro (h | ⟨h, -, -⟩)
        · cases h
        · exact hvalue (Event.loadKey.inj h)
      refine Or.inr ⟨hreset, ?_⟩
      exact stored_eq_readNext (by simp [hloc]) (by simp [hloc]) rfl rfl rfl (by simp)
  | otherKeys hloc h0 h1 =>
      have hreset : ¬ Resets s (.loadKey 0) := by
        rintro (h | ⟨-, -, h | h⟩)
        · cases h
        · exact h0 h
        · exact h1 h
      refine Or.inr ⟨hreset, ?_⟩
      have ht : (returnFromKeys s).location ≠ .loadRight :=
        returnFromKeys_ne (by decide) (by decide) s
      exact stored_eq_readNext (by simp [hloc]) ht rfl rfl rfl (by simp)
  | playStarted hloc =>
      refine Or.inr ⟨by simp [Resets], ?_⟩
      have ht : (returnFromKeys { s with play := true }).location ≠ .loadRight :=
        returnFromKeys_ne (by decide) (by decide) _
      exact stored_eq_readNext (by simp [hloc]) ht rfl rfl rfl (by simp)
  | passEntered value hloc =>
      have hs : s.location ≠ .loadRight := by
        rcases hloc with ⟨hloc, -⟩ | hloc <;> simp [hloc]
      exact Or.inr ⟨by simp [Resets], stored_eq_readNext hs (by simp) rfl rfl rfl (by simp)⟩
  | innerLeft value hloc =>
      have hs : s.location ≠ .loadRight := by
        rcases hloc with hloc | hloc <;> simp [hloc]
      exact Or.inr ⟨by simp [Resets], stored_eq_readNext hs (by simp) rfl rfl rfl (by simp)⟩
  | keyLoaded value hloc | cleared hloc | started hloc | clearedOut hloc =>
      refine Or.inr ⟨by simp [Resets, hloc], ?_⟩
      exact stored_eq_readNext (by simp [hloc]) (by simp) rfl rfl rfl (by simp)

/-- The index where the program may store with it and where it is full. -/
structure Bounded (s : State) : Prop where
  inside : s.location = .loadLeft ∨ s.location = .loadRight → s.bufferIndex < bufSize
  filled : s.location = .analysis → s.bufferIndex = bufSize

theorem Bounded.of_ne {s : State} (hleft : s.location ≠ .loadLeft)
    (hright : s.location ≠ .loadRight) (hanalysis : s.location ≠ .analysis) : Bounded s where
  inside hloc := by
    rcases hloc with h | h
    · exact absurd h hleft
    · exact absurd h hright
  filled hloc := absurd hloc hanalysis

theorem bounded_returnFromKeys (s : State) : Bounded (returnFromKeys s) :=
  .of_ne (returnFromKeys_ne (by decide) (by decide) s)
    (returnFromKeys_ne (by decide) (by decide) s) (returnFromKeys_ne (by decide) (by decide) s)

theorem Bounded.move {s t : State} {e : Event} (h : Bounded s) (hmove : Moves s e t) :
    Bounded t := by
  cases hmove with
  | keyHeld => exact h
  | otherKeys => exact bounded_returnFromKeys s
  | playStarted => exact bounded_returnFromKeys { s with play := true }
  | passEntered value hloc hvalue hindex => exact ⟨fun _ => hindex, by simp⟩
  | leftStored value hloc => exact ⟨fun _ => h.inside (Or.inl hloc), by simp⟩
  | bufferFilled value hloc hindex => exact ⟨by simp, fun _ => hindex⟩
  | _ => exact .of_ne (by simp) (by simp) (by simp)

/-- The machine before its first reset. -/
def Untouched (s : State) : Prop :=
  s.record = false ∧ (s.location = .loadKey ∨ s.location = .waitRelease)

theorem Untouched.move {s t : State} {e : Event} (h : Untouched s) (hmove : Moves s e t)
    (hreset : ¬ Resets s e) : Untouched t := by
  obtain ⟨hrecord, hloc⟩ := h
  cases hmove with
  | keyLoaded => exact ⟨hrecord, Or.inr rfl⟩
  | keyHeld => exact ⟨hrecord, hloc⟩
  | otherKeys => exact ⟨hrecord, Or.inl (by simp [returnFromKeys, hrecord])⟩
  | key0 hs hkey | key1 hs hkey => exact absurd (Or.inr ⟨rfl, hs, by simp [hkey]⟩) hreset
  | passEntered value hs => rcases hs with ⟨hs, -⟩ | hs <;> simp [hs] at hloc
  | innerLeft value hs => rcases hs with hs | hs <;> simp [hs] at hloc
  | cleared hs | started hs | clearedOut hs | playStarted hs | leftStored value hs
  | rightStored value hs | bufferFilled value hs | analysed hs => simp [hs] at hloc

section Start

variable (start : State)

/-- Since the last reset exactly the pairs in the buffers were read. -/
def HoldsPairs (history : List Event) (s : State) : Prop :=
  SinceStep step Resets start (fun after => reads after = stored s) history

variable {start}

theorem HoldsPairs.reset {history : List Event} {s t : State} {e : Event}
    (hrun : run step start history = some s) (hstep : step s e = some t)
    (hreset : Resets s e) (hindex : t.bufferIndex = 0) (hloc : t.location ≠ .loadRight) :
    HoldsPairs start (history ++ [e]) t :=
  .here hrun hstep hreset (stored_of_index_zero hindex hloc).symm

theorem HoldsPairs.extend {history : List Event} {s t : State} {e : Event}
    (h : HoldsPairs start history s) (hrun : run step start history = some s)
    (hreset : ¬ Resets s e) (hstored : stored t = readNext (stored s) e) :
    HoldsPairs start (history ++ [e]) t := by
  refine SinceStep.extend h hrun hreset fun after hafter => ?_
  rw [reads_append_singleton, hafter, hstored]

theorem HoldsPairs.move {history : List Event} {s t : State} {e : Event}
    (h : HoldsPairs start history s) (hrun : run step start history = some s)
    (hstep : step s e = some t) : HoldsPairs start (history ++ [e]) t := by
  rcases reset_or_stored (moves_of_step hstep) with ⟨hreset, hindex, hloc⟩ | ⟨hreset, hstored⟩
  · exact .reset hrun hstep hreset hindex hloc
  · exact h.extend hrun hreset hstored

theorem HoldsPairs.of_untouched {history : List Event} {s t : State} {e : Event}
    (h : Untouched s) (hrun : run step start history = some s) (hstep : step s e = some t) :
    Untouched t ∨ HoldsPairs start (history ++ [e]) t := by
  rcases reset_or_stored (moves_of_step hstep) with ⟨hreset, hindex, hloc⟩ | ⟨hreset, -⟩
  · exact Or.inr (.reset hrun hstep hreset hindex hloc)
  · exact Or.inl (h.move (moves_of_step hstep) hreset)

theorem holdsPairs_of_run (hstart : Untouched start) {events : List Event} {t : State}
    (hrun : run step start events = some t) :
    Untouched t ∨ HoldsPairs start events t := by
  refine run_invariant (P := fun history s => Untouched s ∨ HoldsPairs start history s)
    (Or.inl hstart) ?_ hrun
  intro history s e u hbefore hs hstep
  rcases hs with huntouched | hpairs
  · exact HoldsPairs.of_untouched huntouched hbefore hstep
  · exact Or.inr (hpairs.move hbefore hstep)

theorem readPairs_of_reset (before : List Event) {e : Event} (after : List Event) {s : State}
    (hreset : Resets s e) :
    readPairs (before ++ e :: after) = readPairs (before ++ [e]) ++ readPairs after := by
  have hpending : (reads (before ++ [e])).2 = none := by
    rw [reads_append_singleton]
    rcases hreset with rfl | ⟨rfl, -, -⟩ <;> rfl
  have hsplit : reads (before ++ e :: after) =
      after.foldl readNext ((reads (before ++ [e])).1, none) := by
    rw [← hpending, reads, List.append_cons, List.foldl_append]
    rfl
  rw [readPairs, hsplit, foldl_readNext]
  rfl

end Start

def recorded (s : State) : List (Int × Int) :=
  (List.range bufSize).map fun i => (s.leftBuffer i, s.rightBuffer i)

/-- The index stays inside the buffers at every store, and every normalized
recording consists of the last pairs that were read, all of them read after the
last reset of the index. -/
theorem recordedPairs {keyValue fifospace : BitVec 32} {leftBuffer rightBuffer : Nat → Int}
    {events : List Event} {t : State}
    (hrun : run step (atStart keyValue fifospace leftBuffer rightBuffer) events = some t) :
    (t.location = .loadLeft ∨ t.location = .loadRight → t.bufferIndex < bufSize) ∧
      (t.location = .analysis →
        SinceStep step Resets (atStart keyValue fifospace leftBuffer rightBuffer)
            (fun after => readPairs after = recorded t) events ∧
          ∃ earlier, readPairs events = earlier ++ recorded t) := by
  have hbounded : Bounded t := by
    refine state_invariant (Bounded.of_ne ?_ ?_ ?_) ?_ hrun
    · simp [atStart]
    · simp [atStart]
    · simp [atStart]
    · intro s e u hs hstep
      exact hs.move (moves_of_step hstep)
  refine ⟨hbounded.inside, fun hloc => ?_⟩
  rcases holdsPairs_of_run ⟨rfl, Or.inl rfl⟩ hrun with ⟨-, huntouched⟩ | hpairs
  · rcases huntouched with h | h <;> simp [hloc] at h
  · obtain ⟨before, e, after, s, u, rfl, hbefore, hstep, hreset, hnone, hreads⟩ := hpairs
    have hafter : readPairs after = recorded t := by
      have hright : t.location ≠ .loadRight := by simp [hloc]
      simp only [readPairs, hreads, stored_of_ne hright, hbounded.filled hloc, recorded]
    refine ⟨⟨before, e, after, s, u, rfl, hbefore, hstep, hreset, hnone, hafter⟩, ?_⟩
    exact ⟨readPairs (before ++ [e]), by rw [readPairs_of_reset before after hreset, hafter]⟩

theorem recordedPairs_fillBuffer :
    ∃ t, run step quietStart (pressKey0 ++ fillBuffer 5) = some t ∧ t.location = .analysis ∧
      SinceStep step Resets quietStart (fun after => readPairs after = recorded t)
        (pressKey0 ++ fillBuffer 5) := by
  obtain ⟨t, hfill, hloc, -, -⟩ := @run_fillBuffer recordingStarted rfl rfl 5
  have hrun : run step quietStart (pressKey0 ++ fillBuffer 5) = some t := by
    rw [run_append_of_eq run_pressKey0, hfill]
  exact ⟨t, hrun, hloc, ((recordedPairs hrun).2 hloc).1⟩

end RockPaperScissors.RecordedPairs
