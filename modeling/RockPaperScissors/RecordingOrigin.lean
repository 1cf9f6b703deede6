import RockPaperScissors.Library.EventHistory
import RockPaperScissors.RecordLoop
import Mathlib.Data.List.Range
import Mathlib.Data.Set.Function

namespace RockPaperScissors.RecordingOrigin

open RockPaperScissors.Library.EventHistory
open RockPaperScissors.Library.LabelledRun
open RockPaperScissors.RecordLoop

def leftLoads (events : List Event) : List Int :=
  events.filterMap fun
    | .loadLeft value => some value.toInt
    | _ => none

/-- A different KEY0 press for every analysis, whose first `bufSize` left
samples are what the analysis finds in the buffer. -/
def OneRecordingPerPress (s : State) (events : List Event) : Prop :=
  ∃ press : Nat → Nat, Set.InjOn press {a | events[a]? = some .analyse} ∧
    ∀ a t, events[a]? = some .analyse → run step s (events.take a) = some t →
      press a < a ∧ events[press a]? = some (.storeControl 0x4) ∧
        (leftLoads ((events.take a).drop (press a + 1))).take bufSize =
          (List.range bufSize).map t.leftBuffer

/-- KEY1 has not been handled after a left sample was read. -/
def Undisturbed (events : List Event) : Prop :=
  ∀ before after, events = before ++ .storeControl 0x8 :: after → leftLoads before = []

/-- KEY0 has been pressed since the last analysis, and KEY1 has not been since
the first sample that was read for this press. -/
def StartedByPress (history : List Event) : Prop :=
  ∃ before after, history = before ++ .storeControl 0x4 :: after ∧
    .analyse ∉ after ∧ Undisturbed after

@[simp] theorem leftLoads_append (events more : List Event) :
    leftLoads (events ++ more) = leftLoads events ++ leftLoads more :=
  List.filterMap_append

theorem Undisturbed.of_append {events more : List Event} (h : Undisturbed (events ++ more)) :
    Undisturbed events := by
  rintro before after rfl
  exact h before (after ++ more) (by simp)

theorem Undisturbed.of_suffix {events more : List Event} (h : Undisturbed (events ++ more)) :
    Undisturbed more := by
  rintro before after rfl
  have hall := h (events ++ before) after (by simp)
  simpa using (List.append_eq_nil_iff.mp (leftLoads_append events before ▸ hall)).2

def leftStored (s : State) : Nat :=
  if s.location = .loadRight then s.bufferIndex + 1 else s.bufferIndex

theorem leftStored_of_ne {s : State} (hloc : s.location ≠ .loadRight) :
    leftStored s = s.bufferIndex :=
  if_neg hloc

theorem leftStored_returnFromKeys (s : State) :
    leftStored (returnFromKeys s) = s.bufferIndex := by
  rcases returnFromKeys_location s with ⟨hloc, -⟩ | ⟨hloc, -⟩ <;> simp [leftStored, hloc]

/-- The left buffer begins with the samples read in `events`, unless these
were disturbed.  Nothing is said on the way to the handling of KEY1. -/
def Content (s : State) (events : List Event) : Prop :=
  .analyse ∉ events ∧ (s.location ≠ .clearOut → Undisturbed events →
    leftLoads events = (List.range (leftStored s)).map s.leftBuffer)

theorem Content.nil {s : State} (hstored : leftStored s = 0) : Content s [] := by
  refine ⟨List.not_mem_nil, fun _ _ => ?_⟩
  rw [hstored]
  rfl

theorem Content.extend {s t : State} {events : List Event} {e : Event} (h : Content s events)
    (he : e ≠ .analyse) (hload : leftLoads [e] = []) (hloc : s.location ≠ .clearOut)
    (hstored : leftStored t = leftStored s) (hbuffer : t.leftBuffer = s.leftBuffer) :
    Content t (events ++ [e]) := by
  refine ⟨by simp [h.1, he.symm], fun _ hundisturbed => ?_⟩
  rw [leftLoads_append, hload, List.append_nil, hstored, hbuffer]
  exact h.2 hloc hundisturbed.of_append

theorem Content.at_clearOut {s t : State} {events : List Event} {e : Event}
    (h : Content s events) (he : e ≠ .analyse) (hloc : t.location = .clearOut) :
    Content t (events ++ [e]) :=
  ⟨by simp [h.1, he.symm], fun hne => absurd hloc hne⟩

theorem Content.clearedOut {s t : State} {events : List Event} (h : Content s events)
    (hstored : leftStored t = 0) : Content t (events ++ [.storeControl 0x8]) := by
  refine ⟨by simp [h.1], fun _ hundisturbed => ?_⟩
  have hnone : leftLoads events = [] := hundisturbed events [] rfl
  rw [leftLoads_append, hnone, hstored]
  rfl

theorem Content.loaded {s : State} {events : List Event} (value : BitVec 32)
    (h : Content s events) (hloc : s.location = .loadLeft) :
    Content { s with
      leftBuffer := Function.update s.leftBuffer s.bufferIndex value.toInt
      location := .loadRight } (events ++ [.loadLeft value]) := by
  refine ⟨by simp [h.1], fun _ hundisturbed => ?_⟩
  have hbefore := h.2 (by simp [hloc]) hundisturbed.of_append
  have hstored : leftStored s = s.bufferIndex := by simp [leftStored, hloc]
  rw [leftLoads_append, hbefore, hstored]
  simp only [leftStored, if_true, List.range_succ, List.map_append, List.map_cons, List.map_nil,
    Function.update_self]
  congr 1
  refine List.map_congr_left fun i hi => ?_
  rw [Function.update_of_ne (List.mem_range.mp hi).ne]

structure Indexed (s : State) : Prop where
  handling : s.location = .clearIn ∨ s.location = .releaseIn ∨ s.location = .clearOut ∨
    s.location = .releaseOut → s.bufferIndex = 0
  filled : s.location = .analysis → s.bufferIndex = bufSize

theorem indexed_returnFromKeys (s : State) : Indexed (returnFromKeys s) where
  handling hloc := by
    rcases returnFromKeys_location s with ⟨h, -⟩ | ⟨h, -⟩ <;> simp [h] at hloc
  filled hloc := absurd hloc (returnFromKeys_ne (by decide) (by decide) s)

theorem Indexed.move {s t : State} {e : Event} (h : Indexed s) (hmove : Moves s e t) :
    Indexed t := by
  cases hmove with
  | keyHeld => exact h
  | otherKeys => exact indexed_returnFromKeys s
  | playStarted => exact indexed_returnFromKeys { s with play := true }
  | cleared hloc =>
      refine ⟨fun _ => ?_, by simp⟩
      exact h.handling (Or.inl hloc)
  | clearedOut hloc =>
      refine ⟨fun _ => ?_, by simp⟩
      exact h.handling (Or.inr (Or.inr (Or.inl hloc)))
  | bufferFilled value hloc hindex => exact ⟨by simp, fun _ => hindex⟩
  | _ => exact ⟨by simp, by simp⟩

theorem Content.move {s t : State} {events : List Event} {e : Event} (h : Content s events)
    (hindexed : Indexed s) (hmove : Moves s e t) (hclear : t.location ≠ .clearIn)
    (he : e ≠ .analyse) : Content t (events ++ [e]) := by
  cases hmove with
  | key0 => exact absurd rfl hclear
  | analysed => exact absurd rfl he
  | key1 => exact h.at_clearOut he rfl
  | clearedOut hloc =>
      have hindex : s.bufferIndex = 0 := hindexed.handling (Or.inr (Or.inr (Or.inl hloc)))
      exact h.clearedOut (by simp [leftStored, hindex])
  | leftStored value hloc => exact h.loaded value hloc
  | keyHeld value hloc => exact h.extend he rfl (by simp [hloc]) rfl rfl
  | otherKeys hloc | playStarted hloc =>
      have hstored : leftStored s = s.bufferIndex := leftStored_of_ne (by simp [hloc])
      exact h.extend he rfl (by simp [hloc])
        ((leftStored_returnFromKeys _).trans hstored.symm) rfl
  | passEntered value hloc =>
      rcases hloc with ⟨hloc, -⟩ | hloc
      · exact h.extend he rfl (by simp [hloc]) (by simp [leftStored, hloc]) rfl
      · exact h.extend he rfl (by simp [hloc]) (by simp [leftStored, hloc]) rfl
  | innerLeft value hloc =>
      rcases hloc with hloc | hloc
      · exact h.extend he rfl (by simp [hloc]) (by simp [leftStored, hloc]) rfl
      · exact h.extend he rfl (by simp [hloc]) (by simp [leftStored, hloc]) rfl
  | keyLoaded value hloc | cleared hloc | started hloc | rightStored value hloc
  | bufferFilled value hloc =>
      exact h.extend he rfl (by simp [hloc]) (by simp [leftStored, hloc]) rfl

/-- KEY0 has been pressed, and its recording is not over yet. -/
def UnderWay (s : State) : Prop :=
  s.record = true ∧ s.location ≠ .clearIn ∨ s.location = .releaseIn

theorem record_of_returnFromKeys {s : State} (h : UnderWay (returnFromKeys s)) :
    s.record = true := by
  rcases h with ⟨hrecord, -⟩ | hrelease
  · exact hrecord
  · exact absurd hrelease (returnFromKeys_ne (by decide) (by decide) s)

theorem UnderWay.ne_clearIn {s : State} (h : UnderWay s) : s.location ≠ .clearIn := by
  rcases h with ⟨-, hloc⟩ | hloc
  · exact hloc
  · simp [hloc]

theorem UnderWay.ne_analyse {s t : State} {e : Event} (h : UnderWay t) (hmove : Moves s e t) :
    e ≠ .analyse := by
  rintro rfl
  cases hmove with
  | analysed => simp [UnderWay] at h

theorem UnderWay.of_move {s t : State} {e : Event} (h : UnderWay t) (hmove : Moves s e t)
    (hclear : e ≠ .storeControl 0x4) : UnderWay s := by
  cases hmove with
  | cleared => exact absurd rfl hclear
  | started hloc => exact Or.inr hloc
  | keyHeld => exact h
  | otherKeys hloc | playStarted hloc =>
      exact Or.inl ⟨record_of_returnFromKeys h, by simp [hloc]⟩
  | passEntered value hloc =>
      have hrecord : s.record = true := by simpa [UnderWay] using h
      rcases hloc with ⟨hloc, -⟩ | hloc
      · exact Or.inl ⟨hrecord, by simp [hloc]⟩
      · exact Or.inl ⟨hrecord, by simp [hloc]⟩
  | innerLeft value hloc =>
      have hrecord : s.record = true := by simpa [UnderWay] using h
      rcases hloc with hloc | hloc
      · exact Or.inl ⟨hrecord, by simp [hloc]⟩
      · exact Or.inl ⟨hrecord, by simp [hloc]⟩
  | key0 | analysed => exact absurd h (by simp [UnderWay])
  | keyLoaded value hloc | key1 hloc | clearedOut hloc | leftStored value hloc
  | rightStored value hloc | bufferFilled value hloc =>
      have hrecord : s.record = true := by simpa [UnderWay] using h
      exact Or.inl ⟨hrecord, by simp [hloc]⟩

structure Origin (history : List Event) (s : State) : Prop where
  indexed : Indexed s
  idle : s.record = false → s.location ≠ .releaseIn →
    FollowedBy (.storeControl 0x4) .analyse history
  started : s.record = true ∧ s.location ≠ .clearIn ∨ s.location = .releaseIn →
    SinceLast (.storeControl 0x4) (Content s) history

theorem Origin.idle_move {history : List Event} {s t : State} {e : Event}
    (h : Origin history s) (hmove : Moves s e t) (hrecord : t.record = false)
    (hrelease : t.location ≠ .releaseIn) :
    FollowedBy (.storeControl 0x4) .analyse (history ++ [e]) := by
  cases hmove with
  | cleared => exact absurd rfl hrelease
  | started => exact absurd hrecord (by simp)
  | analysed => exact .last (by simp)
  | keyHeld value hloc =>
      exact (h.idle hrecord (by simp [hloc])).extend (by simp)
  | keyLoaded value hloc | key0 hloc | key1 hloc | otherKeys hloc
  | clearedOut hloc | playStarted hloc | leftStored value hloc
  | rightStored value hloc | bufferFilled value hloc =>
      exact (h.idle hrecord (by simp [hloc])).extend (by simp)
  | passEntered value hloc =>
      have hne : s.location ≠ .releaseIn := by rcases hloc with ⟨hloc, -⟩ | hloc <;> simp [hloc]
      exact (h.idle hrecord hne).extend (by simp)
  | innerLeft value hloc =>
      have hne : s.location ≠ .releaseIn := by rcases hloc with hloc | hloc <;> simp [hloc]
      exact (h.idle hrecord hne).extend (by simp)

theorem Origin.started_move {history : List Event} {s t : State} {e : Event}
    (h : Origin history s) (hmove : Moves s e t) (hunderWay : UnderWay t) :
    SinceLast (.storeControl 0x4) (Content t) (history ++ [e]) := by
  by_cases hclear : e = .storeControl 0x4
  · subst hclear
    cases hmove with
    | cleared hloc =>
        have hindex : s.bufferIndex = 0 := h.indexed.handling (Or.inl hloc)
        exact SinceLast.mark (Content.nil (by simp [leftStored, hindex]))
  · have hbefore : UnderWay s := hunderWay.of_move hmove hclear
    refine (h.started hbefore).extend (Ne.symm hclear) fun after hcontent => ?_
    exact hcontent.move h.indexed hmove hunderWay.ne_clearIn (hunderWay.ne_analyse hmove)

theorem Origin.move {history : List Event} {s t : State} {e : Event}
    (h : Origin history s) (hmove : Moves s e t) : Origin (history ++ [e]) t where
  indexed := h.indexed.move hmove
  idle := h.idle_move hmove
  started := h.started_move hmove

theorem origin_atStart (keyValue fifospace : BitVec 32) (leftBuffer rightBuffer : Nat → Int) :
    Origin [] (atStart keyValue fifospace leftBuffer rightBuffer) where
  indexed := ⟨by simp [atStart], by simp [atStart]⟩
  idle _ _ := .nil
  started := by simp [atStart]

theorem Origin.of_run {keyValue fifospace : BitVec 32} {leftBuffer rightBuffer : Nat → Int}
    {events : List Event} {t : State}
    (hrun : run step (atStart keyValue fifospace leftBuffer rightBuffer) events = some t) :
    Origin events t := by
  refine run_invariant (P := Origin)
    (origin_atStart keyValue fifospace leftBuffer rightBuffer) ?_ hrun
  intro labels t e u _ ht hstep
  exact ht.move (moves_of_step hstep)

theorem Origin.exists_press {history : List Event} {s : State} (h : Origin history s)
    (hloc : s.location = .analysis) (hpress : StartedByPress history) :
    ∃ before after, history = before ++ .storeControl 0x4 :: after ∧ .analyse ∉ after ∧
      leftLoads after = (List.range bufSize).map s.leftBuffer := by
  obtain ⟨before, after, hsplit, hanalyse, hundisturbed⟩ := hpress
  have hrec : s.record = true := by
    rw [← Bool.not_eq_false]
    intro hrec
    exact hanalyse (h.idle hrec (by simp [hloc]) before after hsplit)
  have hsince := h.started (Or.inl ⟨hrec, by simp [hloc]⟩)
  obtain ⟨front, last, hcontent, -, hhistory, hlast⟩ := hsince.exists_of_split hsplit
  have hstill : Undisturbed last := by
    rcases hlast with rfl | ⟨between, rfl⟩
    · exact hundisturbed
    · have hsuffix : between ++ .storeControl 0x4 :: last =
          (between ++ [.storeControl 0x4]) ++ last := by simp
      exact (hsuffix ▸ hundisturbed).of_suffix
  have hload := hcontent.2 (by simp [hloc]) hstill
  rw [leftStored_of_ne (by simp [hloc]), h.indexed.filled hloc] at hload
  exact ⟨front, last, hhistory, hcontent.1, hload⟩

theorem exists_press_of_analysis {keyValue fifospace : BitVec 32}
    {leftBuffer rightBuffer : Nat → Int} {events : List Event} {u : State}
    (hrun : run step (atStart keyValue fifospace leftBuffer rightBuffer) events = some u)
    (hpress : ∀ before after, events = before ++ .analyse :: after → StartedByPress before)
    {a : Nat} (ha : events[a]? = some .analyse) :
    ∃ k, k < a ∧ events[k]? = some (.storeControl 0x4) ∧
      (∀ j, k < j → j < a → events[j]? ≠ some .analyse) ∧
      ∀ t, run step (atStart keyValue fifospace leftBuffer rightBuffer) (events.take a) =
          some t →
        leftLoads ((events.take a).drop (k + 1)) = (List.range bufSize).map t.leftBuffer := by
  obtain ⟨hlt, hget⟩ := List.getElem?_eq_some_iff.mp ha
  have hsplit : events = events.take a ++ .analyse :: events.drop (a + 1) := by
    rw [← hget, List.cons_getElem_drop_succ, List.take_append_drop]
  rw [hsplit] at hrun
  obtain ⟨t, hbefore, hafter⟩ := exists_run_of_append hrun
  obtain ⟨v, hstep, -⟩ := run_cons_eq_some.mp hafter
  have hloc : t.location = .analysis := by
    cases moves_of_step hstep with
    | analysed hloc => exact hloc
  obtain ⟨before, after, htake, hanalyse, hload⟩ :=
    (Origin.of_run hbefore).exists_press hloc (hpress _ _ hsplit)
  have hlength : before.length + (after.length + 1) = a := by
    have hall := congrArg List.length htake
    rw [List.length_take_of_le hlt.le] at hall
    simpa using hall.symm
  have hget? : ∀ j, j < a → events[j]? = (before ++ .storeControl 0x4 :: after)[j]? := by
    intro j hj
    rw [← htake, List.getElem?_take_of_lt hj]
  refine ⟨before.length, by omega, ?_, ?_, ?_⟩
  · rw [hget? _ (by omega)]
    simp
  · intro j hk hj hanalysis
    rw [hget? j hj, List.getElem?_append_right hk.le, List.getElem?_cons] at hanalysis
    rw [if_neg (by omega)] at hanalysis
    exact hanalyse (List.mem_of_getElem? hanalysis)
  · intro t' hrun'
    obtain rfl : t = t' := Option.some.inj (hbefore.symm.trans hrun')
    rw [← hload, htake]
    simp

/-- Every analysis that follows a press of KEY0, undisturbed by KEY1, is of the
first samples read after that press. -/
theorem oneRecordingPerPress {keyValue fifospace : BitVec 32}
    {leftBuffer rightBuffer : Nat → Int} {events : List Event} {u : State}
    (hrun : run step (atStart keyValue fifospace leftBuffer rightBuffer) events = some u)
    (hpress : ∀ before after, events = before ++ .analyse :: after → StartedByPress before) :
    OneRecordingPerPress (atStart keyValue fifospace leftBuffer rightBuffer) events := by
  choose! press hpressed using fun a (ha : events[a]? = some Event.analyse) =>
    exists_press_of_analysis hrun hpress ha
  refine ⟨press, ?_, ?_⟩
  · intro a ha b hb hab
    obtain ⟨hka, -, hbetween, -⟩ := hpressed a ha
    obtain ⟨hkb, -, hbetween', -⟩ := hpressed b hb
    -- Of two analyses with one press the later one would have the other after its press.
    rcases lt_trichotomy a b with hlt | heq | hlt
    · exact absurd ha (hbetween' a (hab ▸ hka) hlt)
    · exact heq
    · exact absurd hb (hbetween b (hab ▸ hkb) hlt)
  · intro a t ha hrun'
    obtain ⟨hka, hclear, -, hload⟩ := hpressed a ha
    refine ⟨hka, hclear, ?_⟩
    rw [hload t hrun', List.take_of_length_le (by simp)]

def pressKey1 : List Event :=
  [.loadKey 0x2, .loadKey 0, .storeControl 0x8, .storeControl 0x0, .loadFifospace 97]

theorem oneRecordingPerPress_fillBuffer :
    (∃ u, run step quietStart (pressKey0 ++ fillBuffer 5 ++ [.analyse]) = some u) ∧
      (∀ before after, pressKey0 ++ fillBuffer 5 ++ [.analyse] = before ++ .analyse :: after →
        StartedByPress before) ∧
      OneRecordingPerPress quietStart (pressKey0 ++ fillBuffer 5 ++ [.analyse]) := by
  obtain ⟨t, hfill, hloc, -, -⟩ := @run_fillBuffer recordingStarted rfl rfl 5
  have hrun : run step quietStart (pressKey0 ++ fillBuffer 5 ++ [.analyse]) =
      some { t with record := false, bufferIndex := 0, location := .reloadFifospace } := by
    rw [List.append_assoc, run_append_of_eq run_pressKey0, run_append_of_eq hfill]
    simp [run_cons, step, hloc]
  have hpress : ∀ before after, pressKey0 ++ fillBuffer 5 ++ [.analyse] =
      before ++ .analyse :: after → StartedByPress before := by
    intro before after hsplit
    have hnot : .analyse ∉ pressKey0 ++ fillBuffer 5 := by
      simp [pressKey0, analyse_not_mem_fillBuffer]
    obtain ⟨rfl, -, -⟩ := (List.append_cons_inj_of_notMem hnot List.not_mem_nil).mp hsplit
    refine ⟨[.loadKey 0x1, .loadKey 0], [.storeControl 0x0, .loadFifospace 97] ++ fillBuffer 5,
      rfl, by simp [analyse_not_mem_fillBuffer], ?_⟩
    intro front back hback
    have hmem : .storeControl 0x8 ∈ [.storeControl 0x0, .loadFifospace 97] ++ fillBuffer 5 := by
      rw [hback]
      simp
    exact absurd hmem (by simp [storeControl_not_mem_fillBuffer])
  exact ⟨⟨_, hrun⟩, hpress, oneRecordingPerPress hrun hpress⟩

/-- A recording that has read the sample 7 and is started again by KEY1. -/
def restarted : List Event :=
  pressKey0 ++ [.loadLeft 7, .loadRight 0, .loadFifospace 0] ++ pressKey1

theorem eq_two_of_getElem?_restarted {k : Nat}
    (h : (restarted ++ fillBuffer 0 ++ [.analyse])[k]? = some (.storeControl 0x4)) : k = 2 := by
  have hall : ∀ k < restarted.length, restarted[k]? = some (.storeControl 0x4) → k = 2 := by
    decide
  rw [List.append_assoc] at h
  rcases lt_or_ge k restarted.length with hlt | hge
  · rw [List.getElem?_append_left hlt] at h
    exact hall k hlt h
  · rw [List.getElem?_append_right hge] at h
    exact absurd (List.mem_of_getElem? h) (by simp [storeControl_not_mem_fillBuffer])

/-- The recording begins with a sample that is not the first one read after
the only press of KEY0. -/
theorem not_oneRecordingPerPress_restarted :
    (∃ u, run step quietStart (restarted ++ fillBuffer 0 ++ [.analyse]) = some u) ∧
      ¬ OneRecordingPerPress quietStart (restarted ++ fillBuffer 0 ++ [.analyse]) := by
  have hstart : run step quietStart restarted = some { quietStart with
      location := .loadLeft, record := true, play := true, keyValue := 2, fifospace := 97
      leftBuffer := Function.update quietStart.leftBuffer 0 7
      rightBuffer := Function.update quietStart.rightBuffer 0 0 } :=
    rfl
  obtain ⟨t, hfill, hloc, -, hbuffer⟩ := run_fillBuffer (s := { quietStart with
    location := .loadLeft, record := true, play := true, keyValue := 2, fifospace := 97
    leftBuffer := Function.update quietStart.leftBuffer 0 7
    rightBuffer := Function.update quietStart.rightBuffer 0 0 }) rfl rfl 0
  have hbefore : run step quietStart (restarted ++ fillBuffer 0) = some t := by
    rw [run_append_of_eq hstart, hfill]
  constructor
  · refine ⟨{ t with record := false, bufferIndex := 0, location := .reloadFifospace }, ?_⟩
    rw [run_append_of_eq hbefore]
    simp [run_cons, step, hloc]
  · rintro ⟨press, -, hpress⟩
    have htake : (restarted ++ fillBuffer 0 ++ [Event.analyse]).take
        (restarted ++ fillBuffer 0).length = restarted ++ fillBuffer 0 := List.take_left
    obtain ⟨-, hclear, hload⟩ := hpress (restarted ++ fillBuffer 0).length t (by simp)
      (by rw [htake, hbefore])
    rw [eq_two_of_getElem?_restarted hclear, htake] at hload
    have hfirst := congrArg List.head? hload
    have hread : leftLoads ((restarted ++ fillBuffer 0).drop 3) =
        7 :: leftLoads ([.loadRight 0, .loadFifospace 0] ++ pressKey1 ++ fillBuffer 0) := rfl
    rw [hread, List.head?_take, List.head?_map, List.head?_range] at hfirst
    have hzero := hbuffer 0 (by decide)
    simp [bufSize, hzero] at hfirst

end RockPaperScissors.RecordingOrigin
