import RockPaperScissors.AlignedReads
import RockPaperScissors.AudioRefinement
import RockPaperScissors.RecordedPairs

namespace RockPaperScissors.DeliveredSamples

open RockPaperScissors.Library.BoundedFifo
open RockPaperScissors.Library.LabelledRun
open RockPaperScissors.SampleNormalization
open RockPaperScissors.RecordLoop
open RockPaperScissors.AudioCore
open RockPaperScissors.FilledReads
open RockPaperScissors.AlignedReads
open RockPaperScissors.AudioRefinement (fifoOf loadOf push_spec access_loadOf eventOf sampleOf)
open RockPaperScissors.RecordedPairs

section Samples

def valueOf (sample : BitVec 16) : Int := (readdata sample).toInt

/-- The left samples, each with the right sample that arrived next. -/
def deliveredPairs : List (Channel × BitVec 16) → List (Int × Int)
  | (.left, left) :: (.right, right) :: rest =>
      (valueOf left, valueOf right) :: deliveredPairs rest
  | _ => []

def samplesOf (channel : Channel) (samples : List (Channel × BitVec 16)) : List (BitVec 16) :=
  samples.filterMap fun x => if x.1 = channel then some x.2 else none

/-- The channels take turns, and the last one is followed by `next`. -/
def TakesTurns (next : Channel) : Channel → List (Channel × BitVec 16) → Prop
  | channel, [] => channel = next
  | channel, x :: rest => x.1 = channel ∧ TakesTurns next channel.other rest

theorem TakesTurns.append {next channel : Channel} {samples : List (Channel × BitVec 16)}
    (h : TakesTurns next channel samples) (sample : BitVec 16) :
    TakesTurns next.other channel (samples ++ [(next, sample)]) := by
  induction samples generalizing channel with
  | nil =>
      obtain rfl : channel = next := h
      exact ⟨rfl, rfl⟩
  | cons x rest ih => exact ⟨h.1, ih h.2⟩

/-- Where the channels take turns from the left one on, the pairs are the left
samples with the right ones in order. -/
theorem deliveredPairs_eq_zip {next : Channel} :
    ∀ {samples : List (Channel × BitVec 16)}, TakesTurns next .left samples →
      deliveredPairs samples =
        ((samplesOf .left samples).map valueOf).zip ((samplesOf .right samples).map valueOf)
  | [], _ => rfl
  | [x], h => by
      obtain ⟨channel, sample⟩ := x
      obtain rfl : channel = .left := h.1
      rfl
  | x :: y :: rest, h => by
      obtain ⟨channel, left⟩ := x
      obtain ⟨channel', right⟩ := y
      obtain rfl : channel = .left := h.1
      obtain rfl : channel' = .right := h.2.1
      have hrest := deliveredPairs_eq_zip h.2.2
      rw [deliveredPairs, hrest]
      rfl

end Samples

section Reads

theorem readNext_append (earlier pairs : List (Int × Int)) (pending : Option Int) (e : Event) :
    readNext (earlier ++ pairs, pending) e =
      (earlier ++ (readNext (pairs, pending) e).1, (readNext (pairs, pending) e).2) := by
  cases e <;> cases pending <;> simp [readNext]

/-- The index was set to 0 by an analysis or for a playback, or the FIFOs are
about to be cleared. -/
def StartsAgain (events : List Event) (s : State) : Prop :=
  .analyse ∈ events ∨ .storeControl 0x8 ∈ events ∨ s.location = .clearIn ∨ s.location = .clearOut

theorem startsAgain_of_resets {s t : State} {e : Event} (hmove : Moves s e t)
    (hreset : Resets s e) (events : List Event) : StartsAgain (events ++ [e]) t := by
  rcases hreset with rfl | ⟨rfl, hloc, hkey⟩
  · exact .inl (by simp)
  · cases hmove with
    | keyLoaded value h => simp [hloc] at h
    | keyHeld value h hvalue => exact absurd rfl hvalue
    | key0 => exact .inr (.inr (.inl rfl))
    | key1 => exact .inr (.inr (.inr rfl))
    | otherKeys h h0 h1 => exact (hkey.elim h0 h1).elim

def MadeAt (location : Location) : Event → Prop
  | .loadKey _ => location = .loadKey ∨ location = .waitRelease
  | .storeControl value =>
      location = .clearIn ∧ value = 0x4 ∨ location = .releaseIn ∧ value = 0x0 ∨
        location = .clearOut ∧ value = 0x8 ∨ location = .releaseOut ∧ value = 0x0
  | .loadFifospace _ => location = .loadFifospace ∨ location = .reloadFifospace
  | .loadLeft _ => location = .loadLeft
  | .loadRight _ => location = .loadRight
  | .analyse => location = .analysis

theorem madeAt_of_move {s t : State} {e : Event} (hmove : Moves s e t) : MadeAt s.location e := by
  cases hmove with
  | passEntered value hloc => exact hloc.imp_left And.left
  | innerLeft value hloc => exact hloc
  | keyLoaded value hloc | keyHeld value hloc | key0 hloc | key1 hloc | otherKeys hloc
  | cleared hloc | started hloc | clearedOut hloc | playStarted hloc | leftStored value hloc
  | rightStored value hloc | bufferFilled value hloc | analysed hloc => simp [MadeAt, hloc]

theorem location_of_clearIn {s t : State} {e : Event} (hmove : Moves s e t)
    (hclear : s.location = .clearIn) : t.location = .releaseIn := by
  have hmade := madeAt_of_move hmove
  rw [hclear] at hmade
  cases e <;> simp [MadeAt] at hmade
  cases hmove with
  | cleared => rfl
  | started hloc | clearedOut hloc | playStarted hloc => simp [hclear] at hloc

theorem event_of_clearOut {s t : State} {e : Event} (hmove : Moves s e t)
    (hclear : s.location = .clearOut) : e = .storeControl 0x8 := by
  have hmade := madeAt_of_move hmove
  rw [hclear] at hmade
  cases e <;> simp [MadeAt] at hmade
  exact congrArg Event.storeControl hmade

theorem loadRight_of_location {s t : State} {e : Event} (hmove : Moves s e t)
    (hloc : s.location = .loadRight) : ∃ value, e = .loadRight value := by
  have hmade := madeAt_of_move hmove
  rw [hloc] at hmade
  cases e <;> simp [MadeAt] at hmade
  exact ⟨_, rfl⟩

theorem storeControl_of_releaseIn {s t : State} {e : Event} (hmove : Moves s e t)
    (hloc : s.location = .releaseIn) : ∃ value, e = .storeControl value := by
  have hmade := madeAt_of_move hmove
  rw [hloc] at hmade
  cases e <;> simp [MadeAt] at hmade
  exact ⟨_, rfl⟩

theorem StartsAgain.move {s t : State} {e : Event} {events : List Event}
    (h : StartsAgain events s) (hmove : Moves s e t) (hread : MayRead t) :
    StartsAgain (events ++ [e]) t := by
  rcases h with hanalysed | hplayed | hclear | hclear
  · exact .inl (List.mem_append_left _ hanalysed)
  · exact .inr (.inl (List.mem_append_left _ hplayed))
  · exact absurd (location_of_clearIn hmove hclear) hread.1
  · rw [event_of_clearOut hmove hclear]
    exact .inr (.inl (by simp))

/-- The buffers hold the last of the pairs that were read, and all of them if
the index was not set to 0 again. -/
def HoldsLast (events : List Event) (s : State) : Prop :=
  ∃ earlier, reads events = (earlier ++ (stored s).1, (stored s).2) ∧
    (earlier = [] ∨ StartsAgain events s)

theorem HoldsLast.move {s t : State} {e : Event} {events : List Event} (h : HoldsLast events s)
    (hmove : Moves s e t) (hread : MayRead t) : HoldsLast (events ++ [e]) t := by
  obtain ⟨earlier, hreads, hearlier⟩ := h
  rcases reset_or_stored hmove with ⟨hreset, hindex, hloc⟩ | ⟨-, hstored⟩
  · refine ⟨(reads events).1, ?_, .inr (startsAgain_of_resets hmove hreset events)⟩
    rw [reads_append_singleton, stored_of_index_zero hindex hloc, List.append_nil]
    rcases hreset with rfl | ⟨rfl, -, -⟩ <;> rfl
  · refine ⟨earlier, ?_, hearlier.imp_right fun hagain => hagain.move hmove hread⟩
    rw [reads_append_singleton, hreads, readNext_append, ← hstored]

end Reads

section Conservation

theorem words_of_load {core : Core} {channel : Channel} {value : BitVec 32}
    (hanswers : core.Answers (loadOf channel value)) (hused : 0 < (fifoOf core channel).used) :
    ∃ sample, value = readdata sample ∧
      (fifoOf core channel).words = sample :: (fifoOf core channel).pop.words := by
  have hfirst := AudioRefinement.answers_loadOf.mp hanswers
  cases hwords : (fifoOf core channel).words with
  | nil =>
      rw [Fifo.used, hwords] at hused
      exact absurd hused (Nat.lt_irrefl 0)
  | cons sample rest =>
      refine ⟨sample, hfirst sample ?_, ?_⟩
      · rw [Fifo.first, hwords]
        rfl
      · change sample :: rest = sample :: (fifoOf core channel).words.tail
        rw [hwords]
        rfl

/-- Since the release every sample that arrived was read or is in its FIFO. -/
structure Delivered (after : List Label) (s : System) : Prop where
  turns : TakesTurns s.core.next .left (after.filterMap sampleOf)
  left : ∃ popped, samplesOf .left (after.filterMap sampleOf) = popped ++ s.core.left.words ∧
    (reads (after.filterMap eventOf)).1.map Prod.fst ++
      (reads (after.filterMap eventOf)).2.toList = popped.map valueOf
  right : ∃ popped, samplesOf .right (after.filterMap sampleOf) = popped ++ s.core.right.words ∧
    (reads (after.filterMap eventOf)).1.map Prod.snd = popped.map valueOf
  holds : HoldsLast (after.filterMap eventOf) s.cpu

theorem samplesOf_append_self (channel : Channel) (samples : List (Channel × BitVec 16))
    (sample : BitVec 16) :
    samplesOf channel (samples ++ [(channel, sample)]) = samplesOf channel samples ++ [sample] := by
  simp [samplesOf]

theorem samplesOf_append_of_ne {channel other : Channel} (hne : other ≠ channel)
    (samples : List (Channel × BitVec 16)) (sample : BitVec 16) :
    samplesOf channel (samples ++ [(other, sample)]) = samplesOf channel samples := by
  simp [samplesOf, hne]

theorem Delivered.push {after : List Label} {s t : System} {channel : Channel}
    {sample : BitVec 16} (h : Delivered after s) (hheld : s.core.clearReadFifos = false)
    (hroom : (fifoOf s.core channel).used < 128)
    (hstep : s.step (.push channel sample) = some t) :
    Delivered (after ++ [.push channel sample]) t := by
  obtain ⟨hnext, rfl⟩ := step_push hstep
  obtain ⟨-, hother, hfifo⟩ := push_spec s.core sample
  have hsamples : (after ++ [Label.push channel sample]).filterMap sampleOf =
      after.filterMap sampleOf ++ [(s.core.next, sample)] := by
    rw [List.filterMap_append, hnext]
    rfl
  have hevents : (after ++ [Label.push channel sample]).filterMap eventOf =
      after.filterMap eventOf := by
    rw [List.filterMap_append]
    exact List.append_nil _
  have hwords : ∀ other, (fifoOf (s.core.push sample) other).words =
      if other = s.core.next then (fifoOf s.core other).words ++ [sample]
      else (fifoOf s.core other).words := by
    intro other
    rw [hfifo, hheld]
    by_cases hsame : other = s.core.next
    · rw [if_pos ⟨rfl, hsame⟩, if_pos hsame, Fifo.words_push_of_lt]
      rwa [hsame, ← hnext]
    · rw [if_neg (fun h => hsame h.2), if_neg hsame]
  have harrived : ∀ other popped, samplesOf other (after.filterMap sampleOf) =
        popped ++ (fifoOf s.core other).words →
      samplesOf other ((after ++ [Label.push channel sample]).filterMap sampleOf) =
        popped ++ (fifoOf (s.core.push sample) other).words := by
    intro other popped hpopped
    rw [hsamples, hwords]
    by_cases hsame : other = s.core.next
    · rw [if_pos hsame, ← hsame, samplesOf_append_self, hpopped, List.append_assoc]
    · rw [if_neg hsame, samplesOf_append_of_ne (Ne.symm hsame), hpopped]
  obtain ⟨lefts, hlefts, hleft⟩ := h.left
  obtain ⟨rights, hrights, hright⟩ := h.right
  refine ⟨?_, ⟨lefts, harrived .left lefts hlefts, ?_⟩, ⟨rights, harrived .right rights hrights, ?_⟩,
    ?_⟩
  · rw [hsamples, hother]
    exact h.turns.append sample
  · rw [hevents]
    exact hleft
  · rw [hevents]
    exact hright
  · rw [hevents]
    exact h.holds

theorem next_access (core : Core) (e : Event) : (core.access e).next = core.next := by
  cases e with
  | storeControl value =>
      rw [Core.access]
      split <;> rfl
  | _ => rfl

theorem access_of_not_load {s t : State} {e : Event} (hmove : Moves s e t) (hread : MayRead t)
    (hload : ∀ channel value, e ≠ loadOf channel value) (core : Core) :
    (core.access e).left = core.left ∧ (core.access e).right = core.right := by
  cases hmove with
  | cleared => exact absurd rfl hread.1
  | leftStored value => exact absurd rfl (hload .left value)
  | rightStored value => exact absurd rfl (hload .right value)
  | bufferFilled value => exact absurd rfl (hload .right value)
  | _ => exact ⟨rfl, rfl⟩

theorem pending_of_holdsLast {events : List Event} {s : State} (h : HoldsLast events s) :
    (reads events).2 = if s.location = .loadRight then some (s.leftBuffer s.bufferIndex)
      else none := by
  obtain ⟨earlier, hreads, -⟩ := h
  rw [hreads]
  rfl

def readValues : Channel → Event → List Int
  | .left, .loadLeft value => [value.toInt]
  | .right, .loadRight value => [value.toInt]
  | _, _ => []

theorem taken_of_access {s t : State} {e : Event} {core : Core} (hmove : Moves s e t)
    (hread : MayRead t) (hanswers : core.Answers e)
    (hfinds : FindsSample { cpu := s, core := core } (.cpu e)) (channel : Channel) :
    ∃ taken, (fifoOf core channel).words = taken ++ (fifoOf (core.access e) channel).words ∧
      taken.map valueOf = readValues channel e := by
  by_cases hload : ∃ other value, e = loadOf other value
  · obtain ⟨other, value, rfl⟩ := hload
    obtain ⟨-, -, hfifo⟩ := access_loadOf core other value
    rcases eq_or_ne channel other with rfl | hne
    · have hused : 0 < (fifoOf core channel).used := by cases channel <;> exact hfinds
      obtain ⟨sample, hvalue, hwords⟩ := words_of_load hanswers hused
      refine ⟨[sample], by rw [hfifo, if_pos rfl, hwords]; rfl, ?_⟩
      cases channel <;> simp [readValues, loadOf, valueOf, hvalue]
    · refine ⟨[], by rw [hfifo, if_neg hne]; rfl, ?_⟩
      cases channel <;> cases other <;> first | rfl | exact absurd rfl hne
  · obtain ⟨hleft, hright⟩ := access_of_not_load hmove hread
      (fun other value h => hload ⟨other, value, h⟩) core
    refine ⟨[], ?_, ?_⟩
    · cases channel with
      | left => exact congrArg Fifo.words hleft.symm
      | right => exact congrArg Fifo.words hright.symm
    · cases e with
      | loadLeft value => exact absurd ⟨.left, value, rfl⟩ hload
      | loadRight value => exact absurd ⟨.right, value, rfl⟩ hload
      | _ => cases channel <;> rfl

theorem reads_move {s t : State} {e : Event} {events : List Event} (h : HoldsLast events s)
    (hmove : Moves s e t) :
    (reads (events ++ [e])).1.map Prod.fst ++ (reads (events ++ [e])).2.toList =
        (reads events).1.map Prod.fst ++ (reads events).2.toList ++
          readValues .left e ∧
      (reads (events ++ [e])).1.map Prod.snd =
        (reads events).1.map Prod.snd ++ readValues .right e := by
  have hpending := pending_of_holdsLast h
  rw [reads_append_singleton]
  generalize reads events = found at hpending ⊢
  obtain ⟨pairs, pending⟩ := found
  by_cases hloc : s.location = .loadRight
  · obtain ⟨value, rfl⟩ := loadRight_of_location hmove hloc
    obtain rfl : pending = some (s.leftBuffer s.bufferIndex) := hpending.trans (if_pos hloc)
    simp [readNext, readValues]
  · obtain rfl : pending = none := hpending.trans (if_neg hloc)
    cases hmove with
    | rightStored value h | bufferFilled value h => exact absurd h hloc
    | _ => simp [readNext, readValues]

theorem Delivered.cpu {after : List Label} {s t : System} {e : Event} (h : Delivered after s)
    (hfinds : FindsSample s (.cpu e)) (hread : MayRead t.cpu)
    (hstep : s.step (.cpu e) = some t) : Delivered (after ++ [.cpu e]) t := by
  obtain ⟨hanswers, hmove, hcore⟩ := step_cpu hstep
  obtain ⟨cpu, core⟩ := t
  obtain rfl : core = s.core.access e := hcore
  have hsamples : (after ++ [Label.cpu e]).filterMap sampleOf = after.filterMap sampleOf := by
    rw [List.filterMap_append]
    exact List.append_nil _
  have hevents : (after ++ [Label.cpu e]).filterMap eventOf = after.filterMap eventOf ++ [e] := by
    rw [List.filterMap_append]
    rfl
  obtain ⟨hlefts, hrights⟩ := reads_move h.holds hmove
  obtain ⟨left, hleft, hleftReads⟩ := h.left
  obtain ⟨right, hright, hrightReads⟩ := h.right
  obtain ⟨leftTaken, hleftWords, hleftTaken⟩ := taken_of_access hmove hread hanswers hfinds .left
  obtain ⟨rightTaken, hrightWords, hrightTaken⟩ :=
    taken_of_access hmove hread hanswers hfinds .right
  refine ⟨?_, ⟨left ++ leftTaken, ?_, ?_⟩, ⟨right ++ rightTaken, ?_, ?_⟩, ?_⟩
  · rw [hsamples, next_access]
    exact h.turns
  · rw [hsamples, hleft, List.append_assoc]
    exact congrArg (left ++ ·) hleftWords
  · rw [hevents, hlefts, hleftReads, List.map_append, hleftTaken]
  · rw [hsamples, hright, List.append_assoc]
    exact congrArg (right ++ ·) hrightWords
  · rw [hevents, hrights, hrightReads, List.map_append, hrightTaken]
  · rw [hevents]
    exact h.holds.move hmove hread

end Conservation

section Runs

def Releases (s : System) (l : Label) : Prop :=
  s.cpu.location = .releaseIn ∧ ∃ value, l = .cpu (.storeControl value)

theorem mayRead_of_move {s t : State} {e : Event} (hmove : Moves s e t) (hread : MayRead t)
    (hrelease : s.location ≠ .releaseIn) : MayRead s := by
  refine ⟨hrelease, ?_⟩
  cases hmove with
  | keyLoaded value hloc | key0 hloc | key1 hloc | clearedOut hloc =>
      exact .inl (by simpa [MayRead] using hread)
  | keyHeld value hloc => exact hread.2
  | otherKeys hloc => exact .inl (record_of_mayRead_returnFromKeys hread)
  | cleared hloc => exact absurd rfl hread.1
  | started hloc => exact absurd hloc hrelease
  | playStarted hloc => exact .inl (record_of_mayRead_returnFromKeys hread)
  | passEntered value hloc =>
      rcases hloc with ⟨hloc, -⟩ | hloc <;> simp [hloc]
  | innerLeft value hloc =>
      rcases hloc with hloc | hloc <;> simp [hloc]
  | leftStored value hloc | rightStored value hloc | bufferFilled value hloc | analysed hloc =>
      simp [hloc]

variable {keyValue fifospace : BitVec 32} {leftBuffer rightBuffer : Nat → Int}
variable {left right : Fifo (BitVec 16) 128} {next : Channel}

/-- The invariant of a run: the index is 0 when the FIFOs are released, and from
then on nothing is lost. -/
structure Conserves (initial : System) (history : List Label) (s : System) : Prop where
  index : s.cpu.location = .clearIn ∨ s.cpu.location = .releaseIn → s.cpu.bufferIndex = 0
  delivered : MayRead s.cpu →
    SinceStep System.step Releases initial (fun after => Delivered after s) history

theorem index_of_move {s t : State} {e : Event}
    (h : s.location = .clearIn ∨ s.location = .releaseIn → s.bufferIndex = 0)
    (hmove : Moves s e t) (hloc : t.location = .clearIn ∨ t.location = .releaseIn) :
    t.bufferIndex = 0 := by
  cases hmove with
  | key0 => rfl
  | cleared hs => exact h (.inl hs)
  | keyHeld => exact h hloc
  | otherKeys | playStarted =>
      rcases hloc with hloc | hloc
      · exact absurd hloc (returnFromKeys_ne (by decide) (by decide) _)
      · exact absurd hloc (returnFromKeys_ne (by decide) (by decide) _)
  | _ => simp at hloc

theorem words_of_used_eq_zero {f : Fifo (BitVec 16) 128} (h : f.used = 0) : f.words = [] :=
  List.eq_nil_of_length_eq_zero h

theorem delivered_release {s t : System} {value : BitVec 32} (haligned : Aligned s)
    (hindex : s.cpu.bufferIndex = 0) (hloc : s.cpu.location = .releaseIn)
    (hkeeps : KeepsLevel s (.cpu (.storeControl value)))
    (hstep : s.step (.cpu (.storeControl value)) = some t) : Delivered [] t := by
  obtain ⟨-, hmove, hcore⟩ := step_cpu hstep
  obtain ⟨cpu, core⟩ := t
  obtain rfl : core = s.core.access (.storeControl value) := hcore
  obtain ⟨hleft, hright⟩ := haligned.cleared hloc
  have hnext := hkeeps hloc
  cases hmove with
  | started =>
      refine ⟨?_, ⟨[], ?_, rfl⟩, ⟨[], ?_, rfl⟩, [], ?_, .inl rfl⟩
      · exact hnext.symm
      · exact (words_of_used_eq_zero hleft).symm
      · exact (words_of_used_eq_zero hright).symm
      · have hstored : stored { s.cpu with record := true, location := .loadFifospace } =
            ([], none) := stored_of_index_zero hindex (fun h => by cases h)
        rw [hstored]
        rfl
  | cleared h | clearedOut h | playStarted h => simp [hloc] at h

theorem Conserves.step {initial s t : System} {history : List Label} {l : Label}
    (h : Conserves initial history s) (hbefore : run System.step initial history = some s)
    (haligned : Aligned s) (hfinds : FindsSample s l) (hkeeps : KeepsLevel s l)
    (hstep : s.step l = some t) : Conserves initial (history ++ [l]) t := by
  cases l with
  | push channel sample =>
      obtain ⟨-, rfl⟩ := step_push hstep
      refine ⟨h.index, fun hread => ?_⟩
      have hheld : s.core.clearReadFifos = false := by
        rw [← Bool.not_eq_true, haligned.held]
        exact hread.1
      have hroom : (fifoOf s.core channel).used < 128 := by
        cases channel <;> exact hkeeps hread
      refine (h.delivered hread).extend hbefore (fun hrelease => ?_) fun after hafter =>
        hafter.push hheld hroom hstep
      exact absurd hrelease.1 hread.1
  | cpu e =>
      obtain ⟨-, hmove, -⟩ := step_cpu hstep
      refine ⟨index_of_move h.index hmove, fun hread => ?_⟩
      by_cases hloc : s.cpu.location = .releaseIn
      · obtain ⟨value, rfl⟩ := storeControl_of_releaseIn hmove hloc
        exact .here hbefore hstep ⟨hloc, value, rfl⟩
          (delivered_release haligned (h.index (.inr hloc)) hloc hkeeps hstep)
      · refine (h.delivered (mayRead_of_move hmove hread hloc)).extend hbefore
          (fun hrelease => hloc hrelease.1) fun after hafter => ?_
        exact hafter.cpu hfinds hread hstep

theorem Conserves.of_run {labels : List Label} {t : System}
    (hrun : run System.step
      (start keyValue fifospace leftBuffer rightBuffer left right next) labels = some t)
    (hkeeps : EveryStep System.step KeepsLevel
      (start keyValue fifospace leftBuffer rightBuffer left right next) labels) :
    Conserves (start keyValue fifospace leftBuffer rightBuffer left right next) labels t := by
  have hfinds := findsSample_of_keepsLevel hrun hkeeps
  have hinit : Conserves (start keyValue fifospace leftBuffer rightBuffer left right next) []
      (start keyValue fifospace leftBuffer rightBuffer left right next) :=
    ⟨fun _ => rfl, by simp [start, atStart, MayRead]⟩
  refine (history_invariant (P := fun history s => EveryStep System.step KeepsLevel
      (start keyValue fifospace leftBuffer rightBuffer left right next) history ∧
      Conserves (start keyValue fifospace leftBuffer rightBuffer left right next) history s)
    (C := fun s l => KeepsLevel s l ∧ FindsSample s l) ⟨.nil, hinit⟩ ?_ hrun
    fun before l after s hsplit hbefore =>
      ⟨hkeeps before l after s hsplit hbefore, hfinds before l after s hsplit hbefore⟩).2
  rintro history s l u hbefore ⟨hkept, hconserves⟩ ⟨hlevel, hfound⟩ hstep
  refine ⟨hkept.append fun s' hs' => ?_,
    hconserves.step hbefore (.of_run hbefore hkept) hfound hlevel hstep⟩
  obtain rfl : s = s' := Option.some.inj (hbefore.symm.trans hs')
  exact .cons hlevel fun _ _ => .nil

theorem bufferIndex_of_run {labels : List Label} {t : System}
    (hrun : run System.step
      (start keyValue fifospace leftBuffer rightBuffer left right next) labels = some t)
    (hloc : t.cpu.location = .analysis) : t.cpu.bufferIndex = bufSize := by
  have hbounded : Bounded t.cpu := by
    refine state_invariant (P := fun s => Bounded s.cpu) ?_ ?_ hrun
    · exact .of_ne (by simp [start, atStart]) (by simp [start, atStart]) (by simp [start, atStart])
    · rintro s (⟨channel, sample⟩ | e) u hs hstep
      · obtain ⟨-, rfl⟩ := step_push hstep
        exact hs
      · exact hs.move (step_cpu hstep).2.1
  exact hbounded.filled hloc

theorem Delivered.pairs {after : List Label} {s : System} (h : Delivered after s)
    (hloc : s.cpu.location ≠ .loadRight) :
    ∃ rest, deliveredPairs (after.filterMap sampleOf) =
      (reads (after.filterMap eventOf)).1 ++ rest := by
  obtain ⟨lefts, hleft, hleftReads⟩ := h.left
  obtain ⟨rights, hright, hrightReads⟩ := h.right
  have hpending := pending_of_holdsLast h.holds
  rw [if_neg hloc] at hpending
  rw [hpending, Option.toList_none, List.append_nil] at hleftReads
  refine ⟨(s.core.left.words.map valueOf).zip (s.core.right.words.map valueOf), ?_⟩
  rw [deliveredPairs_eq_zip h.turns, hleft, hright, List.map_append, List.map_append,
    ← hleftReads, ← hrightReads, List.zip_append (by simp)]
  congr 1
  exact (List.zip_of_prod rfl rfl).symm

theorem mem_events {after : List Label} {e : Event} :
    e ∈ after.filterMap eventOf ↔ .cpu e ∈ after := by
  rw [List.mem_filterMap]
  constructor
  · rintro ⟨channel | e', hmem, heq⟩
    · exact absurd heq.symm (Option.some_ne_none e)
    · obtain rfl := Option.some.inj heq
      exact hmem
  · exact fun hmem => ⟨.cpu e, hmem, rfl⟩

/-- Where the FIFOs are released before a left sample and no sample is lost, a
recording that is analysed is a stretch of the pairs that arrived since the
release: from the first one on, unless the index was set to 0 again by an
earlier analysis or for a playback. -/
theorem recorded_delivered {labels : List Label} {t : System}
    (hrun : run System.step
      (start keyValue fifospace leftBuffer rightBuffer left right next) labels = some t)
    (hkeeps : EveryStep System.step KeepsLevel
      (start keyValue fifospace leftBuffer rightBuffer left right next) labels)
    (hloc : t.cpu.location = .analysis) :
    SinceStep System.step Releases
      (start keyValue fifospace leftBuffer rightBuffer left right next)
      (fun after => ∃ before rest,
        deliveredPairs (after.filterMap sampleOf) = before ++ recorded t.cpu ++ rest ∧
          (before = [] ∨ .cpu .analyse ∈ after ∨ .cpu (.storeControl 0x8) ∈ after)) labels := by
  have hconserves := Conserves.of_run hrun hkeeps
  obtain ⟨front, l, after, s, u, hsplit, hfront, hstep, hrelease, hnone, hdelivered⟩ :=
    hconserves.delivered (by simp [MayRead, hloc])
  have hindex := bufferIndex_of_run hrun hloc
  refine ⟨front, l, after, s, u, hsplit, hfront, hstep, hrelease, hnone, ?_⟩
  obtain ⟨earlier, hreads, hearlier⟩ := hdelivered.holds
  obtain ⟨rest, hpairs⟩ := hdelivered.pairs (by simp [hloc])
  have hstored : (stored t.cpu).1 = recorded t.cpu := by
    rw [stored_of_ne (by simp [hloc]), hindex, recorded]
  refine ⟨earlier, rest, ?_, hearlier.imp_right ?_⟩
  · rw [hpairs, hreads, hstored]
  · rintro (hanalysed | hplayed | hclear | hclear)
    · exact .inl (mem_events.mp hanalysed)
    · exact .inr (mem_events.mp hplayed)
    · simp [hloc] at hclear
    · simp [hloc] at hclear

end Runs

section Silence

def KeptRun (s : System) (labels : List Label) (t : System) : Prop :=
  run System.step s labels = some t ∧ EveryStep System.step KeepsLevel s labels

theorem KeptRun.cons {s t u : System} {l : Label} {labels : List Label} (h : KeepsLevel s l)
    (hstep : s.step l = some t) (hrest : KeptRun t labels u) : KeptRun s (l :: labels) u := by
  refine ⟨(run_cons_of_eq hstep labels).trans hrest.1, .cons h fun t' hstep' => ?_⟩
  obtain rfl : t = t' := Option.some.inj (hstep.symm.trans hstep')
  exact hrest.2

theorem KeptRun.append {s t u : System} {front back : List Label} (hfront : KeptRun s front t)
    (hback : KeptRun t back u) : KeptRun s (front ++ back) u := by
  refine ⟨(run_append_of_eq hfront.1 back).trans hback.1, hfront.2.append fun t' hrun => ?_⟩
  obtain rfl : t = t' := Option.some.inj (hfront.1.symm.trans hrun)
  exact hback.2

def silentSystem (cpu : State) (n : Nat) : System where
  cpu := cpu
  core := { left := silence n, right := silence n, next := .left, clearReadFifos := false }

def arrivePair : List Label := [.push .left 0, .push .right 0]

theorem keptRun_arrivePair (cpu : State) {n : Nat} (hn : n < 128) :
    KeptRun (silentSystem cpu n) arrivePair (silentSystem cpu (n + 1)) := by
  have hroom : (silence n).used < 128 := by rwa [used_silence hn.le]
  let s : System := { cpu := cpu, core := {
    left := silence (n + 1), right := silence n, next := .right, clearReadFifos := false } }
  have hleft : (silentSystem cpu n).step (.push .left 0) = some s := by
    simp [System.step, silentSystem, Core.push, push_silence hn, s]
  have hright : s.step (.push .right 0) = some (silentSystem cpu (n + 1)) := by
    simp [System.step, silentSystem, Core.push, push_silence hn, s]
  exact .cons (fun _ => hroom) hleft (.cons (fun _ => hroom) hright ⟨rfl, .nil⟩)

theorem keptRun_arrivePairs (cpu : State) {n : Nat} (hn : n ≤ 128) :
    KeptRun (silentSystem cpu 0) (List.replicate n arrivePair).flatten (silentSystem cpu n) := by
  induction n with
  | zero => exact ⟨rfl, .nil⟩
  | succ n ih =>
      rw [List.replicate_succ', List.flatten_append, List.flatten_singleton]
      exact (ih (Nat.le_of_succ_le hn)).append (keptRun_arrivePair cpu hn)

theorem answers_silence {core : Core} {channel : Channel} {n : Nat} (hn : n < 128)
    (hfifo : fifoOf core channel = silence (n + 1)) : core.Answers (loadOf channel 0) := by
  rw [AudioRefinement.answers_loadOf, hfifo, first_silence hn]
  intro sample hsample
  obtain rfl := Option.some.inj hsample
  rfl

def readPair : List Label :=
  [.cpu (.loadLeft 0), .cpu (.loadRight 0)] ++ arrivePair ++
    [.cpu (.loadFifospace (countWord 97 97))]

theorem keptRun_loads {cpu : State} (hloc : cpu.location = .loadLeft) {n : Nat} (hn : n < 128) :
    KeptRun (silentSystem cpu (n + 1)) [.cpu (.loadLeft 0), .cpu (.loadRight 0)]
      (silentSystem { storePair 0 0 cpu with
        location := if cpu.bufferIndex + 1 = bufSize then .analysis else .reloadFifospace } n) := by
  let s : System := {
    cpu := { cpu with
      leftBuffer := Function.update cpu.leftBuffer cpu.bufferIndex (0 : BitVec 32).toInt
      location := .loadRight }
    core := { left := silence n, right := silence (n + 1), next := .left, clearReadFifos := false } }
  have hanswers : (silentSystem cpu (n + 1)).core.Answers (.loadLeft 0) :=
    @answers_silence _ .left n hn rfl
  have hanswers' : s.core.Answers (.loadRight 0) := @answers_silence _ .right n hn rfl
  have hleft : (silentSystem cpu (n + 1)).step (.cpu (.loadLeft 0)) = some s := by
    rw [System.step, if_pos hanswers]
    simp [step, silentSystem, hloc, Core.access, pop_silence hn, s]
  have hright : s.step (.cpu (.loadRight 0)) =
      some (silentSystem { storePair 0 0 cpu with
        location := if cpu.bufferIndex + 1 = bufSize then .analysis else .reloadFifospace } n) := by
    rw [System.step, if_pos hanswers']
    simp [step, silentSystem, Core.access, pop_silence hn, storePair, s]
  exact .cons trivial hleft (.cons trivial hright ⟨rfl, .nil⟩)

theorem keptRun_loadFifospace {cpu : State}
    (hloc : cpu.location = .loadFifospace ∨ cpu.location = .reloadFifospace)
    (hindex : cpu.bufferIndex < bufSize) :
    KeptRun (silentSystem cpu 97) [.cpu (.loadFifospace (countWord 97 97))]
      (silentSystem { cpu with location := .loadLeft, fifospace := countWord 97 97 } 97) := by
  have hanswers : (silentSystem cpu 97).core.Answers (.loadFifospace (countWord 97 97)) :=
    answers_countWord (by decide) (by decide) _ rfl rfl
  have hrarc : rarc (countWord 97 97) = 97 := by decide
  refine .cons trivial ?_ ⟨rfl, .nil⟩
  rw [System.step, if_pos hanswers]
  rcases hloc with hloc | hloc <;>
    simp [step, silentSystem, hloc, Core.access, testInner, hrarc, hindex, bufThreshold]

theorem keptRun_readPair {cpu : State} (hloc : cpu.location = .loadLeft)
    (hindex : cpu.bufferIndex + 1 < bufSize) :
    KeptRun (silentSystem cpu 97) readPair (silentSystem { storePair 0 0 cpu with
      location := .loadLeft, fifospace := countWord 97 97 } 97) := by
  have hloads := keptRun_loads hloc (by decide : 96 < 128)
  rw [if_neg hindex.ne] at hloads
  refine (hloads.append (keptRun_arrivePair _ (by decide))).append ?_
  exact keptRun_loadFifospace (.inr rfl) hindex

theorem keptRun_readPairs {cpu : State} (hloc : cpu.location = .loadLeft) {n : Nat}
    (hindex : cpu.bufferIndex + n < bufSize) :
    ∃ cpu', KeptRun (silentSystem cpu 97) (List.replicate n readPair).flatten
        (silentSystem cpu' 97) ∧
      cpu'.location = .loadLeft ∧ cpu'.bufferIndex = cpu.bufferIndex + n := by
  induction n with
  | zero => exact ⟨cpu, ⟨rfl, .nil⟩, hloc, rfl⟩
  | succ n ih =>
      obtain ⟨cpu', hrun, hloc', hindex'⟩ := ih (by omega)
      have hpass := keptRun_readPair hloc' (by omega)
      rw [List.replicate_succ', List.flatten_append, List.flatten_singleton]
      refine ⟨_, hrun.append hpass, rfl, ?_⟩
      change cpu'.bufferIndex + 1 = cpu.bufferIndex + (n + 1)
      omega

def quietRecording : List Label :=
  [.cpu (.loadKey 0x1), .cpu (.loadKey 0), .cpu (.storeControl 0x4), .cpu (.storeControl 0x0)] ++
    (List.replicate 97 arrivePair).flatten ++ [.cpu (.loadFifospace (countWord 97 97))] ++
    (List.replicate (bufSize - 1) readPair).flatten ++ [.cpu (.loadLeft 0), .cpu (.loadRight 0)]

theorem recorded_delivered_quietRecording :
    ∃ t, run System.step quietSystem quietRecording = some t ∧
      SinceStep System.step Releases quietSystem (fun after => ∃ before rest,
        deliveredPairs (after.filterMap sampleOf) = before ++ recorded t.cpu ++ rest ∧
          (before = [] ∨ .cpu .analyse ∈ after ∨ .cpu (.storeControl 0x8) ∈ after))
        quietRecording := by
  let cpu : State :=
    { quietStart with location := .loadFifospace, record := true, keyValue := 0x1 }
  have hpressed : KeptRun quietSystem [.cpu (.loadKey 0x1), .cpu (.loadKey 0),
      .cpu (.storeControl 0x4), .cpu (.storeControl 0x0)] (silentSystem cpu 0) :=
    .cons trivial rfl (.cons trivial rfl (.cons (fun h => by cases h) rfl
      (.cons (fun _ => rfl) rfl ⟨rfl, .nil⟩)))
  have hentered := @keptRun_loadFifospace cpu (.inl rfl) (by decide)
  obtain ⟨cpu', hfilled, hloc, hindex⟩ := @keptRun_readPairs
    { cpu with location := .loadLeft, fifospace := countWord 97 97 } rfl (bufSize - 1) (by decide)
  have hlast := keptRun_loads hloc (by decide : 96 < 128)
  have hfull : cpu'.bufferIndex + 1 = bufSize := by
    rw [hindex]
    decide
  have hwhole := (((hpressed.append (keptRun_arrivePairs cpu (by decide))).append hentered).append
    hfilled).append hlast
  refine ⟨_, hwhole.1, recorded_delivered hwhole.1 hwhole.2 ?_⟩
  exact if_pos hfull

end Silence

end RockPaperScissors.DeliveredSamples
