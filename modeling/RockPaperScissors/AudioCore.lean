import RockPaperScissors.Library.BoundedFifo
import RockPaperScissors.RecordLoop
import RockPaperScissors.SampleNormalization

namespace RockPaperScissors.AudioCore

open RockPaperScissors.Library.BoundedFifo
open RockPaperScissors.RecordLoop
open RockPaperScissors.SampleNormalization

inductive Channel
  | left
  | right
deriving DecidableEq

def Channel.other : Channel → Channel
  | .left => .right
  | .right => .left

/-- The two FIFOs of the deserializer, the channel of the next sample and the
bit of the control register that holds the FIFOs in reset. -/
structure Core where
  left : Fifo (BitVec 16) 128
  right : Fifo (BitVec 16) 128
  next : Channel
  clearReadFifos : Bool

/-- A sample arrives.  It is lost when its FIFO is full or held in reset. -/
def Core.push (sample : BitVec 16) (core : Core) : Core :=
  if core.clearReadFifos then { core with next := core.next.other }
  else
    match core.next with
    | .left => { core with left := core.left.push sample, next := .right }
    | .right => { core with right := core.right.push sample, next := .left }

def Core.readAvailable (core : Core) : BitVec 16 :=
  BitVec.ofNat 8 core.left.used ++ BitVec.ofNat 8 core.right.used

/-- The value a load returns is one the core can give.  The upper half of the
fifospace register is about the other direction, and a data register whose
FIFO is empty can hold anything. -/
def Core.Answers (core : Core) : Event → Prop
  | .loadFifospace value => value.setWidth 16 = core.readAvailable
  | .loadLeft value => ∀ sample ∈ core.left.first, value = readdata sample
  | .loadRight value => ∀ sample ∈ core.right.first, value = readdata sample
  | _ => True

instance (core : Core) (e : Event) : Decidable (core.Answers e) :=
  match e with
  | .loadFifospace value => inferInstanceAs (Decidable (value.setWidth 16 = core.readAvailable))
  | .loadLeft value =>
      inferInstanceAs (Decidable (∀ sample ∈ core.left.first, value = readdata sample))
  | .loadRight value =>
      inferInstanceAs (Decidable (∀ sample ∈ core.right.first, value = readdata sample))
  | .loadKey _ => isTrue trivial
  | .storeControl _ => isTrue trivial
  | .analyse => isTrue trivial

def Core.access (core : Core) : Event → Core
  | .storeControl value =>
      if value.getLsbD 2 then
        { core with left := .empty, right := .empty, clearReadFifos := true }
      else { core with clearReadFifos := false }
  | .loadLeft _ => { core with left := core.left.pop }
  | .loadRight _ => { core with right := core.right.pop }
  | _ => core

structure System where
  cpu : State
  core : Core

inductive Label
  | push (channel : Channel) (sample : BitVec 16)
  | cpu (e : Event)

def System.step (s : System) : Label → Option System
  | .push channel sample =>
      if channel = s.core.next then some { s with core := s.core.push sample } else none
  | .cpu e =>
      if s.core.Answers e then
        (RecordLoop.step s.cpu e).map fun cpu => { cpu := cpu, core := s.core.access e }
      else none

theorem step_push {s t : System} {channel : Channel} {sample : BitVec 16}
    (h : s.step (.push channel sample) = some t) :
    channel = s.core.next ∧ t = { s with core := s.core.push sample } := by
  obtain ⟨hnext, h⟩ := Option.ite_none_right_eq_some.mp h
  exact ⟨hnext, (Option.some.inj h).symm⟩

theorem step_cpu {s t : System} {e : Event} (h : s.step (.cpu e) = some t) :
    s.core.Answers e ∧ Moves s.cpu e t.cpu ∧ t.core = s.core.access e := by
  obtain ⟨hanswers, h⟩ := Option.ite_none_right_eq_some.mp h
  obtain ⟨cpu, hstep, rfl⟩ := Option.map_eq_some_iff.mp h
  exact ⟨hanswers, moves_of_step hstep, rfl⟩

/-- The left channel's count in the fifospace register, which the record loop
does not look at. -/
def ralc (fifospace : BitVec 32) : Nat := ((fifospace >>> 8) &&& 0x000000FF).toNat

theorem readAvailable_toNat (core : Core) :
    core.readAvailable.toNat = core.left.used * 256 + core.right.used := by
  have hleft := core.left.used_le
  have hright := core.right.used_le
  rw [Core.readAvailable, BitVec.toNat_append, BitVec.toNat_ofNat, BitVec.toNat_ofNat,
    Nat.mod_eq_of_lt (by omega), Nat.mod_eq_of_lt (by omega),
    ← Nat.shiftLeft_add_eq_or_of_lt (by omega), Nat.shiftLeft_eq]

theorem rarc_of_answers {core : Core} {value : BitVec 32}
    (h : core.Answers (.loadFifospace value)) : rarc value = core.right.used := by
  have hright := core.right.used_le
  have hvalue := congrArg BitVec.toNat h
  rw [readAvailable_toNat, BitVec.toNat_setWidth] at hvalue
  have hmask : rarc value = value.toNat % 256 := Nat.and_two_pow_sub_one_eq_mod value.toNat 8
  omega

theorem ralc_of_answers {core : Core} {value : BitVec 32}
    (h : core.Answers (.loadFifospace value)) : ralc value = core.left.used := by
  have hleft := core.left.used_le
  have hright := core.right.used_le
  have hvalue := congrArg BitVec.toNat h
  rw [readAvailable_toNat, BitVec.toNat_setWidth] at hvalue
  have hmask : ralc value = value.toNat / 256 % 256 := by
    rw [ralc, BitVec.toNat_and, BitVec.toNat_ushiftRight, Nat.shiftRight_eq_div_pow]
    exact Nat.and_two_pow_sub_one_eq_mod _ 8
  omega

end RockPaperScissors.AudioCore
