import Mathlib.Data.List.Basic
import Mathlib.Order.Nat

namespace RockPaperScissors.Library.BoundedFifo

structure Fifo (α : Type*) (depth : Nat) where
  words : List α
  length_le : words.length ≤ depth

namespace Fifo

variable {α : Type*} {depth : Nat}

theorem ext_words {f g : Fifo α depth} (h : f.words = g.words) : f = g := by
  cases f
  cases g
  cases h
  rfl

def empty : Fifo α depth := ⟨[], Nat.zero_le depth⟩

def used (f : Fifo α depth) : Nat := f.words.length

def push (x : α) (f : Fifo α depth) : Fifo α depth :=
  if h : f.words.length < depth then ⟨f.words ++ [x], by simpa [Nat.succ_le_iff] using h⟩ else f

def pop (f : Fifo α depth) : Fifo α depth :=
  ⟨f.words.tail, by
    rw [List.length_tail]
    exact le_trans (Nat.sub_le _ _) f.length_le⟩

def first (f : Fifo α depth) : Option α := f.words.head?

theorem used_le (f : Fifo α depth) : f.used ≤ depth := f.length_le

@[simp] theorem used_empty : (empty : Fifo α depth).used = 0 := rfl

@[simp] theorem used_pop (f : Fifo α depth) : f.pop.used = f.used - 1 :=
  List.length_tail

theorem used_push_of_lt {f : Fifo α depth} (h : f.used < depth) (x : α) :
    (f.push x).used = f.used + 1 := by
  have hlt : f.words.length < depth := h
  simp [push, hlt, used]

theorem push_of_full {f : Fifo α depth} (h : f.used = depth) (x : α) : f.push x = f :=
  dif_neg (not_lt.mpr (le_of_eq h.symm))

theorem used_le_used_push (f : Fifo α depth) (x : α) : f.used ≤ (f.push x).used := by
  rcases lt_or_eq_of_le f.used_le with h | h
  · rw [used_push_of_lt h]
    exact Nat.le_succ _
  · rw [push_of_full h]

theorem used_push_pos (hdepth : 0 < depth) (f : Fifo α depth) (x : α) :
    0 < (f.push x).used := by
  rcases lt_or_eq_of_le f.used_le with h | h
  · rw [used_push_of_lt h]
    exact Nat.succ_pos _
  · rwa [push_of_full h, h]

theorem words_push_of_lt {f : Fifo α depth} (h : f.used < depth) (x : α) :
    (f.push x).words = f.words ++ [x] := by
  have hlt : f.words.length < depth := h
  simp [push, hlt]

end Fifo

end RockPaperScissors.Library.BoundedFifo
