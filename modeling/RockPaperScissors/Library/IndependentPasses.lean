import RockPaperScissors.Library.CountedLoop

namespace RockPaperScissors.Library.IndependentPasses

open RockPaperScissors.Library.CountedLoop

variable {ι α : Type*}

/-- Every pass writes only cells it owns, and what it writes there does not
depend on the cells of the other passes. -/
structure Independent (count : Nat) (owner : Nat → ι → Prop)
    (body : Nat → (ι → α) → ι → α) : Prop where
  disjoint : ∀ u v a, u < count → v < count → owner u a → owner v a → u = v
  frame : ∀ u mem a, u < count → ¬ owner u a → body u mem a = mem a
  separate : ∀ u mem mem', u < count →
    (∀ a, (∀ v, v < count → v ≠ u → ¬ owner v a) → mem a = mem' a) →
      ∀ a, owner u a → body u mem a = body u mem' a

variable {count : Nat} {owner : Nat → ι → Prop} {body : Nat → (ι → α) → ι → α}

/-- After the first passes: the cells of the passes made are as each pass alone
would leave them, all other cells as they were. -/
theorem Independent.forLoop_prefix (h : Independent count owner body) (mem : ι → α)
    {made : Nat} (hmade : made ≤ count) :
    (∀ u a, u < made → owner u a → forLoop 0 made body mem a = body u mem a) ∧
      ∀ a, (∀ u, u < made → ¬ owner u a) → forLoop 0 made body mem a = mem a := by
  refine forLoop_induction (P := fun made (mem' : ι → α) =>
    (∀ u a, u < made → owner u a → mem' a = body u mem a) ∧
      ∀ a, (∀ u, u < made → ¬ owner u a) → mem' a = mem a) (Nat.zero_le made) ?_ ?_
  · exact ⟨fun u a hu => absurd hu (Nat.not_lt_zero u), fun a _ => rfl⟩
  · rintro u mem' - hu ⟨hdone, hfresh⟩
    have hcount : u < count := by omega
    constructor
    · intro v a hv howner
      rcases Nat.lt_succ_iff_lt_or_eq.mp hv with hlt | rfl
      · have hother : ¬ owner u a := by
          intro hboth
          have := h.disjoint v u a (by omega) hcount howner hboth
          omega
        rw [h.frame u mem' a hcount hother]
        exact hdone v a hlt howner
      · apply h.separate v mem' mem hcount _ a howner
        intro b hb
        apply hfresh
        intro w hw
        exact hb w (by omega) (by omega)
    · intro a ha
      rw [h.frame u mem' a hcount (ha u (Nat.lt_succ_self u))]
      apply hfresh
      intro v hv
      exact ha v (Nat.lt_succ_of_lt hv)

/-- Each cell ends as the pass that owns it, run alone on the initial memory,
leaves it. -/
theorem Independent.forLoop_owner (h : Independent count owner body) (mem : ι → α) {u : Nat}
    {a : ι} (hu : u < count) (howner : owner u a) :
    forLoop 0 count body mem a = body u mem a :=
  (h.forLoop_prefix mem le_rfl).1 u a hu howner

theorem Independent.forLoop_frame (h : Independent count owner body) (mem : ι → α) {a : ι}
    (ha : ∀ u, u < count → ¬ owner u a) : forLoop 0 count body mem a = mem a :=
  (h.forLoop_prefix mem le_rfl).2 a ha

end RockPaperScissors.Library.IndependentPasses
