import Mathlib.Order.Defs.Unbundled

/-!
Programs that move a state along a preorder: whatever such a program does, the
state it leaves is related to the one it was started in.
-/

namespace RockPaperScissors.Library.StateProgram

variable {σ α β : Type}

/-- `m` moves every state along `R`. -/
def Along (R : σ → σ → Prop) (m : StateM σ α) : Prop := ∀ s, R s (m.run s).2

variable {R : σ → σ → Prop}

theorem Along.modify {f : σ → σ} (h : ∀ s, R s (f s)) : Along R (modify f : StateM σ PUnit) :=
  h

theorem Along.ite {c : Prop} [Decidable c] {m n : StateM σ α} (hm : c → Along R m)
    (hn : ¬ c → Along R n) : Along R (if c then m else n) := by
  split
  · next h => exact hm h
  · next h => exact hn h

theorem Along.pure [Std.Refl R] (a : α) : Along R (pure a : StateM σ α) :=
  fun s => refl_of R s

theorem Along.get [Std.Refl R] : Along R (get : StateM σ σ) := fun s => refl_of R s

theorem Along.bind [IsTrans σ R] {m : StateM σ α} {f : α → StateM σ β} (hm : Along R m)
    (hf : ∀ a, Along R (f a)) : Along R (m >>= f) := by
  intro s
  exact trans_of R (hm s) (hf _ _)

/-- The relation along which `P` is kept. -/
def Keeps (P : σ → Prop) (s t : σ) : Prop := P s → P t

instance (P : σ → Prop) : IsPreorder σ (Keeps P) where
  refl _ := id
  trans _ _ _ hab hbc h := hbc (hab h)

/-- Started in a state of `P`, `m` leaves a result and a state of `Q`. -/
def Ensures (P : σ → Prop) (m : StateM σ α) (Q : α → σ → Prop) : Prop :=
  ∀ s, P s → Q (m.run s).1 (m.run s).2

variable {P : σ → Prop} {Q : α → σ → Prop}

theorem Along.ensures [IsTrans σ R] {m : StateM σ α} (h : Along R m) (s : σ) :
    Ensures (R s) m fun _ => R s :=
  fun _ hs => trans_of R hs (h _)

theorem Along.ensures_of_keeps {P : σ → Prop} {m : StateM σ α} (h : Along (Keeps P) m) :
    Ensures P m fun _ => P :=
  h

theorem Ensures.pure {a : α} (h : ∀ s, P s → Q a s) : Ensures P (pure a : StateM σ α) Q := h

theorem Ensures.ite {c : Prop} [Decidable c] {m n : StateM σ α} (hm : c → Ensures P m Q)
    (hn : ¬ c → Ensures P n Q) : Ensures P (if c then m else n) Q := by
  split
  · next h => exact hm h
  · next h => exact hn h

theorem Ensures.bind {m : StateM σ α} {f : α → StateM σ β} {Q : α → σ → Prop}
    {R : β → σ → Prop} (hm : Ensures P m Q) (hf : ∀ a, Ensures (Q a) (f a) R) :
    Ensures P (m >>= f) R := by
  intro s hs
  exact hf _ _ (hm s hs)

theorem Ensures.and {m : StateM σ α} {P' : σ → Prop} {Q' : α → σ → Prop}
    (h : Ensures P m Q) (h' : Ensures P' m Q') :
    Ensures (fun s => P s ∧ P' s) m fun a s => Q a s ∧ Q' a s := by
  intro s hs
  exact ⟨h s hs.1, h' s hs.2⟩

theorem Ensures.of_eq {m : StateM σ α} (h : ∀ s, P s → Ensures (fun t => t = s) m Q) :
    Ensures P m Q := by
  intro s hs
  exact h s hs s rfl

theorem Ensures.get_bind {f : σ → StateM σ β} {R : β → σ → Prop}
    (h : ∀ s, P s → Ensures (fun t => t = s) (f s) R) :
    Ensures P (get >>= f) R := by
  intro s hs
  exact h s hs s rfl

theorem Ensures.modify_bind {f : σ → σ} {g : PUnit → StateM σ β} {R : β → σ → Prop}
    (h : ∀ s, P s → Ensures (fun t => t = f s) (g PUnit.unit) R) :
    Ensures P (modify f >>= g) R := by
  intro s hs
  exact h s hs (f s) rfl

theorem Ensures.mono {m : StateM σ α} {P' : σ → Prop} {Q' : α → σ → Prop}
    (h : Ensures P m Q) (hP : ∀ s, P' s → P s) (hQ : ∀ a s, Q a s → Q' a s) :
    Ensures P' m Q' := by
  intro s hs
  exact hQ _ _ (h s (hP s hs))

end RockPaperScissors.Library.StateProgram
