import Mathlib.Data.List.Basic

namespace RockPaperScissors.Library.EventHistory

variable {ε : Type*} {a b e : ε} {history : List ε} {P Q : List ε → Prop}

/-- `mark` has occurred, and `P` holds of the events since its last occurrence. -/
def SinceLast (mark : ε) (P : List ε → Prop) (history : List ε) : Prop :=
  ∃ before after, history = before ++ mark :: after ∧ mark ∉ after ∧ P after

theorem SinceLast.mark (h : P []) : SinceLast e P (history ++ [e]) :=
  ⟨history, [], rfl, List.not_mem_nil, h⟩

theorem SinceLast.extend (h : SinceLast a P history) (hne : a ≠ e)
    (hstep : ∀ after, P after → Q (after ++ [e])) : SinceLast a Q (history ++ [e]) := by
  obtain ⟨before, after, rfl, hlast, hP⟩ := h
  refine ⟨before, after ++ [e], by simp, ?_, hstep after hP⟩
  simp [hlast, hne]

theorem SinceLast.exists_of_split (h : SinceLast a P history) {before after : List ε}
    (hsplit : history = before ++ a :: after) :
    ∃ front last, P last ∧ a ∉ last ∧ history = front ++ a :: last ∧
      (last = after ∨ ∃ between, after = between ++ a :: last) := by
  obtain ⟨front, last, hhistory, hlast, hP⟩ := h
  refine ⟨front, last, hP, hlast, hhistory, ?_⟩
  have heq := hhistory.symm.trans hsplit
  rcases List.append_eq_append_iff.mp heq with ⟨c, hbefore, hc⟩ | ⟨c, hfront, hc⟩
  · cases c with
    | nil =>
        rw [List.nil_append, List.cons.injEq] at hc
        exact Or.inl hc.2
    | cons x c =>
        obtain ⟨-, rfl⟩ := List.cons.inj hc
        exact absurd (by simp) hlast
  · cases c with
    | nil =>
        rw [List.nil_append, List.cons.injEq] at hc
        exact Or.inl hc.2.symm
    | cons x c =>
        obtain ⟨rfl, rfl⟩ := List.cons.inj hc
        exact Or.inr ⟨c, rfl⟩

/-- Every occurrence of `a` is followed by one of `b`. -/
def FollowedBy (a b : ε) (history : List ε) : Prop :=
  ∀ before after, history = before ++ a :: after → b ∈ after

theorem FollowedBy.nil : FollowedBy a b [] := by
  intro before after h
  simp at h

theorem FollowedBy.extend (h : FollowedBy a b history) (hne : a ≠ e) :
    FollowedBy a b (history ++ [e]) := by
  intro before after hsplit
  rcases List.eq_nil_or_concat after with rfl | ⟨after, x, rfl⟩
  · have hlast := List.append_inj_right' hsplit rfl
    exact absurd (List.cons.inj hlast).1.symm hne
  · have hcut : history ++ [e] = (before ++ a :: after) ++ [x] := by
      rw [hsplit]
      simp
    have hhistory := List.append_inj_left' hcut rfl
    have hb := h before after hhistory
    simp [hb]

theorem FollowedBy.last (hne : a ≠ b) : FollowedBy a b (history ++ [b]) := by
  intro before after hsplit
  rcases List.eq_nil_or_concat after with rfl | ⟨after, x, rfl⟩
  · have hlast := List.append_inj_right' hsplit rfl
    exact absurd (List.cons.inj hlast).1.symm hne
  · have hcut : history ++ [b] = (before ++ a :: after) ++ [x] := by
      rw [hsplit]
      simp
    have hlast := List.append_inj_right' hcut rfl
    simp [List.cons.inj hlast]

end RockPaperScissors.Library.EventHistory
