import Mathlib.Data.List.Induction

/-!
Runs of a machine whose steps are labelled and may be refused, and the
induction rule for what a run and its history have in common.
-/

namespace RockPaperScissors.Library.LabelledRun

variable {σ ε : Type*} {step : σ → ε → Option σ}

/-- The state reached from `s` along a list of labels, if no step refuses. -/
def run (step : σ → ε → Option σ) (s : σ) (labels : List ε) : Option σ :=
  labels.foldlM step s

@[simp] theorem run_nil (s : σ) : run step s [] = some s := rfl

theorem run_cons (s : σ) (e : ε) (labels : List ε) :
    run step s (e :: labels) = (step s e).bind fun t => run step t labels := rfl

theorem run_cons_eq_some {s u : σ} {e : ε} {labels : List ε} :
    run step s (e :: labels) = some u ↔
      ∃ t, step s e = some t ∧ run step t labels = some u := by
  rw [run_cons, Option.bind_eq_some_iff]

theorem run_append (s : σ) (before after : List ε) :
    run step s (before ++ after) =
      (run step s before).bind fun t => run step t after := by
  simp [run]

theorem run_append_of_eq {s t : σ} {before : List ε} (h : run step s before = some t)
    (after : List ε) : run step s (before ++ after) = run step t after := by
  rw [run_append, h]
  rfl

theorem run_cons_of_eq {s t : σ} {e : ε} (h : step s e = some t) (labels : List ε) :
    run step s (e :: labels) = run step t labels := by
  rw [run_cons, h]
  rfl

theorem run_concat_eq_some {s u : σ} {labels : List ε} {e : ε} :
    run step s (labels ++ [e]) = some u ↔
      ∃ t, run step s labels = some t ∧ step t e = some u := by
  simp [run_append, run_cons, Option.bind_eq_some_iff]

theorem exists_run_of_append {s u : σ} {before after : List ε}
    (h : run step s (before ++ after) = some u) :
    ∃ t, run step s before = some t ∧ run step t after = some u := by
  rw [run_append] at h
  exact Option.bind_eq_some_iff.mp h

theorem run_of_append {s t u : σ} {before after : List ε}
    (hbefore : run step s before = some t) (h : run step s (before ++ after) = some u) :
    run step t after = some u :=
  (run_append_of_eq hbefore after).symm.trans h

/-- `C` holds of every step, as a condition on its label and on the state
before it. -/
def EveryStep (step : σ → ε → Option σ) (C : σ → ε → Prop) (s : σ)
    (labels : List ε) : Prop :=
  ∀ before e after t, labels = before ++ e :: after →
    run step s before = some t → C t e

theorem EveryStep.of_append {C : σ → ε → Prop} {s : σ} {before after : List ε}
    (h : EveryStep step C s (before ++ after)) : EveryStep step C s before := by
  rintro front e back t rfl hrun
  exact h front e (back ++ after) t (by simp) hrun

theorem EveryStep.last {C : σ → ε → Prop} {s t : σ} {labels : List ε} {e : ε}
    (h : EveryStep step C s (labels ++ [e])) (hrun : run step s labels = some t) :
    C t e :=
  h labels e [] t rfl hrun

theorem EveryStep.nil {C : σ → ε → Prop} {s : σ} : EveryStep step C s [] := by
  intro before e after t h
  simp at h

theorem EveryStep.cons {C : σ → ε → Prop} {s : σ} {e : ε} {labels : List ε} (h : C s e)
    (hrest : ∀ t, step s e = some t → EveryStep step C t labels) :
    EveryStep step C s (e :: labels) := by
  intro before f after u hsplit hrun
  cases before with
  | nil =>
      obtain ⟨rfl, rfl⟩ := List.cons.inj hsplit
      obtain rfl : s = u := by simpa using hrun
      exact h
  | cons b before =>
      obtain ⟨rfl, rfl⟩ := List.cons.inj hsplit
      obtain ⟨t, hstep, hrun⟩ := run_cons_eq_some.mp hrun
      exact hrest t hstep before f after u rfl hrun

theorem EveryStep.append {C : σ → ε → Prop} {s : σ} {before after : List ε}
    (h : EveryStep step C s before)
    (hrest : ∀ t, run step s before = some t → EveryStep step C t after) :
    EveryStep step C s (before ++ after) := by
  induction before generalizing s with
  | nil => exact hrest s rfl
  | cons e before ih =>
      refine .cons (h [] e before s rfl rfl) fun t hstep => ih ?_ ?_
      · rintro front f back u rfl hrun
        exact h (e :: front) f back u rfl (by rw [run_cons_of_eq hstep, hrun])
      · intro u hrun
        exact hrest u (by rw [run_cons_of_eq hstep, hrun])

/-- What holds of the empty history and is kept by every step that meets `C`
holds of every run whose steps all meet `C`. -/
theorem history_invariant {C : σ → ε → Prop} {s : σ} {P : List ε → σ → Prop}
    (hinit : P [] s)
    (hstep : ∀ labels t e u, run step s labels = some t → P labels t → C t e →
      step t e = some u → P (labels ++ [e]) u)
    {labels : List ε} {u : σ} (hrun : run step s labels = some u)
    (hcond : EveryStep step C s labels) : P labels u := by
  induction labels using List.reverseRecOn generalizing u with
  | nil =>
      obtain rfl : s = u := by simpa using hrun
      exact hinit
  | append_singleton labels e ih =>
      obtain ⟨t, hbefore, hlast⟩ := run_concat_eq_some.mp hrun
      exact hstep labels t e u hbefore (ih hbefore hcond.of_append)
        (hcond.last hbefore) hlast

/-- The rule with no condition on the steps. -/
theorem run_invariant {s : σ} {P : List ε → σ → Prop} (hinit : P [] s)
    (hstep : ∀ labels t e u, run step s labels = some t → P labels t →
      step t e = some u → P (labels ++ [e]) u)
    {labels : List ε} {u : σ} (hrun : run step s labels = some u) : P labels u :=
  history_invariant (C := fun _ _ => True) hinit
    (fun labels t e u hbefore ht _ => hstep labels t e u hbefore ht) hrun
    (fun _ _ _ _ _ _ => trivial)

/-- The rule for a property of the state alone. -/
theorem state_invariant {s : σ} {P : σ → Prop} (hinit : P s)
    (hstep : ∀ t e u, P t → step t e = some u → P u)
    {labels : List ε} {u : σ} (hrun : run step s labels = some u) : P u :=
  run_invariant (P := fun _ t => P t) hinit (fun _ t e u _ => hstep t e u) hrun

/-- The history has a step that meets `C`, and `P` holds of the labels after the
last such step. -/
def SinceStep (step : σ → ε → Option σ) (C : σ → ε → Prop) (s : σ) (P : List ε → Prop)
    (history : List ε) : Prop :=
  ∃ before e after t u, history = before ++ e :: after ∧ run step s before = some t ∧
    step t e = some u ∧ C t e ∧ EveryStep step (fun v f => ¬ C v f) u after ∧ P after

section SinceStep

variable {C : σ → ε → Prop} {s t u : σ} {history : List ε} {e : ε} {P Q : List ε → Prop}

theorem SinceStep.here (hrun : run step s history = some t) (hstep : step t e = some u)
    (hC : C t e) (hP : P []) : SinceStep step C s P (history ++ [e]) :=
  ⟨history, e, [], t, u, rfl, hrun, hstep, hC, .nil, hP⟩

theorem SinceStep.extend (h : SinceStep step C s P history)
    (hrun : run step s history = some t) (hC : ¬ C t e)
    (hPQ : ∀ after, P after → Q (after ++ [e])) :
    SinceStep step C s Q (history ++ [e]) := by
  obtain ⟨before, f, after, v, w, rfl, hbefore, hstep, hf, hnone, hP⟩ := h
  have hafter : run step w after = some t := by
    rwa [run_append_of_eq hbefore, run_cons_of_eq hstep] at hrun
  refine ⟨before, f, after ++ [e], v, w, by simp, hbefore, hstep, hf, ?_, hPQ after hP⟩
  refine hnone.append fun x hx => ?_
  obtain rfl : t = x := Option.some.inj (hafter.symm.trans hx)
  exact .cons hC fun _ _ => .nil

end SinceStep

/-- How many steps of a run meet `C`, up to the first step that refuses. -/
def countSteps (step : σ → ε → Option σ) (C : σ → ε → Bool) : σ → List ε → Nat
  | _, [] => 0
  | s, e :: labels =>
      (C s e).toNat +
        match step s e with
        | none => 0
        | some t => countSteps step C t labels

section CountSteps

variable (C : σ → ε → Bool)

@[simp] theorem countSteps_nil (s : σ) : countSteps step C s [] = 0 := rfl

theorem countSteps_cons_of_eq {s t : σ} {e : ε} (h : step s e = some t) (labels : List ε) :
    countSteps step C s (e :: labels) = (C s e).toNat + countSteps step C t labels := by
  rw [countSteps, h]

theorem countSteps_concat {s t : σ} {labels : List ε} (h : run step s labels = some t)
    (e : ε) :
    countSteps step C s (labels ++ [e]) = countSteps step C s labels + (C t e).toNat := by
  induction labels generalizing s with
  | nil =>
      obtain rfl : s = t := by simpa using h
      rw [List.nil_append, countSteps_nil, Nat.zero_add, countSteps]
      cases step s e <;> rfl
  | cons f labels ih =>
      obtain ⟨u, hstep, hrun⟩ := run_cons_eq_some.mp h
      rw [List.cons_append, countSteps_cons_of_eq C hstep, countSteps_cons_of_eq C hstep,
        ih hrun, Nat.add_assoc]

end CountSteps

end RockPaperScissors.Library.LabelledRun
