import Mathlib.Data.List.Basic
import Mathlib.Data.List.TakeWhile

namespace RockPaperScissors.Library.Tokenizer

variable {α : Type*} (isDelimiter : α → Bool)

/-- The next token and the text after the delimiter that ends it. -/
def nextToken (text : List α) : Option (List α × List α) :=
  match text.dropWhile isDelimiter with
  | [] => none
  | c :: rest =>
      some ((c :: rest).takeWhile fun x => !isDelimiter x,
        ((c :: rest).dropWhile fun x => !isDelimiter x).tail)

variable {isDelimiter}

theorem nextToken_eq_none {text : List α} :
    nextToken isDelimiter text = none ↔ ∀ x ∈ text, isDelimiter x = true := by
  rw [← List.dropWhile_eq_nil_iff, nextToken]
  cases text.dropWhile isDelimiter <;> simp

theorem nextToken_eq_some {text token rest : List α}
    (h : nextToken isDelimiter text = some (token, rest)) :
    token ≠ [] ∧ (∀ x ∈ token, isDelimiter x = false) ∧
      ∃ skipped, (∀ x ∈ skipped, isDelimiter x = true) ∧
        ((text = skipped ++ token ∧ rest = []) ∨
          ∃ d, isDelimiter d = true ∧ text = skipped ++ token ++ d :: rest) := by
  rw [nextToken] at h
  cases hdrop : text.dropWhile isDelimiter with
  | nil => simp [hdrop] at h
  | cons c tail =>
      simp only [hdrop, Option.some.injEq, Prod.mk.injEq] at h
      obtain ⟨rfl, rfl⟩ := h
      have hc : isDelimiter c = false := by
        have hhead := List.head?_dropWhile_not isDelimiter text
        simpa [hdrop] using hhead
      have htext : text.takeWhile isDelimiter ++ c :: tail = text := by
        rw [← hdrop, List.takeWhile_append_dropWhile]
      have hsplit : (c :: tail).takeWhile (fun x => !isDelimiter x) ++
          (c :: tail).dropWhile (fun x => !isDelimiter x) = c :: tail :=
        List.takeWhile_append_dropWhile
      refine ⟨by simp [hc], ?_, text.takeWhile isDelimiter, ?_, ?_⟩
      · intro x hx
        simpa using List.mem_takeWhile_imp hx
      · intro x hx
        exact List.mem_takeWhile_imp hx
      · cases hrest : (c :: tail).dropWhile (fun x => !isDelimiter x) with
        | nil =>
            rw [hrest, List.append_nil] at hsplit
            exact Or.inl ⟨by rw [hsplit, htext], rfl⟩
        | cons d after =>
            have hd : isDelimiter d = true := by
              have hhead := List.head?_dropWhile_not (fun x => !isDelimiter x) (c :: tail)
              simpa [hrest] using hhead
            rw [hrest] at hsplit
            exact Or.inr ⟨d, hd, by rw [List.append_assoc, List.tail_cons, hsplit, htext]⟩

theorem length_lt_of_nextToken {text token rest : List α}
    (h : nextToken isDelimiter text = some (token, rest)) :
    rest.length < text.length := by
  obtain ⟨hne, -, skipped, -, ⟨rfl, rfl⟩ | ⟨d, -, rfl⟩⟩ := nextToken_eq_some h
  · have hpos := List.length_pos_iff.mpr hne
    simp only [List.length_append, List.length_nil]
    omega
  · simp only [List.length_append, List.length_cons]
    omega

variable (isDelimiter) in
def tokens (text : List α) : List (List α) :=
  match _h : nextToken isDelimiter text with
  | none => []
  | some (token, rest) => token :: tokens rest
termination_by text.length
decreasing_by exact length_lt_of_nextToken _h

theorem tokens_of_none {text : List α} (h : nextToken isDelimiter text = none) :
    tokens isDelimiter text = [] := by
  rw [tokens]
  split <;> simp_all

theorem tokens_of_some {text token rest : List α}
    (h : nextToken isDelimiter text = some (token, rest)) :
    tokens isDelimiter text = token :: tokens isDelimiter rest := by
  rw [tokens]
  split <;> simp_all

theorem filter_splitOnP_of_delimiters (skipped text : List α)
    (h : ∀ x ∈ skipped, isDelimiter x = true) :
    ((skipped ++ text).splitOnP isDelimiter).filter (fun t => !t.isEmpty) =
      (text.splitOnP isDelimiter).filter fun t => !t.isEmpty := by
  induction skipped with
  | nil => rfl
  | cons x skipped ih =>
      rw [List.cons_append, List.splitOnP_cons_eq_if_modifyHead, if_pos (h x (by simp))]
      simpa using ih fun y hy => h y (by simp [hy])

/-- The tokens of a text are its fields that are not empty. -/
theorem tokens_eq_filter (text : List α) :
    tokens isDelimiter text =
      (text.splitOnP isDelimiter).filter fun t => !t.isEmpty := by
  induction hlen : text.length using Nat.strong_induction_on generalizing text with
  | _ n ih =>
      cases hnext : nextToken isDelimiter text with
      | none =>
          have hall := nextToken_eq_none.mp hnext
          have hempty := filter_splitOnP_of_delimiters text [] hall
          rw [tokens_of_none hnext]
          simpa using hempty.symm
      | some found =>
          obtain ⟨token, rest⟩ := found
          have hlt := length_lt_of_nextToken hnext
          rw [tokens_of_some hnext, ih rest.length (hlen ▸ hlt) rest rfl]
          obtain ⟨hne, htoken, skipped, hskipped, ⟨rfl, rfl⟩ | ⟨d, hd, rfl⟩⟩ :=
            nextToken_eq_some hnext
          · rw [filter_splitOnP_of_delimiters _ _ hskipped,
              List.splitOnP_eq_singleton htoken]
            simp [hne]
          · rw [List.append_assoc, filter_splitOnP_of_delimiters _ _ hskipped,
              List.splitOnP_append_cons_of_forall_mem htoken d hd]
            simp [hne]

end RockPaperScissors.Library.Tokenizer
