import Mathlib.Data.Set.Basic
import Mathlib.Order.Defs.Unbundled

namespace RockPaperScissors.Library.StrictMinimum

variable {ι V β : Type*} {lt : V → V → Prop}

variable (lt) in
/-- `i` is a candidate of `S` and its value is below that of every other one. -/
def IsStrictMin (S : Set ι) (value : ι → V) (i : ι) : Prop :=
  i ∈ S ∧ ∀ j ∈ S, j ≠ i → lt (value i) (value j)

theorem IsStrictMin.unique [Std.Asymm lt] {S : Set ι} {value : ι → V} {i j : ι}
    (hi : IsStrictMin lt S value i) (hj : IsStrictMin lt S value j) : i = j := by
  by_contra hne
  have hij := hi.2 j hj.1 (Ne.symm hne)
  have hji := hj.2 i hi.1 hne
  exact Std.Asymm.asymm _ _ hij hji

theorem IsStrictMin.mono {S T : Set ι} (hST : S ⊆ T) {value : ι → V} {i : ι}
    (hi : IsStrictMin lt T value i) (hS : i ∈ S) : IsStrictMin lt S value i :=
  ⟨hS, fun j hj => hi.2 j (hST hj)⟩

theorem IsStrictMin.univ {S : Set ι} {value : ι → V} {i : ι}
    (hi : IsStrictMin lt S value i) (hout : ∀ j ∉ S, lt (value i) (value j)) :
    IsStrictMin lt Set.univ value i := by
  refine ⟨Set.mem_univ i, fun j _ hne => ?_⟩
  by_cases hj : j ∈ S
  · exact hi.2 j hj hne
  · exact hout j hj

theorem not_isStrictMin_univ {value : ι → V} {i : ι} :
    ¬ IsStrictMin lt Set.univ value i ↔ ∃ j, j ≠ i ∧ ¬ lt (value i) (value j) := by
  simp [IsStrictMin]

theorem isStrictMin_of_three {value : ι → V} {i j k : ι}
    (hthree : ∀ m, m = i ∨ m = j ∨ m = k) (hj : j ≠ i) (hk : k ≠ i) :
    IsStrictMin lt Set.univ value i ↔ lt (value i) (value j) ∧ lt (value i) (value k) := by
  constructor
  · rintro ⟨-, h⟩
    exact ⟨h j trivial hj, h k trivial hk⟩
  · rintro ⟨hij, hik⟩
    refine ⟨trivial, fun m _ hne => ?_⟩
    rcases hthree m with rfl | rfl | rfl
    exacts [absurd rfl hne, hij, hik]

variable (lt) in
/-- `b` answers for the strict minimum of `S`, or is `default` if there is none. -/
def Answers (S : Set ι) (value : ι → V) (answer : ι → β) (default b : β) : Prop :=
  (∀ i, IsStrictMin lt S value i → b = answer i) ∧
    ((∀ i, ¬ IsStrictMin lt S value i) → b = default)

theorem Answers.of_isStrictMin [Std.Asymm lt] {S : Set ι} {value : ι → V}
    {answer : ι → β} {default : β} {i : ι} (hi : IsStrictMin lt S value i) :
    Answers lt S value answer default (answer i) := by
  constructor
  · intro j hj
    rw [hi.unique hj]
  · intro hnone
    exact absurd hi (hnone i)

theorem Answers.of_none {S : Set ι} {value : ι → V} {answer : ι → β} {default : β}
    (hnone : ∀ i, ¬ IsStrictMin lt S value i) :
    Answers lt S value answer default default :=
  ⟨fun i hi => absurd hi (hnone i), fun _ => rfl⟩

/-- An answer over all candidates is one over `S` exactly when the candidates
outside do not disturb it. -/
theorem Answers.iff_of_univ [Std.Asymm lt] {S : Set ι} {value : ι → V}
    {answer : ι → β} {default b : β} (hinj : Function.Injective answer)
    (hdefault : ∀ i, answer i ≠ default)
    (h : Answers lt Set.univ value answer default b) :
    Answers lt S value answer default b ↔
      (∀ i, IsStrictMin lt S value i → ∀ j ∉ S, lt (value i) (value j)) ∧
        ((∀ i, ¬ IsStrictMin lt S value i) →
          ∀ j ∉ S, ¬ IsStrictMin lt Set.univ value j) := by
  obtain ⟨hsome, hnone⟩ := h
  constructor
  · rintro ⟨hS, hSnone⟩
    constructor
    · intro i hi j hj
      have hb : b = answer i := hS i hi
      by_cases hmin : ∃ k, IsStrictMin lt Set.univ value k
      · obtain ⟨k, hk⟩ := hmin
        obtain rfl : k = i := hinj ((hsome k hk).symm.trans hb)
        refine hk.2 j (Set.mem_univ j) ?_
        rintro rfl
        exact hj hi.1
      · have hbnone : b = default := hnone (not_exists.mp hmin)
        exact absurd (hb.symm.trans hbnone) (hdefault i)
    · intro hempty j _ hj
      have hb : b = default := hSnone hempty
      exact hdefault j ((hsome j hj).symm.trans hb)
  · rintro ⟨hbelow, hundisturbed⟩
    constructor
    · intro i hi
      exact hsome i (hi.univ (hbelow i hi))
    · intro hempty
      refine hnone fun k hk => ?_
      by_cases hkS : k ∈ S
      · exact hempty k (hk.mono (Set.subset_univ S) hkS)
      · exact hundisturbed hempty k hkS hk

theorem isStrictMin_congr {W : Type*} {lt' : W → W → Prop} {S : Set ι} {value : ι → V}
    {value' : ι → W} (h : ∀ i ∈ S, ∀ j ∈ S, lt (value i) (value j) ↔ lt' (value' i) (value' j))
    (i : ι) : IsStrictMin lt S value i ↔ IsStrictMin lt' S value' i := by
  refine and_congr_right fun hi => ?_
  refine forall₂_congr fun j hj => ?_
  rw [h i hi j hj]

end RockPaperScissors.Library.StrictMinimum
