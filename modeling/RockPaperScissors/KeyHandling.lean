import RockPaperScissors.RecordLoop

namespace RockPaperScissors.KeyHandling

open RockPaperScissors.Library.LabelledRun
open RockPaperScissors.RecordLoop

/-- The next accesses clear the audio-in FIFO, and with them the index is 0 and
`record` is set. -/
def StartsRecording (s : State) : Prop :=
  ∃ t, run step s [.storeControl 0x4, .storeControl 0x0] = some t ∧
    t.bufferIndex = 0 ∧ t.record = true

/-- A press of KEY0 alone that one of the loads has shown is acted on. -/
def KeepsPress (s : State) (loads : List (BitVec 32)) : Prop :=
  0x1 ∈ loads → (∀ v ∈ loads, v = 0 ∨ v = 0x1) →
    ∃ t, run step s (loads.map .loadKey) = some t ∧ StartsRecording t

theorem run_loadKey_held {s : State} (hloc : s.location = .waitRelease)
    {held : List (BitVec 32)} (hheld : ∀ v ∈ held, v ≠ 0) :
    run step s (held.map .loadKey) = some s := by
  induction held with
  | nil => rfl
  | cons v held ih =>
      have hv : v ≠ 0 := hheld v (by simp)
      have hstep : step s (.loadKey v) = some s := by
        simp only [step, hloc, if_neg hv]
      rw [List.map_cons, run_cons_of_eq hstep]
      exact ih fun w hw => hheld w (by simp [hw])

/-- The value of the first load is the one that is handled at the release. -/
theorem run_checkKeys {s : State} (hloc : s.location = .loadKey) (first : BitVec 32)
    {held : List (BitVec 32)} (hheld : ∀ v ∈ held, v ≠ 0) :
    run step s ((first :: held ++ [0]).map .loadKey) =
      some (handleKeys { s with keyValue := first, location := .waitRelease }) := by
  have hfirst : step s (.loadKey first) =
      some { s with keyValue := first, location := .waitRelease } := by
    simp only [step, hloc]
  have hwait := run_loadKey_held
    (s := { s with keyValue := first, location := .waitRelease }) rfl hheld
  rw [List.cons_append, List.map_cons, run_cons_of_eq hfirst, List.map_append,
    run_append_of_eq hwait]
  rfl

theorem startsRecording_handleKeys_iff (s : State) :
    StartsRecording (handleKeys s) ↔ s.keyValue = 0x1 := by
  constructor
  · rintro ⟨t, hrun, -⟩
    obtain ⟨u, hstep, -⟩ := run_cons_eq_some.mp hrun
    rw [handleKeys] at hstep
    split_ifs at hstep with h0 h1
    · exact h0
    · cases moves_of_step hstep with
      | cleared hloc => simp at hloc
    · cases moves_of_step hstep with
      | cleared hloc =>
          exact absurd hloc (returnFromKeys_ne (by decide) (by decide) s)
  · intro hkey
    rw [handleKeys, if_pos hkey]
    exact ⟨_, rfl, rfl, rfl⟩

/-- A press is lost exactly if the first load comes before it, it lasts into
the loop that waits for the release, and no other key is pressed. -/
theorem keepsPress_iff {s : State} (hloc : s.location = .loadKey) (first : BitVec 32)
    {held : List (BitVec 32)} (hheld : ∀ v ∈ held, v ≠ 0) :
    KeepsPress s (first :: held ++ [0]) ↔
      first ≠ 0 ∨ held = [] ∨ ∃ v ∈ held, v ≠ 0x1 := by
  have hstarts : (∃ t, run step s ((first :: held ++ [0]).map .loadKey) = some t ∧
      StartsRecording t) ↔ first = 0x1 := by
    rw [run_checkKeys hloc first hheld]
    simp [startsRecording_handleKeys_iff]
  rw [KeepsPress, hstarts]
  constructor
  · intro hkeeps
    by_contra hnot
    push Not at hnot
    obtain ⟨rfl, hne, hall⟩ := hnot
    obtain ⟨v, held, rfl⟩ := List.exists_cons_of_ne_nil hne
    obtain rfl := hall v (by simp)
    have hloads : ∀ w ∈ 0 :: 0x1 :: held ++ [0], w = 0 ∨ w = (0x1 : BitVec 32) := by
      intro w hw
      simp only [List.cons_append, List.mem_cons, List.mem_append, List.not_mem_nil,
        or_false] at hw
      rcases hw with rfl | rfl | hw | rfl
      · exact Or.inl rfl
      · exact Or.inr rfl
      · exact Or.inr (hall w (by simp [hw]))
      · exact Or.inl rfl
    exact absurd (hkeeps (by simp) hloads) (by decide)
  · rintro hcond hpress honly
    rcases hcond with hfirst | rfl | ⟨v, hv, hother⟩
    · exact (honly first (by simp)).resolve_left hfirst
    · simpa [eq_comm] using hpress
    · rcases honly v (by simp [hv]) with h | h
      · exact absurd h (hheld v hv)
      · exact absurd h hother

theorem keepsPress_iff_long_press :
    KeepsPress quietStart (0x1 :: [0x1, 0x1, 0x1] ++ [0]) :=
  (@keepsPress_iff quietStart rfl 0x1 [0x1, 0x1, 0x1] (by simp)).mpr (.inl (by decide))

theorem not_keepsPress_late : ¬ KeepsPress quietStart [0, 0x1, 0] := by
  intro hkeeps
  obtain ⟨t, hrun, hstarts⟩ := hkeeps (by simp) (by simp)
  have hcall := @run_checkKeys quietStart rfl 0 [0x1] (by simp)
  obtain rfl := Option.some.inj (hcall.symm.trans hrun)
  exact absurd ((startsRecording_handleKeys_iff _).mp hstarts) (by decide)

end RockPaperScissors.KeyHandling
