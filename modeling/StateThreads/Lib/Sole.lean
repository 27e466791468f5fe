import Mathlib.Logic.Function.Basic

/-! A thing of which there is one: it lies in a place that any party may take it from, or one
party has it. The place is given by the number of things in it. -/
namespace Token

universe u

variable {ι : Type u} {n : Nat} {has : ι → Bool}

def Sole (n : Nat) (has : ι → Bool) : Prop :=
  n = 1 ∧ (∀ i, has i = false) ∨ n = 0 ∧ ∃ i, has i = true ∧ ∀ j, has j = true → j = i

theorem Sole.placed (none_ : ∀ i, has i = false) : Sole 1 has := .inl ⟨rfl, none_⟩

theorem Sole.empty (sole : Sole n has) {i : ι} (mine : has i = true) : n = 0 := by
  obtain ⟨-, none_⟩ | ⟨zero, -⟩ := sole
  · simp [none_ i] at mine
  · exact zero

theorem Sole.unique (sole : Sole n has) {i j : ι} (mine : has i = true) (yours : has j = true) : i = j := by
  obtain ⟨-, none_⟩ | ⟨-, k, -, only⟩ := sole
  · simp [none_ i] at mine
  · rw [only i mine, only j yours]

variable [DecidableEq ι]

theorem Sole.take (sole : Sole (n + 1) has) (i : ι) : Sole n (Function.update has i true) := by
  obtain ⟨one, none_⟩ | ⟨zero, -⟩ := sole
  · refine .inr ⟨by omega, i, by simp, fun j yours => ?_⟩
    by_contra other
    simp [Function.update_of_ne other, none_ j] at yours
  · omega

theorem Sole.put (sole : Sole n has) {i : ι} (mine : has i = true) : Sole (n + 1) (Function.update has i false) := by
  have zero := sole.empty mine
  refine .inl ⟨by omega, fun j => ?_⟩
  by_cases same : j = i
  · simp [same]
  · rw [Function.update_of_ne same]
    by_contra yours
    exact same (sole.unique (by simpa using yours) mine)

end Token
