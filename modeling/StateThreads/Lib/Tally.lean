import Mathlib.Data.Finset.Card

/-! Counting the members of a class that changes by one member at a time. The class is a
predicate on a type that may be infinite, and the count is an integer as programs keep it. -/
namespace Counting

universe u

variable {ι : Type u} {p q : ι → Bool} {n : Int} {i : ι}

def Tally (p : ι → Bool) (n : Int) : Prop := ∃ ts : Finset ι, (∀ i, i ∈ ts ↔ p i = true) ∧ n = ts.card

namespace Tally

theorem empty (none_ : ∀ i, p i = false) : Tally p 0 := ⟨∅, by simp [none_], rfl⟩

theorem same (tally : Tally p n) (same : ∀ i, q i = p i) : Tally q n := by
  obtain ⟨ts, mem, count⟩ := tally
  exact ⟨ts, fun i => by rw [mem, same], count⟩

theorem pos_iff (tally : Tally p n) : 0 < n ↔ ∃ i, p i = true := by
  obtain ⟨ts, mem, count⟩ := tally
  rw [count, Int.natCast_pos, Finset.card_pos]
  exact ⟨fun ⟨i, inside⟩ => ⟨i, (mem i).mp inside⟩, fun ⟨i, holds⟩ => ⟨i, (mem i).mpr holds⟩⟩

variable [DecidableEq ι]

theorem add (tally : Tally p n) (before : p i = false) (after : q i = true) (others : ∀ j, j ≠ i → q j = p j) :
    Tally q (n + 1) := by
  obtain ⟨ts, mem, count⟩ := tally
  have new : i ∉ ts := by simp [mem, before]
  refine ⟨insert i ts, fun j => ?_, by rw [count, Finset.card_insert_of_notMem new]; rfl⟩
  rw [Finset.mem_insert]
  by_cases it : j = i
  · simp [it, after]
  · simp [it, mem, others j it]

theorem remove (tally : Tally p n) (before : p i = true) (after : q i = false) (others : ∀ j, j ≠ i → q j = p j) :
    Tally q (n - 1) := by
  obtain ⟨ts, mem, count⟩ := tally
  have old : i ∈ ts := (mem i).mpr before
  have some_ := Finset.card_pos.mpr ⟨i, old⟩
  refine ⟨ts.erase i, fun j => ?_, by rw [count, Finset.card_erase_of_mem old]; omega⟩
  rw [Finset.mem_erase]
  by_cases it : j = i
  · simp [it, after]
  · simp [it, mem, others j it]

end Tally

end Counting
