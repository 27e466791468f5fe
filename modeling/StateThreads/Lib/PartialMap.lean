import Mathlib.Algebra.BigOperators.Group.Finset.Basic
import Mathlib.Data.Finset.Card

/-! Partial maps with finitely many keys. -/
namespace PartialMap

universe u v

variable {α : Type u} {β : Type v}

def Sized (f : α → Option β) (n : Int) : Prop := ∃ keys : Finset α, (∀ a, a ∈ keys ↔ f a ≠ none) ∧ n = keys.card

theorem Sized.empty {f : α → Option β} (blank : ∀ a, f a = none) : Sized f 0 :=
  ⟨∅, by simp [blank], by simp⟩

theorem Sized.update [DecidableEq α] {f : α → Option β} {n : Int} (sized : Sized f n) (a : α) (v : Option β) :
    Sized (Function.update f a v) (n + (if v = none then 0 else 1) - (if f a = none then 0 else 1)) := by
  obtain ⟨keys, known, rfl⟩ := sized
  have others : ∀ b, b ≠ a → (b ∈ keys ↔ Function.update f a v b ≠ none) := by
    intro b other
    rw [Function.update_of_ne other, known]
  by_cases gone : v = none
  · refine ⟨keys.erase a, fun b => ?_, ?_⟩
    · by_cases h : b = a
      · subst h; simp [gone]
      · simp only [Finset.mem_erase, ne_eq, h, not_false_eq_true, true_and]
        exact others b h
    · by_cases had : f a = none
      · rw [Finset.erase_eq_of_notMem (by simp [known, had])]
        simp [gone, had]
      · have member : a ∈ keys := (known a).mpr had
        have size := Finset.card_erase_add_one member
        simp only [gone, if_true, had, if_false]
        omega
  · refine ⟨insert a keys, fun b => ?_, ?_⟩
    · by_cases h : b = a
      · subst h; simp [gone]
      · simp only [Finset.mem_insert, h, false_or]
        exact others b h
    · by_cases had : f a = none
      · rw [Finset.card_insert_of_notMem (by simp [known, had])]
        simp [gone, had]
      · rw [Finset.insert_eq_of_mem ((known a).mpr had)]
        simp [gone, had]

def held (v : Option β) : Int := if v = none then 0 else 1

/-- The number of keys that g has more than f; the two differ in finitely many places. -/
def Gained (f g : α → Option β) (n : Int) : Prop :=
  ∃ places : Finset α, (∀ a, a ∉ places → g a = f a) ∧ n = ∑ a ∈ places, (held (g a) - held (f a))

theorem Gained.refl (f : α → Option β) : Gained f f 0 := ⟨∅, fun _ _ => rfl, by simp⟩

theorem Gained.unchanged {f : α → Option β} {n : Int} (gained : Gained f f n) : n = 0 := by
  obtain ⟨places, -, rfl⟩ := gained
  simp

theorem Gained.update [DecidableEq α] {f g : α → Option β} {n : Int} (gained : Gained f g n) (a : α) (v : Option β) :
    Gained f (Function.update g a v) (n + held v - held (g a)) := by
  obtain ⟨places, same, rfl⟩ := gained
  refine ⟨insert a places, fun b away => ?_, ?_⟩
  · simp only [Finset.mem_insert, not_or] at away
    rw [Function.update_of_ne away.1, same b away.2]
  · have whole : ∑ b ∈ insert a places, (held (g b) - held (f b)) = ∑ b ∈ places, (held (g b) - held (f b)) :=
      Finset.sum_insert_of_eq_zero_if_notMem fun away => by rw [same a away, sub_self]
    have member : a ∈ insert a places := Finset.mem_insert_self a places
    have others : ∑ b ∈ (insert a places).erase a, (held (Function.update g a v b) - held (f b)) =
        ∑ b ∈ (insert a places).erase a, (held (g b) - held (f b)) := by
      apply Finset.sum_congr rfl
      intro b there
      rw [Function.update_of_ne (Finset.ne_of_mem_erase there)]
    rw [← whole, ← Finset.add_sum_erase _ _ member, ← Finset.add_sum_erase _ _ member, others, Function.update_self]
    omega

end PartialMap
