import Mathlib.Data.List.Nodup

/-! Singly linked lists that are used at their head only. -/
namespace Lifo

universe u
variable {ν : Type u}

/-- From the pointer p the links lead through these nodes, in this order, to NULL. -/
def Listed (next : ν → Option ν) : Option ν → List ν → Prop
  | p, [] => p = none
  | p, x :: xs => p = some x ∧ Listed next (next x) xs

section
variable {next next' : ν → Option ν} {p : Option ν} {x : ν} {xs ys : List ν}

theorem Listed.unique (here : Listed next p xs) (there : Listed next p ys) : xs = ys := by
  induction xs generalizing p ys with
  | nil =>
    cases ys with
    | nil => rfl
    | cons y ys => cases here.symm.trans there.1
  | cons x xs ih =>
    cases ys with
    | nil => cases here.1.symm.trans there
    | cons y ys =>
      obtain rfl : x = y := Option.some.inj (here.1.symm.trans there.1)
      rw [ih here.2 there.2]

theorem Listed.drop (here : Listed next p (ys ++ x :: xs)) : Listed next (some x) (x :: xs) := by
  induction ys generalizing p with
  | nil => exact ⟨rfl, here.2⟩
  | cons y ys ih => exact ih here.2

theorem Listed.nodup (here : Listed next p xs) : xs.Nodup := by
  induction xs generalizing p with
  | nil => exact List.nodup_nil
  | cons x xs ih =>
    refine List.nodup_cons.mpr ⟨fun again => ?_, ih here.2⟩
    obtain ⟨front, back, split⟩ := List.append_of_mem again
    subst split
    have again : Listed next p ((x :: front) ++ x :: back) := here
    -- the two lists from x differ in length
    have same : x :: (front ++ x :: back) = x :: back := Listed.unique ⟨rfl, again.2⟩ again.drop
    have lengths := congrArg List.length same
    simp only [List.length_cons, List.length_append] at lengths
    omega

theorem Listed.frame (here : Listed next p xs) (same : ∀ x ∈ xs, next' x = next x) : Listed next' p xs := by
  induction xs generalizing p with
  | nil => exact here
  | cons x xs ih =>
    refine ⟨here.1, ?_⟩
    rw [same x List.mem_cons_self]
    exact ih here.2 fun y member => same y (List.mem_cons_of_mem x member)

end

end Lifo
