import StateThreads.Lib.HeapTree
import Mathlib.Logic.Function.Basic

/-! Binary trees held in memory by child pointers. A slot is the address of a
pointer: the root variable or a child field of a node. -/
namespace PointerTree
open HeapTree

variable {α : Type}

inductive Slot (α : Type) where
  | root
  | left (a : α)
  | right (a : α)
deriving DecidableEq, Repr

def Slot.owner : Slot α → Option α
  | .root => none
  | .left a => some a
  | .right a => some a

/-- The pointer stored in slot s is the root of exactly this tree. -/
def Holds (link : Slot α → Option α) : Slot α → BinaryTree α → Prop
  | s, .nil => link s = none
  | s, .node a l r => link s = some a ∧ Holds link (.left a) l ∧ Holds link (.right a) r

def Slot.Outside (s : Slot α) (xs : List α) : Prop := ∀ a ∈ xs, s.owner ≠ some a

theorem Slot.Outside.mono {s : Slot α} {xs ys : List α} (h : s.Outside ys) (sub : xs ⊆ ys) : s.Outside xs :=
  fun a ha => h a (sub ha)

theorem Slot.Outside.ne {s : Slot α} {xs : List α} {a : α} (h : s.Outside xs) (ha : a ∈ xs) :
    s ≠ .left a ∧ s ≠ .right a := by
  constructor
  · rintro rfl; exact h a ha rfl
  · rintro rfl; exact h a ha rfl

theorem Slot.outside_left {a : α} {xs : List α} : (Slot.left a).Outside xs ↔ a ∉ xs := by
  constructor
  · intro h ha; exact h a ha rfl
  · rintro h b hb e; cases e; exact h hb

theorem Slot.outside_right {a : α} {xs : List α} : (Slot.right a).Outside xs ↔ a ∉ xs := by
  constructor
  · intro h ha; exact h a ha rfl
  · rintro h b hb e; cases e; exact h hb

/-- Only the pointer itself and the fields of the tree's own nodes matter, so a
tree can be moved to another slot by copying one pointer. -/
theorem Holds.congr {link link' : Slot α → Option α} {s s' : Slot α} {tr : BinaryTree α} (h : Holds link s tr)
    (here : link' s' = link s) (inner : ∀ a ∈ elems tr, link' (.left a) = link (.left a) ∧
      link' (.right a) = link (.right a)) : Holds link' s' tr := by
  induction tr generalizing s s' with
  | nil => exact here.trans h
  | node a l r hl hr =>
    have own := inner a (by simp)
    exact ⟨here.trans h.1, hl h.2.1 own.1 (fun b hb => inner b (by simp [hb])),
      hr h.2.2 own.2 (fun b hb => inner b (by simp [hb]))⟩

end PointerTree
