import Mathlib.Order.Fin.Basic
import Mathlib.Data.ZMod.Defs

/-! Basic types of common.h. A thread, a mutex and a condition variable are
named by the address of their object. -/
namespace StateThreads

abbrev Tid := Nat
abbrev MutexId := Nat
abbrev CondId := Nat

/-- st_utime_t, an unsigned 64-bit count of microseconds; sums wrap. -/
abbrev UTime := Fin (2 ^ 64)

instance UTime.neZero : NeZero (2 ^ 64) := ⟨by decide⟩

def utimeNoTimeout : UTime := Fin.last (2 ^ 64 - 1)

def IsInt (x : Int) : Prop := -2 ^ 31 ≤ x ∧ x < 2 ^ 31

instance (x : Int) : Decidable (IsInt x) := inferInstanceAs (Decidable (_ ∧ _))

/-- The result of an int computation. C does not define one that leaves the range; here it
wraps. -/
def toInt32 (x : Int) : Int := x.bmod (2 ^ 32)

theorem toInt32_eq {x : Int} (int : IsInt x) : toInt32 x = x := by
  unfold IsInt at int
  exact Int.bmod_eq_of_le (by omega) (by omega)

theorem toInt32_int (x : Int) : IsInt (toInt32 x) := by
  have low := Int.le_bmod (x := x) (m := 2 ^ 32) (by decide)
  have high := Int.bmod_lt (x := x) (m := 2 ^ 32) (by decide)
  unfold IsInt toInt32
  omega

theorem toInt32_eq_iff (x : Int) : toInt32 x = x ↔ IsInt x := by
  constructor
  · intro same
    have int := toInt32_int x
    rwa [same] at int
  · exact toInt32_eq

theorem toInt32_add (x y : Int) : toInt32 (toInt32 x + y) = toInt32 (x + y) := Int.bmod_add_bmod

theorem toInt32_sub (x y : Int) : toInt32 (toInt32 x - y) = toInt32 (x - y) := Int.bmod_sub_bmod

inductive Errno where
  | eintr | einval | edeadlk | ebusy | eperm | etime | enomem | ebadf | eexist | enoent | eloop | enospc | emfile
deriving DecidableEq, Repr

end StateThreads
