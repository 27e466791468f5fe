import Mathlib.Logic.Function.Basic

/-! Passing a stream on through a buffer. The stream is given by the values at its places;
those that have been taken from it are stored at addresses, one by one, and sent on from
there. -/
namespace Relay

universe u v

variable {α : Type u} {β : Type v}

section
variable [DecidableEq α] (source : Nat → β)

def fill : Nat → List α → (α → β) → α → β
  | _, [], mem => mem
  | i, a :: addresses, mem => fill (i + 1) addresses (Function.update mem a (source i))

theorem fill_other {addresses : List α} {a : α} (other : a ∉ addresses) (i : Nat) (mem : α → β) :
    fill source i addresses mem a = mem a := by
  induction addresses generalizing i mem with
  | nil => rfl
  | cons b addresses ih =>
    obtain ⟨differs, later⟩ := List.ne_and_not_mem_of_not_mem_cons other
    rw [fill, ih later, Function.update_of_ne differs]

theorem map_fill {addresses : List α} (distinct : addresses.Nodup) (i : Nat) (mem : α → β) :
    addresses.map (fill source i addresses mem) = (List.range' i addresses.length).map source := by
  induction addresses generalizing i mem with
  | nil => rfl
  | cons a addresses ih =>
    obtain ⟨fresh, distinct⟩ := List.nodup_cons.mp distinct
    rw [List.map_cons, fill, fill_other source fresh, Function.update_self, ih distinct, List.length_cons,
      List.range'_succ, List.map_cons]

end

structure Flow (β : Type v) where
  taken : Nat
  sent : List β

namespace Flow

def start : Flow β := ⟨0, []⟩

def due (source : Nat → β) (f : Flow β) : List β := (List.range f.taken).map source

def Level (source : Nat → β) (f : Flow β) : Prop := f.sent = f.due source

/-- What was sent is the front of what was taken, and at most room values are held back. -/
structure Behind (source : Nat → β) (room : Nat) (f : Flow β) : Prop where
  front : f.sent <+: f.due source
  held : f.taken ≤ f.sent.length + room

/-- Values are taken to the addresses, and sent from some. -/
def pass [DecidableEq α] (source : Nat → β) (mem : α → β) (addresses sent : List α) (f : Flow β) : Flow β :=
  ⟨f.taken + addresses.length, f.sent ++ sent.map (fill source f.taken addresses mem)⟩

variable {source : Nat → β} {room : Nat} {f : Flow β}

theorem due_length (source : Nat → β) (f : Flow β) : (f.due source).length = f.taken := by
  rw [due, List.length_map, List.length_range]

theorem Level.start : (start : Flow β).Level source := rfl

theorem Level.behind (level : f.Level source) : f.Behind source room where
  front := ⟨[], (List.append_nil f.sent).trans level⟩
  held := by
    rw [level, due_length]
    exact Nat.le_add_right f.taken room

section
variable [DecidableEq α] {mem : α → β} {addresses sent : List α}

theorem Level.due_pass (level : f.Level source) (distinct : addresses.Nodup) :
    (f.pass source mem addresses sent).due source = f.sent ++ addresses.map (fill source f.taken addresses mem) := by
  rw [map_fill source distinct, level, due, due, pass, List.range_add, List.map_append, List.range'_eq_map_range]

theorem Level.pass_behind (level : f.Level source) (distinct : addresses.Nodup) (front : sent <+: addresses)
    (fits : addresses.length ≤ room) : (f.pass source mem addresses sent).Behind source room where
  front := by
    rw [level.due_pass distinct, pass]
    exact (List.prefix_append_right_inj _).mpr (front.map _)
  held := by
    have whole := congrArg List.length level
    rw [due_length] at whole
    show f.taken + addresses.length ≤ (f.sent ++ _).length + room
    rw [List.length_append, whole]
    omega

theorem Level.pass_level (level : f.Level source) (distinct : addresses.Nodup) :
    (f.pass source mem addresses addresses).Level source := by
  rw [Level, level.due_pass distinct]
  rfl

end

end Flow

end Relay
