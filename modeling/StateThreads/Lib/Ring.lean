import Mathlib.Logic.Function.Basic
import Mathlib.Data.List.Nodup

/-! Circular doubly linked lists through a head that is itself a node. A null pointer, or
links that were never set, are none. -/
namespace Ring

universe u

structure Links (ν : Type u) where
  next : ν → Option ν
  prev : ν → Option ν

variable {ν : Type u}

def Path (r : Links ν) : ν → List ν → Prop
  | _, [] => True
  | x, y :: ys => r.next x = some y ∧ r.prev y = some x ∧ Path r y ys

/-- xs are the nodes on the ring of head, each once. -/
structure Circle (r : Links ν) (head : ν) (xs : List ν) : Prop where
  nodup : (head :: xs).Nodup
  path : Path r head (xs ++ [head])

def lastFrom : ν → List ν → ν
  | x, [] => x
  | _, y :: ys => lastFrom y ys

section
variable {r r' : Links ν} {x head : ν} {xs ys zs : List ν}

@[simp] theorem lastFrom_concat (x y : ν) (ys : List ν) : lastFrom x (ys ++ [y]) = y := by
  induction ys generalizing x with
  | nil => rfl
  | cons z ys ih => exact ih z

theorem lastFrom_mem (x : ν) (ys : List ν) : lastFrom x ys ∈ x :: ys := by
  induction ys generalizing x with
  | nil => exact List.mem_singleton_self x
  | cons y ys ih => exact List.mem_cons_of_mem _ (ih y)

theorem lastFrom_not_mem (nodup : (x :: ys).Nodup) : lastFrom x ys ∉ (x :: ys).dropLast := by
  induction ys generalizing x with
  | nil => simp
  | cons y ys ih =>
    obtain ⟨away, rest⟩ := List.nodup_cons.mp nodup
    rw [List.dropLast_cons_cons, List.mem_cons, not_or]
    exact ⟨fun same => away (same ▸ lastFrom_mem y ys), ih rest⟩

theorem path_append : Path r x (ys ++ zs) ↔ Path r x ys ∧ Path r (lastFrom x ys) zs := by
  induction ys generalizing x with
  | nil => simp [Path, lastFrom]
  | cons y ys ih => simp [Path, lastFrom, ih, and_assoc]

/-- A path is not disturbed by what happens to other nodes. Its first node may get another
one before it, and its last another one after it. -/
theorem Path.frame (path : Path r x ys) (next : ∀ a ∈ (x :: ys).dropLast, r'.next a = r.next a)
    (prev : ∀ a ∈ ys, r'.prev a = r.prev a) : Path r' x ys := by
  induction ys generalizing x with
  | nil => trivial
  | cons y ys ih =>
    obtain ⟨forth, back, rest⟩ := path
    refine ⟨?_, ?_, ih rest ?_ ?_⟩
    · rw [next x (by simp), forth]
    · rw [prev y (by simp), back]
    · exact fun a ha => next a (by simp [ha])
    · exact fun a ha => prev a (List.mem_cons_of_mem _ ha)

/-- A ring cut open after its front: the node that comes next, and the way from there
back to the head. -/
theorem Circle.cut {front back : List ν} (circle : Circle r head (front ++ back)) {l : ν} {rest : List ν}
    (open_ : back ++ [head] = l :: rest) :
    Path r head front ∧ r.next (lastFrom head front) = some l ∧ r.prev l = some (lastFrom head front) ∧
      Path r l rest := by
  have path := circle.path
  rw [List.append_assoc, path_append, open_] at path
  exact path

structure Apart (head : ν) (front back : List ν) (l : ν) (rest : List ν) (e : ν) : Prop where
  last : lastFrom head front ∉ (head :: front).dropLast ∧ lastFrom head front ∉ (l :: rest).dropLast
  next : l ∉ front ∧ l ∉ rest
  fresh : e ∉ head :: front ∧ e ∉ l :: rest

theorem Apart.of_nodup {front back : List ν} {l : ν} {rest : List ν} {e : ν} (open_ : back ++ [head] = l :: rest)
    (nodup : (e :: head :: (front ++ back)).Nodup) : Apart head front back l rest e := by
  obtain ⟨fresh, nodup⟩ := List.nodup_cons.mp nodup
  have parts : ((head :: front) ++ back).Nodup := nodup
  have targets : (front ++ l :: rest).Nodup := by
    rw [← open_, ← List.append_assoc]
    exact (List.perm_append_singleton head (front ++ back)).nodup_iff.mpr nodup
  rw [List.nodup_append] at parts targets
  constructor
  · refine ⟨lastFrom_not_mem parts.1, fun behind => ?_⟩
    rw [← open_, List.dropLast_concat] at behind
    exact parts.2.2 _ (lastFrom_mem head front) _ behind rfl
  · exact ⟨fun before => targets.2.2 _ before _ List.mem_cons_self rfl, (List.nodup_cons.mp targets.2.1).1⟩
  · rw [← open_]
    simp only [List.mem_cons, List.mem_append, List.not_mem_nil, or_false] at fresh ⊢
    tauto

theorem Apart.frame {front back : List ν} {l : ν} {rest : List ν} {e : ν} (apart : Apart head front back l rest e)
    (before : Path r head front) (after : Path r l rest) (r' : Links ν)
    (next : ∀ a, a ≠ lastFrom head front → a ≠ e → r'.next a = r.next a)
    (prev : ∀ a, a ≠ l → a ≠ e → r'.prev a = r.prev a) : Path r' head front ∧ Path r' l rest := by
  obtain ⟨last, following, fresh⟩ := apart
  constructor
  · apply before.frame
    · exact fun a ha => next a (fun same => last.1 (same ▸ ha)) fun same => fresh.1 (same ▸ List.dropLast_subset _ ha)
    · exact fun a ha => prev a (fun same => following.1 (same ▸ ha)) fun same => fresh.1 (same ▸ List.mem_cons_of_mem _ ha)
  · apply after.frame
    · exact fun a ha => next a (fun same => last.2 (same ▸ ha)) fun same => fresh.2 (same ▸ List.dropLast_subset _ ha)
    · exact fun a ha => prev a (fun same => following.2 (same ▸ ha)) fun same => fresh.2 (same ▸ List.mem_cons_of_mem _ ha)

theorem Circle.next {front back : List ν} (circle : Circle r head (front ++ x :: back)) :
    r.next x = (back ++ [head]).head? := by
  rw [List.append_cons] at circle
  obtain ⟨l, rest, open_⟩ := List.exists_cons_of_ne_nil (List.concat_ne_nil head back)
  obtain ⟨-, next, -⟩ := circle.cut open_
  rw [lastFrom_concat] at next
  rw [open_]
  exact next

theorem Circle.first (circle : Circle r head xs) : r.next head = (xs ++ [head]).head? := by
  have path := circle.path
  cases xs with
  | nil => exact path.1
  | cons x xs => exact path.1

theorem Path.unique (path : Path r x (xs ++ [head])) (path' : Path r x (ys ++ [head])) (away : head ∉ xs)
    (away' : head ∉ ys) : xs = ys := by
  induction xs generalizing x ys with
  | nil =>
    cases ys with
    | nil => rfl
    | cons y ys =>
      have same : head = y := Option.some.inj (path.1.symm.trans path'.1)
      exact absurd (same ▸ List.mem_cons_self) away'
  | cons z xs ih =>
    cases ys with
    | nil =>
      have same : z = head := Option.some.inj (path.1.symm.trans path'.1)
      exact absurd (same ▸ List.mem_cons_self) away
    | cons y ys =>
      obtain rfl : z = y := Option.some.inj (path.1.symm.trans path'.1)
      have rest := ih path.2.2 path'.2.2 (fun mem => away (List.mem_cons_of_mem _ mem))
        fun mem => away' (List.mem_cons_of_mem _ mem)
      rw [rest]

theorem Circle.unique (circle : Circle r head xs) (circle' : Circle r head ys) : xs = ys :=
  circle.path.unique circle'.path (List.nodup_cons.mp circle.nodup).1 (List.nodup_cons.mp circle'.nodup).1

theorem Circle.last (circle : Circle r head xs) : r.prev head = some (lastFrom head xs) := by
  have path := circle.path
  rw [path_append] at path
  exact path.2.2.1

end

variable [DecidableEq ν]

def Links.init (head : ν) : Links ν where
  next := Function.update (fun _ => none) head (some head)
  prev := Function.update (fun _ => none) head (some head)

/-- Insert e before l, which must be on a ring. -/
def Links.insertBefore (r : Links ν) (e l : ν) : Option (Links ν) := do
  let p ← r.prev l
  some ⟨Function.update (Function.update r.next e (some l)) p (some e),
    Function.update (Function.update r.prev e (some p)) l (some e)⟩

def Links.remove (r : Links ν) (e : ν) : Option (Links ν) := do
  let p ← r.prev e
  let n ← r.next e
  some ⟨Function.update r.next p (some n), Function.update r.prev n (some p)⟩

def Links.clear (r : Links ν) (e : ν) : Links ν := ⟨Function.update r.next e none, Function.update r.prev e none⟩

variable {r : Links ν} {head e : ν} {front back : List ν}

theorem Circle.init (head : ν) : Circle (Links.init head) head [] := by
  refine ⟨List.nodup_singleton head, ?_, ?_, trivial⟩ <;> simp [Links.init]

theorem Circle.insertBefore (circle : Circle r head (front ++ back)) (fresh : e ∉ head :: (front ++ back)) {l : ν}
    (at_ : (back ++ [head]).head? = some l) :
    ∃ r', r.insertBefore e l = some r' ∧ Circle r' head (front ++ e :: back) := by
  obtain ⟨rest, open_⟩ : ∃ rest, back ++ [head] = l :: rest := by
    obtain ⟨l', rest, open_⟩ := List.exists_cons_of_ne_nil (List.concat_ne_nil head back)
    obtain rfl : l' = l := by simpa [open_] using at_
    exact ⟨rest, open_⟩
  have nodup : (e :: head :: (front ++ back)).Nodup := List.nodup_cons.mpr ⟨fresh, circle.nodup⟩
  have apart := Apart.of_nodup open_ nodup
  obtain ⟨before, -, prev, after⟩ := circle.cut open_
  have notLast : e ≠ lastFrom head front := fun same => apart.fresh.1 (same ▸ lastFrom_mem head front)
  have notNext : e ≠ l := fun same => apart.fresh.2 (same ▸ List.mem_cons_self)
  refine ⟨_, by simp only [Links.insertBefore, prev]; rfl, ?_, ?_⟩
  · have moved : (head :: (front ++ e :: back)).Perm (e :: head :: (front ++ back)) :=
      (List.Perm.cons head List.perm_middle).trans (List.Perm.swap ..)
    exact moved.nodup_iff.mpr nodup
  · rw [List.append_assoc, List.cons_append, open_, path_append]
    obtain ⟨before', after'⟩ := apart.frame before after
      ⟨Function.update (Function.update r.next e (some l)) (lastFrom head front) (some e),
        Function.update (Function.update r.prev e (some (lastFrom head front))) l (some e)⟩
      (fun a ha he => by simp [ha, he]) fun a ha he => by simp [ha, he]
    refine ⟨before', ?_, ?_, ?_, ?_, after'⟩ <;> simp [notLast, notNext]

theorem Circle.remove (circle : Circle r head (front ++ e :: back)) :
    ∃ r', r.remove e = some r' ∧ Circle (r'.clear e) head (front ++ back) := by
  have moved : (head :: (front ++ e :: back)).Perm (e :: head :: (front ++ back)) :=
    (List.Perm.cons head List.perm_middle).trans (List.Perm.swap ..)
  have nodup := moved.nodup_iff.mp circle.nodup
  obtain ⟨l, rest, open_⟩ := List.exists_cons_of_ne_nil (List.concat_ne_nil head back)
  have apart := Apart.of_nodup open_ nodup
  have whole : e :: back ++ [head] = e :: l :: rest := by rw [List.cons_append, open_]
  obtain ⟨before, -, prev, next, -, after⟩ := circle.cut whole
  have notLast : e ≠ lastFrom head front := fun same => apart.fresh.1 (same ▸ lastFrom_mem head front)
  have notNext : e ≠ l := fun same => apart.fresh.2 (same ▸ List.mem_cons_self)
  refine ⟨_, by simp only [Links.remove, prev, next]; rfl, (List.nodup_cons.mp nodup).2, ?_⟩
  rw [List.append_assoc, open_, path_append]
  obtain ⟨before', after'⟩ := apart.frame before after
    (Links.clear ⟨Function.update r.next (lastFrom head front) (some l),
      Function.update r.prev l (some (lastFrom head front))⟩ e)
    (fun a ha he => by simp [Links.clear, ha, he]) fun a ha he => by simp [Links.clear, ha, he]
  refine ⟨before', ?_, ?_, after'⟩ <;> simp [Links.clear, notLast.symm, notNext.symm]

end Ring
