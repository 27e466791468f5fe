import Mathlib.Logic.Function.Basic
import Mathlib.Data.List.Nodup

/-! Singly linked chains whose elements know the pointer that leads to them, so that one can
be taken out without a walk from the root of its chain. -/
namespace Chain

/-- A pointer variable: the root of a chain, or the link inside an element. -/
inductive Slot (β ι : Type) where
  | root (b : β)
  | next (e : ι)
deriving DecidableEq, Repr

structure Links (β ι : Type) where
  load : Slot β ι → Option ι
  pthis : ι → Option (Slot β ι)

variable {β ι : Type}

/-- The chain that starts at a pointer variable holds these elements, in this order, and
each knows the variable that leads to it. -/
def Links.Segment (L : Links β ι) : Slot β ι → List ι → Prop
  | slot, [] => L.load slot = none
  | slot, e :: rest => L.load slot = some e ∧ L.pthis e = some slot ∧ L.Segment (.next e) rest

variable [DecidableEq β] [DecidableEq ι]

def Links.store (L : Links β ι) (slot : Slot β ι) (target : Option ι) : Links β ι :=
  { L with load := Function.update L.load slot target }

def Links.point (L : Links β ι) (target : Option ι) (slot : Slot β ι) : Links β ι :=
  match target with
  | none => L
  | some e => { L with pthis := Function.update L.pthis e (some slot) }

/-- The variable slot, which leads to e, is made to lead to what follows e. -/
def Links.unlink (L : Links β ι) (slot : Slot β ι) (e : ι) : Links β ι :=
  (L.store slot (L.load (.next e))).point (L.load (.next e)) slot

def Links.push (L : Links β ι) (b : β) (e : ι) : Links β ι :=
  (((L.store (.next e) (L.load (.root b))).store (.root b) (some e)).point (some e) (.root b)).point (L.load (.root b)) (.next e)

def Links.forget (L : Links β ι) (e : ι) : Links β ι := { L with pthis := Function.update L.pthis e none }

section
variable {L L' : Links β ι} {slot p : Slot β ι} {l a b : List ι} {e : ι}

omit [DecidableEq β] [DecidableEq ι]

theorem Links.Segment.frame (seg : L.Segment slot l) (load : ∀ s, s ∈ slot :: l.map .next → L'.load s = L.load s)
    (pthis : ∀ e ∈ l, L'.pthis e = L.pthis e) : L'.Segment slot l := by
  induction l generalizing slot with
  | nil =>
    rw [Links.Segment] at seg ⊢
    rw [load slot (by simp), seg]
  | cons e rest ih =>
    obtain ⟨here, back, seg⟩ := seg
    refine ⟨?_, ?_, ?_⟩
    · rw [load slot (by simp), here]
    · rw [pthis e (by simp), back]
    · refine ih seg (fun s member => load s ?_) fun x member => pthis x (List.mem_cons_of_mem _ member)
      rw [List.map_cons]
      exact List.mem_cons_of_mem _ member

theorem Links.Segment.back_split (seg : L.Segment slot (a ++ e :: b)) :
    ∃ p, L.pthis e = some p ∧ L.load p = some e ∧ p ∈ slot :: a.map .next ∧ L.Segment (.next e) b := by
  induction a generalizing slot with
  | nil =>
    obtain ⟨here, back, seg⟩ := seg
    exact ⟨slot, back, here, by simp, seg⟩
  | cons x a ih =>
    obtain ⟨-, -, seg⟩ := seg
    obtain ⟨p, back, here, one, rest⟩ := ih seg
    rw [List.map_cons]
    exact ⟨p, back, here, List.mem_cons_of_mem _ one, rest⟩

theorem Links.Segment.load_eq (seg : L.Segment slot l) : L.load slot = l.head? := by
  cases l with
  | nil => exact seg
  | cons e rest => exact seg.1

end

section
variable {L : Links β ι} {slot p : Slot β ι} {l a b : List ι} {e : ι} {i : β}

@[simp] theorem Links.store_load (L : Links β ι) (slot s : Slot β ι) (target : Option ι) :
    (L.store slot target).load s = if s = slot then target else L.load s := by
  simp [Links.store, Function.update_apply]

@[simp] theorem Links.store_pthis (L : Links β ι) (slot : Slot β ι) (target : Option ι) :
    (L.store slot target).pthis = L.pthis := rfl

omit [DecidableEq β] in
@[simp] theorem Links.point_load (L : Links β ι) (target : Option ι) (slot : Slot β ι) :
    (L.point target slot).load = L.load := by
  cases target <;> rfl

omit [DecidableEq β] in
@[simp] theorem Links.point_pthis (L : Links β ι) (target : Option ι) (slot : Slot β ι) (x : ι) :
    (L.point target slot).pthis x = if target = some x then some slot else L.pthis x := by
  cases target with
  | none => rfl
  | some e => simp [Links.point, Function.update_apply, eq_comm]

theorem Links.Segment.unlink (seg : L.Segment slot (a ++ e :: b)) (distinct : (slot :: (a ++ e :: b).map .next).Nodup)
    (back : L.pthis e = some p) : (L.unlink p e).Segment slot (a ++ b) := by
  induction a generalizing slot with
  | nil =>
    obtain ⟨-, back', seg⟩ := seg
    obtain rfl : slot = p := Option.some.inj (back'.symm.trans back)
    cases b with
    | nil =>
      have last : L.load (.next e) = none := seg
      simp [Links.Segment, Links.unlink, last]
    | cons n b =>
      obtain ⟨after, -, seg⟩ := seg
      simp only [List.nil_append, List.map_cons, List.nodup_cons, List.mem_cons, List.mem_map, not_or] at distinct
      refine ⟨by simp [Links.unlink, after], by simp [Links.unlink, after], seg.frame (fun s member => ?_) fun x member => ?_⟩
      · have other : s ≠ slot := by
          rintro rfl
          obtain rfl | later := List.mem_cons.mp member
          · exact distinct.1.2.1 rfl
          · exact distinct.1.2.2 (List.mem_map.mp later)
        simp [Links.unlink, other]
      · have other : n ≠ x := by
          rintro rfl
          exact distinct.2.2.1 ⟨n, member, rfl⟩
        simp [Links.unlink, after, other]
  | cons x a ih =>
    obtain ⟨here, back', seg⟩ := seg
    obtain ⟨p', samep, -, before, rest⟩ := seg.back_split
    obtain rfl : p' = p := Option.some.inj (samep.symm.trans back)
    rw [List.cons_append, List.map_cons] at distinct
    obtain ⟨first, distinct⟩ := List.nodup_cons.mp distinct
    have other : slot ≠ p' := by
      rintro rfl
      apply first
      obtain rfl | later := List.mem_cons.mp before
      · simp
      · simp only [List.map_append, List.mem_cons, List.mem_append]
        exact .inr (.inl later)
    have notNext : L.load (.next e) ≠ some x := by
      rw [rest.load_eq]
      intro head
      have member := List.mem_of_mem_head? (Option.mem_def.mpr head)
      apply (List.nodup_cons.mp distinct).1
      exact List.mem_map_of_mem (List.mem_append_right a (List.mem_cons_of_mem e member))
    exact ⟨by simp [Links.unlink, other, here], by simp [Links.unlink, notNext, back'], ih seg distinct⟩

theorem Links.Segment.push (seg : L.Segment (.root i) l) (distinct : (e :: l).Nodup) :
    (L.push i e).Segment (.root i) (e :: l) := by
  obtain ⟨fresh, distinct⟩ := List.nodup_cons.mp distinct
  have notFirst : L.load (.root i) ≠ some e := by
    rw [seg.load_eq]
    intro head
    exact fresh (List.mem_of_mem_head? (Option.mem_def.mpr head))
  refine ⟨by simp [Links.push], by simp [Links.push, notFirst], ?_⟩
  cases l with
  | nil =>
    have empty : L.load (.root i) = none := seg
    simp [Links.Segment, Links.push, empty]
  | cons n l =>
    obtain ⟨first, -, seg⟩ := seg
    simp only [List.mem_cons, not_or] at fresh
    refine ⟨by simp [Links.push, first], by simp [Links.push, first], seg.frame (fun s member => ?_) fun x member => ?_⟩
    · have other : s ≠ .next e ∧ s ≠ .root i := by
        obtain rfl | later := List.mem_cons.mp member
        · simpa using Ne.symm fresh.1
        · obtain ⟨x, there, rfl⟩ := List.mem_map.mp later
          have other : x ≠ e := by rintro rfl; exact fresh.2 there
          simpa using other
      simp [Links.push, other]
    · have other : n ≠ x ∧ e ≠ x := by
        constructor
        · rintro rfl; exact (List.nodup_cons.mp distinct).1 member
        · rintro rfl; exact fresh.2 member
      simp [Links.push, first, other]

omit [DecidableEq β] in
theorem Links.Segment.forget (seg : L.Segment slot l) (away : e ∉ l) : (L.forget e).Segment slot l := by
  refine seg.frame (fun s _ => rfl) fun x member => ?_
  have other : x ≠ e := by rintro rfl; exact away member
  simp [Links.forget, other]

end

structure Links.Table (L : Links β ι) (chains : β → List ι) : Prop where
  seg : ∀ i, L.Segment (.root i) (chains i)
  distinct : ∀ i, (chains i).Nodup
  apart : ∀ i j, i ≠ j → List.Disjoint (chains i) (chains j)

section
variable {L : Links β ι} {chains : β → List ι} {e : ι} {i : β}

omit [DecidableEq β] [DecidableEq ι] in
theorem Links.Table.slots (table : L.Table chains) (i : β) : (Slot.root i :: (chains i).map Slot.next).Nodup := by
  refine List.nodup_cons.mpr ⟨by simp, (table.distinct i).map ?_⟩
  intro x y same
  exact Slot.next.inj same

omit [DecidableEq β] [DecidableEq ι] in
theorem Links.Table.apart_slots (table : L.Table chains) {j : β} (other : j ≠ i) {s : Slot β ι}
    (member : s ∈ Slot.root i :: (chains i).map Slot.next) : s ∉ Slot.root j :: (chains j).map Slot.next := by
  intro there
  obtain rfl | inside := List.mem_cons.mp member
  · simp only [List.mem_cons, Slot.root.injEq, List.mem_map, reduceCtorEq, and_false, exists_false, or_false] at there
    exact other there.symm
  · obtain ⟨x, here, rfl⟩ := List.mem_map.mp inside
    simp only [List.mem_cons, reduceCtorEq, List.mem_map, Slot.next.injEq, exists_eq_right, false_or] at there
    exact table.apart j i other there here

omit [DecidableEq β] in
theorem Links.Table.forget (table : L.Table chains) (away : ∀ j, e ∉ chains j) : (L.forget e).Table chains where
  seg j := (table.seg j).forget (away j)
  distinct := table.distinct
  apart := table.apart

theorem Links.Table.unlink (table : L.Table chains) (member : e ∈ chains i) :
    ∃ p, L.pthis e = some p ∧ L.load p = some e ∧ (∀ x, p = .next x → x ∈ chains i) ∧
      (∀ x, L.load (.next e) = some x → x ∈ chains i) ∧
      ((L.unlink p e).forget e).Table (Function.update chains i ((chains i).erase e)) := by
  obtain ⟨a, b, split⟩ := List.append_of_mem member
  have seg := table.seg i
  have slots := table.slots i
  rw [split] at seg
  obtain ⟨p, back, here, before, rest⟩ := seg.back_split
  have follows : ∀ x, L.load (.next e) = some x → x ∈ chains i := by
    intro x next
    rw [rest.load_eq] at next
    rw [split]
    exact List.mem_append_right a (List.mem_cons_of_mem e (List.mem_of_mem_head? (Option.mem_def.mpr next)))
  have owned : p ∈ Slot.root i :: (chains i).map Slot.next := by
    rw [split, List.map_append, List.mem_cons, List.mem_append]
    obtain rfl | inside := List.mem_cons.mp before
    · exact .inl rfl
    · exact .inr (.inl inside)
  have front : e ∉ a ∧ e ∉ b := by
    have distinct := table.distinct i
    rw [split, List.nodup_append] at distinct
    exact ⟨fun there => distinct.2.2 e there e (by simp) rfl, (List.nodup_cons.mp distinct.2.1).1⟩
  have erased : (chains i).erase e = a ++ b := by
    rw [split, List.erase_append_right _ front.1, List.erase_cons_head]
  refine ⟨p, back, here, ?_, follows, ?_, ?_, ?_⟩
  · rintro x rfl
    simpa using owned
  · intro j
    by_cases h : j = i
    · subst h
      rw [Function.update_self, erased]
      rw [split] at slots
      exact (seg.unlink slots back).forget (by simp [front])
    · rw [Function.update_of_ne h]
      have away : e ∉ chains j := fun there => table.apart j i h there member
      refine Links.Segment.forget ((table.seg j).frame (fun s there => ?_) fun x there => ?_) away
      · have other : s ≠ p := by
          rintro rfl
          exact table.apart_slots h owned there
        simp [Links.unlink, other]
      · have other : L.load (.next e) ≠ some x := fun next => table.apart j i h there (follows x next)
        simp [Links.unlink, other]
  · intro j
    by_cases h : j = i
    · subst h
      rw [Function.update_self]
      exact (table.distinct j).erase e
    · rw [Function.update_of_ne h]
      exact table.distinct j
  · have smaller : ∀ j, Function.update chains i ((chains i).erase e) j ⊆ chains j := by
      intro j
      by_cases h : j = i
      · subst h
        rw [Function.update_self]
        exact List.erase_subset
      · rw [Function.update_of_ne h]
        exact List.Subset.refl _
    intro j k other x here there
    exact table.apart j k other (smaller j here) (smaller k there)

theorem Links.Table.push (table : L.Table chains) (i : β) (fresh : ∀ j, e ∉ chains j) :
    (L.push i e).Table (Function.update chains i (e :: chains i)) where
  seg j := by
    by_cases h : j = i
    · subst h
      rw [Function.update_self]
      exact (table.seg j).push (List.nodup_cons.mpr ⟨fresh j, table.distinct j⟩)
    · rw [Function.update_of_ne h]
      refine (table.seg j).frame (fun s there => ?_) fun x there => ?_
      · have other : s ≠ .next e ∧ s ≠ .root i := by
          obtain rfl | inside := List.mem_cons.mp there
          · simpa using h
          · obtain ⟨x, here, rfl⟩ := List.mem_map.mp inside
            have other : x ≠ e := by rintro rfl; exact fresh j here
            simpa using other
        simp [Links.push, other]
      · have new : e ≠ x := by rintro rfl; exact fresh j there
        have other : L.load (.root i) ≠ some x := by
          rw [(table.seg i).load_eq]
          intro head
          exact table.apart j i h there (List.mem_of_mem_head? (Option.mem_def.mpr head))
        simp [Links.push, new, other]
  distinct j := by
    by_cases h : j = i
    · subst h
      rw [Function.update_self]
      exact List.nodup_cons.mpr ⟨fresh j, table.distinct j⟩
    · rw [Function.update_of_ne h]
      exact table.distinct j
  apart j k other := by
    have added : ∀ j x, x ∈ Function.update chains i (e :: chains i) j → x ∈ chains j ∨ j = i ∧ x = e := by
      intro j x member
      by_cases h : j = i
      · subst h
        rw [Function.update_self] at member
        obtain rfl | old := List.mem_cons.mp member
        · exact .inr ⟨rfl, rfl⟩
        · exact .inl old
      · rw [Function.update_of_ne h] at member
        exact .inl member
    intro x here there
    obtain old | ⟨rfl, rfl⟩ := added j x here
    · obtain old' | ⟨rfl, rfl⟩ := added k x there
      · exact table.apart j k other old old'
      · exact fresh j old
    · obtain old' | ⟨rfl, -⟩ := added k x there
      · exact fresh k old'
      · exact other rfl

end

end Chain
