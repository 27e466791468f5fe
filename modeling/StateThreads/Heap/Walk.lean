import StateThreads.Heap.Pointer
import Mathlib.Data.List.Basic

/-! What each loop of the timeout heap does to the pointers, in terms of the
trees they hold. -/
namespace StateThreads
open PointerTree HeapTree

section Fields

variable (q : SleepQ) (p s : Slot Tid) (v : Option Tid) (t u : Tid) (i : Nat)

@[simp] theorem setLink_same : (q.setLink p v).link p = v := by simp [SleepQ.setLink]
@[simp] theorem setLink_other (h : s ≠ p) : (q.setLink p v).link s = q.link s := by simp [SleepQ.setLink, h]
@[simp] theorem setLink_heapIndex : (q.setLink p v).heapIndex = q.heapIndex := rfl
@[simp] theorem setLink_due : (q.setLink p v).due = q.due := rfl
@[simp] theorem setLink_onSleepq : (q.setLink p v).onSleepq = q.onSleepq := rfl
@[simp] theorem setLink_sleepqSize : (q.setLink p v).sleepqSize = q.sleepqSize := rfl
@[simp] theorem setIndex_link : (q.setIndex t i).link = q.link := rfl
@[simp] theorem setIndex_due : (q.setIndex t i).due = q.due := rfl
@[simp] theorem setIndex_onSleepq : (q.setIndex t i).onSleepq = q.onSleepq := rfl
@[simp] theorem setIndex_sleepqSize : (q.setIndex t i).sleepqSize = q.sleepqSize := rfl
@[simp] theorem setIndex_same : (q.setIndex t i).heapIndex t = i := by simp [SleepQ.setIndex]
@[simp] theorem setIndex_other (h : u ≠ t) : (q.setIndex t i).heapIndex u = q.heapIndex u := by
  simp [SleepQ.setIndex, h]

end Fields

structure SameOff (q q' : SleepQ) (p : Slot Tid) (xs : List Tid) : Prop where
  due : q'.due = q.due
  flag : q'.onSleepq = q.onSleepq
  size : q'.sleepqSize = q.sleepqSize
  link : ∀ s, s ≠ p → s.Outside xs → q'.link s = q.link s
  index : ∀ a, a ∉ xs → q'.heapIndex a = q.heapIndex a

theorem SameOff.refl (q : SleepQ) (p : Slot Tid) (xs : List Tid) : SameOff q q p xs :=
  ⟨rfl, rfl, rfl, fun _ _ _ => rfl, fun _ _ => rfl⟩

theorem SameOff.trans {q q' q'' : SleepQ} {p p' : Slot Tid} {xs ys : List Tid} (h : SameOff q q' p xs)
    (h' : SameOff q' q'' p' ys) (sub : ys ⊆ xs) (inner : p' = p ∨ ∃ a ∈ xs, p'.owner = some a) :
    SameOff q q'' p xs := by
  refine ⟨h'.due.trans h.due, h'.flag.trans h.flag, h'.size.trans h.size, ?_, ?_⟩
  · intro s hs out
    have ne : s ≠ p' := by
      rcases inner with rfl | ⟨a, ha, ho⟩
      · exact hs
      · rintro rfl; exact out a ha ho
    exact (h'.link s ne (out.mono sub)).trans (h.link s hs out)
  · intro a ha
    exact (h'.index a (fun m => ha (sub m))).trans (h.index a ha)

theorem SameOff.mono {q q' : SleepQ} {p : Slot Tid} {xs ys : List Tid} (h : SameOff q q' p xs) (sub : xs ⊆ ys) :
    SameOff q q' p ys :=
  ⟨h.due, h.flag, h.size, fun s hs out => h.link s hs (out.mono sub), fun a ha => h.index a (fun m => ha (sub m))⟩

theorem SameOff.fields {q q' : SleepQ} {p : Slot Tid} {xs : List Tid} {tr : BinaryTree Tid}
    (h : SameOff q q' p xs) (apart : p.Outside (elems tr)) (disjoint : ∀ a ∈ elems tr, a ∉ xs) :
    ∀ a ∈ elems tr, q'.link (.left a) = q.link (.left a) ∧ q'.link (.right a) = q.link (.right a) := by
  intro a ha
  have own : ∀ s : Slot Tid, s.owner = some a → s ≠ p := by
    rintro s ho rfl; exact apart a ha ho
  exact ⟨h.link _ (own _ rfl) (Slot.outside_left.mpr (disjoint a ha)),
    h.link _ (own _ rfl) (Slot.outside_right.mpr (disjoint a ha))⟩

theorem SameOff.holds {q q' : SleepQ} {p s : Slot Tid} {xs : List Tid} {tr : BinaryTree Tid}
    (h : SameOff q q' p xs) (held : Holds q.link s tr) (ne : s ≠ p) (out : s.Outside xs)
    (apart : p.Outside (elems tr)) (disjoint : ∀ a ∈ elems tr, a ∉ xs) : Holds q'.link s tr :=
  held.congr (h.link s ne out) (h.fields apart disjoint)

/- One turn of the insertion loop at a node b: the smaller of thread and b ends
up in slot p with both of b's subtrees below it. -/
theorem displace_turn (q : SleepQ) (thread b : Tid) (p : Slot Tid) (index : Nat) (l r : BinaryTree Tid)
    (held : Holds q.link p (.node b l r)) (indexed : q.heapIndex b = index)
    (distinct : (thread :: elems (.node b l r)).Nodup) (outside : p.Outside (thread :: elems (.node b l r))) :
    ∃ q', (if q.due thread < q.due b then displace q thread b p index else q) = q' ∧
      SameOff q q' p [thread] ∧
      q'.link p = some (if q.due thread < q.due b then thread else b) ∧
      Holds q'.link (.left (if q.due thread < q.due b then thread else b)) l ∧
      Holds q'.link (.right (if q.due thread < q.due b then thread else b)) r ∧
      q'.heapIndex (if q.due thread < q.due b then thread else b) = index := by
  obtain ⟨here, heldl, heldr⟩ := held
  by_cases less : q.due thread < q.due b
  · simp only [less, if_true]
    obtain ⟨nl, nr⟩ := outside.ne (List.mem_cons_self (a := thread))
    have fresh : thread ∉ elems l ∧ thread ∉ elems r ∧ thread ≠ b := by
      have := (List.nodup_cons.mp distinct).1
      simp only [elems_node, List.mem_cons, List.mem_append, not_or] at this
      exact ⟨this.2.1, this.2.2, this.1⟩
    have untouched : ∀ s, s ≠ p → s.Outside [thread] → (displace q thread b p index).link s = q.link s := by
      intro s hs out
      obtain ⟨hl, hr⟩ := out.ne (List.mem_singleton_self thread)
      simp [displace, hs, hl, hr]
    have field : ∀ a ∈ elems (.node b l r), ∀ s : Slot Tid, s.owner = some a →
        (displace q thread b p index).link s = q.link s := by
      intro a ha s ho
      apply untouched s
      · rintro rfl; exact outside a (by simpa using Or.inr ha) ho
      · intro c hc hco
        have e : a = c := Option.some.inj (ho.symm.trans hco)
        have ec : c = thread := by simpa using hc
        exact (List.nodup_cons.mp distinct).1 (ec ▸ e ▸ ha)
    have left : (displace q thread b p index).link (.left thread) = q.link (.left b) := by
      simp [displace, nl.symm]
    have right : (displace q thread b p index).link (.right thread) = q.link (.right b) := by
      simp [displace, nr.symm]
    refine ⟨_, rfl, ⟨rfl, rfl, rfl, untouched, ?_⟩, by simp [displace], ?_, ?_, by simp [displace]⟩
    · intro a ha
      simp [displace, show a ≠ thread by simpa using ha]
    · exact heldl.congr left (fun a ha => ⟨field a (by simp [ha]) _ rfl, field a (by simp [ha]) _ rfl⟩)
    · exact heldr.congr right (fun a ha => ⟨field a (by simp [ha]) _ rfl, field a (by simp [ha]) _ rfl⟩)
  · simp only [less, if_false]
    exact ⟨q, rfl, SameOff.refl q p _, here, heldl, heldr, indexed⟩

/-- The state of affairs when the insertion loop, entered at slot p above the
subtree sub with an element to insert, stops at slot p'. Whatever tree x is put
there afterwards, without touching the rest, the whole is the grafted tree. -/
structure Walked (q q' : SleepQ) (target bit : Nat) (sub : BinaryTree Tid) (thread : Tid)
    (p p' : Slot Tid) (index : Nat) : Prop where
  same : SameOff q q' p (thread :: elems sub)
  inner : p' = p ∨ ∃ a ∈ thread :: elems sub, p'.owner = some a
  apart : p'.Outside (carried q.due target bit sub thread :: elems (subAt target bit sub))
  held : Holds q'.link p' (subAt target bit sub)
  kept : ∀ a ∈ elems (subAt target bit sub), q'.heapIndex a = q.heapIndex a
  rebuild : ∀ (link : Slot Tid → Option Tid) (heapIndex : Tid → Nat) (x : BinaryTree Tid),
    (∀ s, s ≠ p' → s.Outside (carried q.due target bit sub thread :: elems (subAt target bit sub)) →
      link s = q'.link s) →
    (∀ a, a ∉ carried q.due target bit sub thread :: elems (subAt target bit sub) →
      heapIndex a = q'.heapIndex a) →
    Holds link p' x → Indexed heapIndex target x →
    Holds link p (graft q.due target x bit sub thread) ∧
      Indexed heapIndex index (graft q.due target x bit sub thread)

theorem walked_here (q : SleepQ) (target : Nat) (sub : BinaryTree Tid) (thread : Tid) (p : Slot Tid)
    (held : Holds q.link p sub) (outside : p.Outside (thread :: elems sub)) :
    Walked q q target 0 sub thread p p target := by
  refine ⟨SameOff.refl q p _, Or.inl rfl, outside, held, fun _ _ => rfl, ?_⟩
  intro link heapIndex x _ _ hx hi
  exact ⟨hx, hi⟩

theorem carried_or_sub_mem (key : Tid → UTime) (target bit : Nat) (sub : BinaryTree Tid) (thread a : Tid)
    (h : a ∈ carried key target bit sub thread :: elems (subAt target bit sub)) : a ∈ thread :: elems sub := by
  rcases List.mem_cons.mp h with rfl | h
  · exact carried_mem key target bit sub thread
  · exact List.mem_cons_of_mem _ (subAt_subset target bit sub h)

/- A walk that went into the branch c of the node top leaves the pointer to top,
its position and its other branch o alone, and so does whatever comes later. -/
theorem Walked.beside {q q' : SleepQ} {target bit i : Nat} {c o : BinaryTree Tid} {top down : Tid}
    {p p' sc so : Slot Tid} (walk : Walked q q' target bit c down sc p' i)
    (here : q.link p = some top) (heldo : Holds q.link so o)
    (ownc : sc.owner = some top) (owno : so.owner = some top) (ne : so ≠ sc)
    (distinct : (top :: down :: (elems c ++ elems o)).Nodup)
    (outside : p.Outside (top :: down :: (elems c ++ elems o)))
    {link : Slot Tid → Option Tid} {heapIndex : Tid → Nat}
    (later : ∀ s, s ≠ p' → s.Outside (carried q.due target bit c down :: elems (subAt target bit c)) →
      link s = q'.link s)
    (laterIndex : ∀ a, a ∉ carried q.due target bit c down :: elems (subAt target bit c) →
      heapIndex a = q'.heapIndex a) :
    link p = some top ∧ Holds link so o ∧ ∀ a ∈ top :: elems o, heapIndex a = q.heapIndex a := by
  simp only [List.nodup_cons, List.mem_cons, List.mem_append, not_or] at distinct
  obtain ⟨⟨top_down, top_c, top_o⟩, ⟨down_c, down_o⟩, branches⟩ := distinct
  have apart_co : ∀ a ∈ elems o, a ∉ elems c := fun a ho hc =>
    (List.disjoint_of_nodup_append branches) hc ho
  -- a slot of top or of the branch o is neither p' nor owned by what the walk carries out
  have free : ∀ s : Slot Tid, s ≠ sc → (∀ a ∈ down :: elems c, s.owner ≠ some a) → link s = q.link s := by
    intro s hs out
    have ne' : s ≠ p' := by
      rintro rfl
      rcases walk.inner with h | ⟨a, ha, ho⟩
      · exact hs h
      · exact out a ha ho
    have out' : s.Outside (carried q.due target bit c down :: elems (subAt target bit c)) :=
      fun a ha => out a (carried_or_sub_mem _ _ _ _ _ _ ha)
    exact (later s ne' out').trans (walk.same.link s hs out)
  have freeIndex : ∀ a, a ∉ down :: elems c → heapIndex a = q.heapIndex a := by
    intro a ha
    exact (laterIndex a (fun h => ha (carried_or_sub_mem _ _ _ _ _ _ h))).trans (walk.same.index a ha)
  refine ⟨?_, ?_, ?_⟩
  · rw [free p, here]
    · rintro rfl; exact outside top (by simp) ownc
    · intro a ha
      refine outside a ?_
      simp only [List.mem_cons, List.mem_append] at ha ⊢
      tauto
  · apply heldo.congr
    · apply free so ne
      intro a ha ho
      have e : top = a := Option.some.inj (owno.symm.trans ho)
      subst e
      simp only [List.mem_cons] at ha
      tauto
    · intro a ha
      have out : ∀ b ∈ down :: elems c, a ≠ b := by
        rintro b hb rfl
        rcases List.mem_cons.mp hb with rfl | hb
        · exact down_o ha
        · exact apart_co a ha hb
      have nt : a ≠ top := by rintro rfl; exact top_o ha
      have field : ∀ s : Slot Tid, s.owner = some a → link s = q.link s := by
        intro s hs
        apply free s
        · rintro rfl; exact nt (Option.some.inj (hs.symm.trans ownc))
        · intro b hb ho
          exact out b hb (Option.some.inj (hs.symm.trans ho))
      exact ⟨field _ rfl, field _ rfl⟩
  · intro a ha
    apply freeIndex a
    intro hb
    rcases List.mem_cons.mp ha with rfl | ha
    · simp only [List.mem_cons] at hb; tauto
    · rcases List.mem_cons.mp hb with rfl | hb
      · exact down_o ha
      · exact apart_co a ha hb

/- One turn of the loop followed by the rest of the walk, in the branch that the
next bit of the target selects. -/
theorem Walked.cons {q q₁ q' : SleepQ} {target bit index : Nat} {b thread : Tid} {l r : BinaryTree Tid}
    {p p' : Slot Tid} (dir : Bool) (hdir : target.testBit bit = dir)
    (turn : SameOff q q₁ p [thread]) (top down : Tid)
    (htop : top = if q.due thread < q.due b then thread else b)
    (hdown : down = if q.due thread < q.due b then b else thread)
    (here : q₁.link p = some top) (heldl : Holds q₁.link (.left top) l) (heldr : Holds q₁.link (.right top) r)
    (placed : q₁.heapIndex top = index) (indexed : Indexed q.heapIndex index (.node b l r))
    (distinct : (thread :: elems (.node b l r)).Nodup) (outside : p.Outside (thread :: elems (.node b l r)))
    (walk : Walked q₁ q' target bit (if dir then r else l) down (if dir then .right top else .left top) p'
      (if dir then 2 * index + 1 else 2 * index)) :
    Walked q q' target (bit + 1) (.node b l r) thread p p' index := by
  have due : q₁.due = q.due := turn.due
  have both : ∀ a, a ∈ top :: down :: (elems l ++ elems r) ↔ a ∈ thread :: elems (.node b l r) := by
    intro a
    rw [htop, hdown]
    split
    · exact Iff.rfl
    · simp only [elems_node, List.mem_cons]
      tauto
  have ends : (top :: down :: (elems l ++ elems r)).Nodup := by
    have perm : (top :: down :: (elems l ++ elems r)).Perm (thread :: elems (.node b l r)) := by
      rw [htop, hdown]
      split
      · exact List.Perm.refl _
      · exact List.Perm.swap _ _ _
    exact perm.nodup_iff.mpr distinct
  have sub : down :: elems (if dir then r else l) ⊆ thread :: elems (.node b l r) := by
    intro a ha
    apply (both a).mp
    cases dir <;> (simp only [List.mem_cons, List.mem_append, Bool.false_eq_true, if_false, if_true] at ha ⊢; tauto)
  have hcarried : carried q.due target (bit + 1) (.node b l r) thread =
      carried q₁.due target bit (if dir then r else l) down := by
    simp only [carried, hdir, due, hdown]
  have hsub : subAt target (bit + 1) (.node b l r) = subAt target bit (if dir then r else l) := by
    simp only [subAt, hdir]
  have owner : (if dir then Slot.right top else Slot.left top).owner = some top := by cases dir <;> rfl
  have topMem : top ∈ thread :: elems (.node b l r) := (both top).mp (by simp)
  have kept_index : ∀ a ∈ elems l ++ elems r, q₁.heapIndex a = q.heapIndex a := by
    intro a ha
    apply turn.index a
    intro h
    have e : a = thread := by simpa using h
    subst e
    exact (List.nodup_cons.mp distinct).1 (List.mem_cons_of_mem _ ha)
  refine ⟨?_, ?_, ?_, ?_, ?_, ?_⟩
  · exact (turn.mono (by simp)).trans walk.same sub (Or.inr ⟨top, topMem, owner⟩)
  · rcases walk.inner with h | ⟨a, ha, ho⟩
    · exact Or.inr ⟨top, topMem, h ▸ owner⟩
    · exact Or.inr ⟨a, sub ha, ho⟩
  · rw [hcarried, hsub]; exact walk.apart
  · rw [hsub]; exact walk.held
  · intro a ha
    rw [hsub] at ha
    refine (walk.kept a ha).trans (kept_index a ?_)
    have := subAt_subset target bit _ ha
    cases dir
    · exact List.mem_append_left _ this
    · exact List.mem_append_right _ this
  · intro link heapIndex x later laterIndex hx hi
    rw [hcarried, hsub] at later laterIndex
    obtain ⟨hl, hi'⟩ := walk.rebuild link heapIndex x later laterIndex hx hi
    rw [due] at hl hi'
    cases dir
    · have side := walk.beside here heldr rfl rfl (by simp) ends
        (outside.mono (fun a ha => (both a).mp ha)) later laterIndex
      simp only [graft, hdir, Bool.false_eq_true, if_false, ← htop, ← hdown]
      refine ⟨⟨side.1, hl, side.2.1⟩, (side.2.2 top (by simp)).trans placed, hi', ?_⟩
      apply indexed.2.2.congr
      intro a ha
      exact (side.2.2 a (by simp [ha])).trans (kept_index a (by simp [ha]))
    · have perm : (top :: down :: (elems r ++ elems l)).Perm (top :: down :: (elems l ++ elems r)) :=
        (List.perm_append_comm.cons _).cons _
      have side := walk.beside here heldl rfl rfl (by simp) (perm.nodup_iff.mpr ends)
        (outside.mono (fun a ha => (both a).mp (perm.mem_iff.mp ha))) later laterIndex
      simp only [graft, hdir, if_true, ← htop, ← hdown]
      refine ⟨⟨side.1, side.2.1, hl⟩, (side.2.2 top (by simp)).trans placed, ?_, hi'⟩
      apply indexed.2.1.congr
      intro a ha
      exact (side.2.2 a (by simp [ha])).trans (kept_index a (by simp [ha]))

/-- The insertion loop finishes without meeting a null pointer whenever the
target is a position of the tree or the one after its last. -/
theorem heapInsertLoop_walks {n target : Nat} (bit : Nat) (sub : BinaryTree Tid) (q : SleepQ) (thread : Tid)
    (p : Slot Tid) (index : Nat) (held : Holds q.link p sub) (indexed : Indexed q.heapIndex index sub)
    (distinct : (thread :: elems sub).Nodup) (outside : p.Outside (thread :: elems sub))
    (filled : Filled n index sub) (standing : index = target / 2 ^ bit) (inside : target ≤ 2 * n + 1) :
    ∃ q' p', heapInsertLoop target bit q thread p index =
        some (q', carried q.due target bit sub thread, p', target) ∧
      Walked q q' target bit sub thread p p' index := by
  induction bit generalizing sub q thread p index with
  | zero =>
    have e : index = target := by simpa using standing
    subst e
    exact ⟨q, p, rfl, walked_here q index sub thread p held outside⟩
  | succ bit ih =>
    cases sub with
    | nil => exact absurd rfl (filled.present standing inside)
    | node b l r =>
      obtain ⟨q₁, hq₁, turn, here, heldl, heldr, placed⟩ :=
        displace_turn q thread b p index l r held indexed.1 distinct outside
      set top := if q.due thread < q.due b then thread else b with htop
      set down := if q.due thread < q.due b then b else thread with hdown
      have ends : (top :: down :: (elems l ++ elems r)).Nodup := by
        rw [htop, hdown]
        split
        · exact distinct
        · exact (List.Perm.swap _ _ _).nodup_iff.mp distinct
      simp only [List.nodup_cons, List.mem_cons, List.mem_append, not_or, List.nodup_append] at ends
      obtain ⟨⟨top_down, top_l, top_r⟩, ⟨down_l, down_r⟩, nl, nr, _⟩ := ends
      have kept : ∀ a ∈ elems l ++ elems r, q₁.heapIndex a = q.heapIndex a := by
        intro a ha
        apply turn.index a
        intro h
        have e : a = thread := by simpa using h
        subst e
        exact (List.nodup_cons.mp distinct).1 (List.mem_cons_of_mem _ ha)
      have child := walk_child target bit
      rw [← standing] at child
      have unfolded : heapInsertLoop target (bit + 1) q thread p index =
          if target.testBit bit then heapInsertLoop target bit q₁ down (.right top) (2 * index + 1)
          else heapInsertLoop target bit q₁ down (.left top) (2 * index) := by
        simp only [heapInsertLoop, held.1, Option.bind_eq_bind, Option.bind_some, hq₁, here, hdown]
      rw [unfolded, show q.due = q₁.due from turn.due.symm]
      cases hdir : target.testBit bit with
      | false =>
        simp only [hdir, Bool.false_eq_true, if_false, Nat.add_zero] at child ⊢
        have out : (Slot.left top).Outside (down :: elems l) :=
          Slot.outside_left.mpr (by simp only [List.mem_cons]; tauto)
        obtain ⟨q', p', run, walk⟩ := ih l q₁ down (.left top) (2 * index) heldl
          (indexed.2.1.congr (fun a ha => kept a (by simp [ha]))) (List.nodup_cons.mpr ⟨down_l, nl⟩)
          out filled.2.1 child.symm
        refine ⟨q', p', ?_, ?_⟩
        · rw [run]
          simp only [carried, hdir, Bool.false_eq_true, if_false, hdown, turn.due]
        · exact Walked.cons false hdir turn top down htop hdown here heldl heldr placed indexed distinct outside walk
      | true =>
        simp only [hdir, if_true] at child ⊢
        have out : (Slot.right top).Outside (down :: elems r) :=
          Slot.outside_right.mpr (by simp only [List.mem_cons]; tauto)
        obtain ⟨q', p', run, walk⟩ := ih r q₁ down (.right top) (2 * index + 1) heldr
          (indexed.2.2.congr (fun a ha => kept a (by simp [ha]))) (List.nodup_cons.mpr ⟨down_r, nr⟩)
          out filled.2.2 child.symm
        refine ⟨q', p', ?_, ?_⟩
        · rw [run]
          simp only [carried, hdir, if_true, hdown, turn.due]
        · exact Walked.cons true hdir turn top down htop hdown here heldl heldr placed indexed distinct outside walk

end StateThreads
