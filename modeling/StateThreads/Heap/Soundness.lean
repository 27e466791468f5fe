import StateThreads.Heap.Sift

/-! The timeout heap keeps its representation under insertion and under deletion
of any element. -/
namespace StateThreads
open PointerTree HeapTree

/-- The pointers form exactly this tree, which is complete, carries its positions
and is ordered by due time. -/
structure SleepQ.Represents (q : SleepQ) (tr : BinaryTree Tid) : Prop where
  held : Holds q.link .root tr
  distinct : (elems tr).Nodup
  count : (elems tr).length = q.sleepqSize
  filled : Filled q.sleepqSize 1 tr
  indexed : Indexed q.heapIndex 1 tr
  ordered : Ordered q.due tr

theorem bits_pred (n : Nat) : bits n - 1 = Nat.log2 n := by
  unfold bits
  split
  · rename_i h; subst h; rfl
  · rfl

theorem log2_standing {n : Nat} (positive : 0 < n) : 1 = n / 2 ^ Nat.log2 n := by
  have low := Nat.log2_self_le (n := n) (by omega)
  have high := Nat.lt_log2_self (n := n)
  symm
  apply Nat.div_eq_of_lt_le
  · omega
  · rw [Nat.pow_succ] at high; omega

theorem root_outside (xs : List Tid) : (Slot.root : Slot Tid).Outside xs := by
  intro a _ h
  cases h

/-- What heap_insert writes when its loop has stopped at slot p with c. -/
def landed (q : SleepQ) (c : Tid) (p : Slot Tid) (i : Nat) : SleepQ :=
  (((q.setIndex c i).setLink p (some c)).setLink (.right c) none).setLink (.left c) none

theorem heapInsert_walks {q : SleepQ} (thread : Tid) {tr : BinaryTree Tid} {n : Nat}
    (held : Holds q.link .root tr) (indexed : Indexed q.heapIndex 1 tr)
    (distinct : (thread :: elems tr).Nodup) (filled : Filled n 1 tr)
    (positive : 0 < q.heapIndex thread) (inside : q.heapIndex thread ≤ 2 * n + 1) :
    ∃ q₁ p, Walked q q₁ (q.heapIndex thread) (q.heapIndex thread).log2 tr thread .root p 1 ∧
      heapInsert q thread = some (landed q₁
        (carried q.due (q.heapIndex thread) (q.heapIndex thread).log2 tr thread) p (q.heapIndex thread), p) := by
  obtain ⟨q₁, p, run, walk⟩ := heapInsertLoop_walks (q.heapIndex thread).log2 tr q thread .root 1 held indexed
    distinct (root_outside _) filled (log2_standing positive) inside
  refine ⟨q₁, p, walk, ?_⟩
  simp only [heapInsert, bits_pred, run, Option.bind_eq_bind, Option.bind_some, landed]

theorem landed_same (q : SleepQ) (c : Tid) (p : Slot Tid) (i : Nat) : SameOff q (landed q c p i) p [c] := by
  refine ⟨rfl, rfl, rfl, ?_, ?_⟩
  · intro s hs out
    obtain ⟨hl, hr⟩ := out.ne (List.mem_singleton_self c)
    simp [landed, hs, hl, hr]
  · intro a ha
    simp [landed, show a ≠ c by simpa using ha]

theorem landed_link {q : SleepQ} {c : Tid} {p : Slot Tid} {i : Nat} (outside : p.Outside [c]) :
    (landed q c p i).link p = some c ∧ (landed q c p i).link (.left c) = none ∧
      (landed q c p i).link (.right c) = none := by
  obtain ⟨hl, hr⟩ := outside.ne (List.mem_singleton_self c)
  simp [landed, hl, hr]

/-- Insertion into the next free position, whatever stands in the fields of the
thread that is not yet in the heap. -/
theorem stAddSleepQ_spec {q : SleepQ} {tr : BinaryTree Tid} {thread : Tid} (rep : q.Represents tr)
    (fresh : thread ∉ elems tr) (lastClock timeout : UTime) :
    ∃ q' tr', stAddSleepQ q lastClock thread timeout = some q' ∧ q'.Represents tr' ∧
      (elems tr').Perm (thread :: elems tr) ∧ q'.due = Function.update q.due thread (lastClock + timeout) ∧
      q'.onSleepq = Function.update q.onSleepq thread true := by
  set q₀ : SleepQ := { q with
    due := Function.update q.due thread (lastClock + timeout)
    onSleepq := Function.update q.onSleepq thread true
    sleepqSize := q.sleepqSize + 1
    heapIndex := Function.update q.heapIndex thread (q.sleepqSize + 1) } with hq₀
  have target : q₀.heapIndex thread = q.sleepqSize + 1 := by simp [hq₀]
  have other : ∀ a ∈ elems tr, a ≠ thread := by rintro a ha rfl; exact fresh ha
  have indexed : Indexed q₀.heapIndex 1 tr := rep.indexed.congr (fun a ha => by simp [hq₀, other a ha])
  have ordered : Ordered q₀.due tr := rep.ordered.congr (fun a ha => by simp [hq₀, other a ha])
  obtain ⟨q₁, p, walk, run⟩ := heapInsert_walks (q := q₀) _ rep.held indexed
    (List.nodup_cons.mpr ⟨fresh, rep.distinct⟩) rep.filled (by omega) (by omega)
  rw [target] at walk run
  set bit := (q.sleepqSize + 1).log2
  set c := carried q₀.due (q.sleepqSize + 1) bit tr thread
  have standing : 1 = (q.sleepqSize + 1) / 2 ^ bit := log2_standing (by omega)
  -- the position after the last one is empty
  have empty : subAt (q.sleepqSize + 1) bit tr = .nil := by
    have h := rep.filled.subAt standing
    cases e : subAt (q.sleepqSize + 1) bit tr with
    | nil => rfl
    | node a l r =>
      rw [e] at h
      have := h.1
      omega
  have apart : p.Outside [c] := by simpa only [empty, elems_nil] using walk.apart
  have links := landed_link (q := q₁) (i := q.sleepqSize + 1) apart
  have same := landed_same q₁ c p (q.sleepqSize + 1)
  obtain ⟨held', indexed'⟩ := walk.rebuild (landed q₁ c p (q.sleepqSize + 1)).link
    (landed q₁ c p (q.sleepqSize + 1)).heapIndex (.node c .nil .nil)
    (by simpa only [empty, elems_nil] using same.link) (by simpa only [empty, elems_nil] using same.index)
    ⟨links.1, links.2.1, links.2.2⟩ ⟨by simp [landed], trivial, trivial⟩
  have perm : (elems (graft q₀.due (q.sleepqSize + 1) (.node c .nil .nil) bit tr thread)).Perm (thread :: elems tr) := by
    have h := graft_perm q₀.due (q.sleepqSize + 1) (.node c .nil .nil) bit tr thread
    rw [empty] at h
    simp only [elems_nil, List.nil_append, elems_node, List.append_nil] at h
    have h' : (c :: elems (graft q₀.due (q.sleepqSize + 1) (.node c .nil .nil) bit tr thread)).Perm
        (c :: thread :: elems tr) :=
      h.trans ((List.perm_append_comm.cons thread).trans (List.Perm.swap _ _ _))
    exact h'.cons_inv
  have due : (landed q₁ c p (q.sleepqSize + 1)).due = q₀.due := same.due.trans walk.same.due
  refine ⟨landed q₁ c p (q.sleepqSize + 1), _, ?_, ⟨held', ?_, ?_, ?_, indexed', ?_⟩, perm, due,
    same.flag.trans walk.same.flag⟩
  · have start : stAddSleepQ q lastClock thread timeout = (heapInsert q₀ thread).bind (fun r => some r.1) := rfl
    rw [start, run]
    rfl
  · exact perm.nodup_iff.mpr (List.nodup_cons.mpr ⟨fresh, rep.distinct⟩)
  · rw [perm.length_eq, same.size, walk.same.size, List.length_cons, rep.count]
  · rw [same.size, walk.same.size]
    apply rep.filled.graft q₀.due thread standing (by decide) (by omega)
    · intro j hj
      change j ≤ q.sleepqSize ↔ j ≤ q.sleepqSize + 1
      omega
    · change Filled (q.sleepqSize + 1) (q.sleepqSize + 1) _
      exact ⟨Nat.le_refl _, by simp only [Filled]; omega, by simp only [Filled]; omega⟩
  · rw [due]
    exact ordered.graft _ _ ⟨by simp, trivial, trivial⟩ (fun y hy => Or.inl (by simpa using hy))

theorem clear_other {q : SleepQ} {thread : Tid} {s : Slot Tid} (out : s.Outside [thread]) :
    ((q.setLink (.right thread) none).setLink (.left thread) none).link s = q.link s := by
  obtain ⟨hl, hr⟩ := out.ne (List.mem_singleton_self thread)
  simp [hl, hr]

/- Clearing the child fields of a thread that is not in the tree. -/
theorem clear_fields {q : SleepQ} {thread : Tid} {s : Slot Tid} {tr : BinaryTree Tid} (held : Holds q.link s tr)
    (out : s.Outside [thread]) (fresh : thread ∉ elems tr) :
    Holds ((q.setLink (.right thread) none).setLink (.left thread) none).link s tr := by
  apply held.congr (clear_other out)
  intro a ha
  have ne : a ∉ [thread] := by rintro h; exact fresh ((by simpa using h : a = thread) ▸ ha)
  exact ⟨clear_other (Slot.outside_left.mpr ne), clear_other (Slot.outside_right.mpr ne)⟩

/-- What heap_delete writes next: the element c that took a position receives the
children of the thread it replaces. -/
def adopted (q : SleepQ) (c thread : Tid) : SleepQ :=
  (q.setLink (.left c) (q.link (.left thread))).setLink (.right c) (q.link (.right thread))

theorem adopted_same (q : SleepQ) (c thread : Tid) (p : Slot Tid) : SameOff q (adopted q c thread) p [c] := by
  refine ⟨rfl, rfl, rfl, ?_, fun _ _ => rfl⟩
  intro s _ out
  obtain ⟨hl, hr⟩ := out.ne (List.mem_singleton_self c)
  simp [adopted, hl, hr]

section Replace

variable {q : SleepQ} {c thread : Tid} {p : Slot Tid} {l r : BinaryTree Tid} {i : Nat}

theorem landed_adopts (held : Holds q.link p (.node thread l r)) (indexed : Indexed q.heapIndex i (.node thread l r))
    (distinct : (c :: elems (.node thread l r)).Nodup) (apart : p.Outside (c :: elems (.node thread l r))) :
    SameOff q (adopted (landed q c p i) c thread) p [c] ∧
      Holds (adopted (landed q c p i) c thread).link p (.node c l r) ∧
      Indexed (adopted (landed q c p i) c thread).heapIndex i (.node c l r) := by
  have fresh : ∀ a ∈ thread :: (elems l ++ elems r), a ∉ [c] := by
    rintro a ha h
    exact (List.nodup_cons.mp distinct).1 ((by simpa using h : a = c) ▸ ha)
  have landing := landed_same q c p i
  have same : SameOff q (adopted (landed q c p i) c thread) p [c] :=
    landing.trans (adopted_same _ c thread p) (List.Subset.refl _) (Or.inl rfl)
  have links := landed_link (q := q) (i := i) (apart.mono (by simp) : p.Outside [c])
  obtain ⟨ncl, ncr⟩ := apart.ne (a := c) (by simp)
  obtain ⟨ntl, ntr⟩ := apart.ne (a := thread) (by simp)
  have children : (adopted (landed q c p i) c thread).link (.left c) = q.link (.left thread) ∧
      (adopted (landed q c p i) c thread).link (.right c) = q.link (.right thread) := by
    have out := fresh thread (by simp)
    rw [← landing.link _ ntl.symm (Slot.outside_left.mpr out), ← landing.link _ ntr.symm (Slot.outside_right.mpr out)]
    simp [adopted]
  refine ⟨same, ⟨?_, ?_, ?_⟩, ?_, ?_, ?_⟩
  · rw [adopted, setLink_other _ _ _ _ ncr, setLink_other _ _ _ _ ncl]
    exact links.1
  · exact held.2.1.congr children.1 (same.fields (apart.mono (fun a ha => by simp [ha]))
      (fun a ha => fresh a (by simp [ha])))
  · exact held.2.2.congr children.2 (same.fields (apart.mono (fun a ha => by simp [ha]))
      (fun a ha => fresh a (by simp [ha])))
  · simp [adopted, landed]
  · exact indexed.2.1.congr (fun a ha => same.index a (fresh a (by simp [ha])))
  · exact indexed.2.2.congr (fun a ha => same.index a (fresh a (by simp [ha])))

theorem landed_sinks (held : Holds q.link p (.node thread l r)) (indexed : Indexed q.heapIndex i (.node thread l r))
    (distinct : (c :: elems (.node thread l r)).Nodup) (apart : p.Outside (c :: elems (.node thread l r)))
    (enough : (BinaryTree.node thread l r).height ≤ q.sleepqSize + 1) :
    ∃ q', heapSiftLoop (q.sleepqSize + 1) (adopted (landed q c p i) c thread) c p = some q' ∧
      SameOff q q' p (c :: (elems l ++ elems r)) ∧
      Holds ((q'.setLink (.right thread) none).setLink (.left thread) none).link p
        (sink q.due (.node thread l r) c) ∧
      Indexed q'.heapIndex i (sink q.due (.node thread l r) c) := by
  obtain ⟨same, held', indexed'⟩ := landed_adopts held indexed distinct apart
  have sub : c :: (elems l ++ elems r) ⊆ c :: elems (.node thread l r) :=
    List.cons_subset_cons _ (List.subset_cons_self _ _)
  simp only [elems_node, List.nodup_cons, List.mem_cons, not_or] at distinct
  obtain ⟨⟨cthread, fresh⟩, absent, nodup⟩ := distinct
  obtain ⟨q', run, sifted, sunk, placed⟩ := heapSiftLoop_sinks (q.sleepqSize + 1) _ c thread p l r i held' indexed'
    (List.nodup_cons.mpr ⟨fresh, nodup⟩) (apart.mono sub) enough
  rw [same.due] at sunk placed
  have threadOut : thread ∉ elems (sink q.due (.node thread l r) c) := by
    intro h
    have h' := (sink_perm q.due (.node thread l r) c (by simp)).mem_iff.mp h
    rcases List.mem_cons.mp h' with e | e
    · exact cthread e.symm
    · exact absent e
  exact ⟨q', run, (same.mono (by simp)).trans sifted (List.Subset.refl _) (Or.inl rfl),
    clear_fields sunk (apart.mono (by simp)) threadOut, placed⟩

end Replace

theorem member_position {q : SleepQ} {tr : BinaryTree Tid} {thread : Tid} (indexed : Indexed q.heapIndex 1 tr)
    (filled : Filled q.sleepqSize 1 tr) (member : thread ∈ elems tr) :
    0 < q.heapIndex thread ∧ q.heapIndex thread ≤ q.sleepqSize ∧
      ∃ l r, subAt (q.heapIndex thread) (q.heapIndex thread).log2 tr = .node thread l r := by
  have positive : 0 < q.heapIndex thread := by
    obtain ⟨k, hk⟩ := indexed.below member
    rcases Nat.eq_zero_or_pos (q.heapIndex thread) with h | h
    · rw [h] at hk; simp at hk
    · exact h
  have standing := log2_standing positive
  obtain ⟨l, r, found⟩ := indexed.subAt member standing (by decide)
  have sub := filled.subAt standing
  rw [found] at sub
  exact ⟨positive, sub.1, l, r, found⟩

/-- The unlinked last element t, inserted at the position of another element,
takes its place or pushes an ancestor there, which then sinks. -/
theorem heapReplace_spec {q : SleepQ} {tr : BinaryTree Tid} {t thread : Tid} (held : Holds q.link .root tr)
    (indexed : Indexed q.heapIndex 1 tr) (distinct : (t :: elems tr).Nodup) (filled : Filled q.sleepqSize 1 tr)
    (count : (elems tr).length = q.sleepqSize) (ordered : Ordered q.due tr) (member : thread ∈ elems tr) :
    ∃ q' tr', heapReplace q t thread = some q' ∧
      q'.due = q.due ∧ q'.onSleepq = q.onSleepq ∧ q'.sleepqSize = q.sleepqSize ∧
      ((q'.setLink (.right thread) none).setLink (.left thread) none).Represents tr' ∧
      (thread :: elems tr').Perm (t :: elems tr) := by
  set q₀ := q.setIndex t (q.heapIndex thread) with hq₀
  obtain ⟨positive, inTree, l, r, found⟩ := member_position indexed filled member
  set target := q.heapIndex thread with htarget
  have here : q₀.heapIndex t = target := by simp [hq₀]
  have other : ∀ a ∈ elems tr, q₀.heapIndex a = q.heapIndex a := by
    intro a ha
    have ne : a ≠ t := by rintro rfl; exact (List.nodup_cons.mp distinct).1 ha
    simp [hq₀, ne]
  have standing : 1 = target / 2 ^ target.log2 := log2_standing positive
  obtain ⟨q₁, p, walk, run⟩ := heapInsert_walks (q := q₀) t held (indexed.congr other) distinct filled
    (by rw [here]; exact positive) (by rw [here]; omega)
  rw [here] at walk run
  set bit := target.log2
  set c := carried q₀.due target bit tr t with hc
  -- the walk ends above the subtree of thread, with c in hand
  have subHeld : Holds q₁.link p (.node thread l r) := found ▸ walk.held
  have apart : p.Outside (c :: elems (.node thread l r)) := found ▸ walk.apart
  have subDistinct : (c :: elems (.node thread l r)).Nodup := by
    have h := (graft_perm q₀.due target .nil bit tr t).nodup_iff.mpr (by simpa using distinct)
    rw [found, List.nodup_cons, List.mem_append, not_or] at h
    exact List.nodup_cons.mpr ⟨h.1.1, h.2.of_append_left⟩
  have subIndexed : Indexed q₁.heapIndex target (.node thread l r) := by
    have h : Indexed q.heapIndex target (.node thread l r) := found ▸ indexed.walk standing
    apply h.congr
    intro a ha
    rw [← found] at ha
    exact (walk.kept a ha).trans (other a (subAt_subset _ _ _ ha))
  have enough : (BinaryTree.node thread l r).height ≤ q₁.sleepqSize + 1 := by
    have h := subAt_length target bit tr
    rw [found, elems_length, count] at h
    have h' := (BinaryTree.node thread l r).height_le_numNodes
    rw [walk.same.size]
    exact h'.trans (Nat.le_succ_of_le h)
  obtain ⟨q₂, sift, same, sunk, placed⟩ := landed_sinks subHeld subIndexed subDistinct apart enough
  have due₁ : q₁.due = q.due := walk.same.due
  rw [due₁] at sunk placed
  set x := sink q.due (.node thread l r) c
  have permx : (elems x).Perm (c :: (elems l ++ elems r)) := sink_perm q.due (.node thread l r) c (by simp)
  have sub : c :: (elems l ++ elems r) ⊆ c :: elems (subAt target bit tr) := by
    rw [found]
    exact List.cons_subset_cons _ (List.subset_cons_self _ _)
  have off : ∀ s : Slot Tid, s ≠ p → s.Outside (c :: elems (subAt target bit tr)) →
      ((q₂.setLink (.right thread) none).setLink (.left thread) none).link s = q₁.link s := by
    intro s hs out
    rw [clear_other (out.mono (by simp [found]))]
    exact same.link s hs (out.mono sub)
  obtain ⟨held', indexed'⟩ := walk.rebuild _ q₂.heapIndex x off (fun a ha => same.index a (fun h => ha (sub h)))
    sunk placed
  have due : q₂.due = q.due := same.due.trans due₁
  have size : q₂.sleepqSize = q.sleepqSize := same.size.trans walk.same.size
  have perm : (thread :: elems (graft q.due target x bit tr t)).Perm (t :: elems tr) := by
    have h := graft_perm q.due target x bit tr t
    rw [found] at h
    rw [List.perm_iff_count] at h ⊢
    intro y
    have hy := h y
    have hx := permx.count_eq y
    have hc' : carried q.due target bit tr t = c := rfl
    simp only [hc', elems_node, List.count_cons, List.count_append, List.cons_append] at hy hx ⊢
    omega
  have subFilled : Filled q.sleepqSize target (.node thread l r) := found ▸ filled.subAt standing
  refine ⟨q₂, graft q.due target x bit tr t, ?_, due, same.flag.trans walk.same.flag, size,
    ⟨held', ?_, ?_, ?_, indexed', ?_⟩, perm⟩
  · have next : (landed q₁ c p target).link p = some c := (landed_link (apart.mono (by simp))).1
    simp only [heapReplace, ← htarget, ← hq₀, run, Option.bind_eq_bind, Option.bind_some, next]
    rw [setLink_other (landed q₁ c p target) _ (.right thread) _ (by simp)]
    exact sift
  · exact (List.nodup_cons.mp (perm.nodup_iff.mpr distinct)).2
  · have := perm.length_eq
    simp only [List.length_cons] at this
    change _ = q₂.sleepqSize
    omega
  · change Filled q₂.sleepqSize 1 _
    rw [size]
    apply filled.graft q.due t standing (by decide) (by omega) (fun _ _ => Iff.rfl)
    exact subFilled.sink q.due c
  · change Ordered q₂.due _
    rw [due]
    apply ordered.graft
    · have h : Ordered q.due (.node thread l r) := found ▸ ordered.subAt target bit
      exact h.sink c subFilled
    · intro y hy
      exact List.mem_cons.mp (sub (permx.mem_iff.mp hy))

theorem stDelSleepQ_spec {q : SleepQ} {tr : BinaryTree Tid} {thread : Tid} (rep : q.Represents tr)
    (member : thread ∈ elems tr) :
    ∃ q' tr', stDelSleepQ q thread = some q' ∧ q'.Represents tr' ∧ (thread :: elems tr').Perm (elems tr) ∧
      q'.due = q.due ∧ q'.onSleepq = Function.update q.onSleepq thread false := by
  have positive : 0 < q.sleepqSize := by
    rw [← rep.count]; exact List.length_pos_of_mem member
  have standing : 1 = q.sleepqSize / 2 ^ q.sleepqSize.log2 := log2_standing positive
  obtain ⟨p, walk, -, last, pruned⟩ := heapLastLoop_finds q q.sleepqSize.log2 tr .root 1 rep.held rep.distinct
    (root_outside _) rep.filled standing
  obtain ⟨t, leaf⟩ := (rep.filled.subAt standing).last positive
  rw [leaf] at last
  have perm := prune_perm q.sleepqSize q.sleepqSize.log2 tr
  rw [leaf] at perm
  simp only [elems_node, elems_nil, List.append_nil, List.cons_append, List.nil_append] at perm
  set tr₀ := prune q.sleepqSize q.sleepqSize.log2 tr
  set q₀ : SleepQ := { q.setLink p none with sleepqSize := q.sleepqSize - 1 } with hq₀
  have filled₀ : Filled q₀.sleepqSize 1 tr₀ := rep.filled.prune_last positive standing
  have distinct₀ := perm.nodup_iff.mpr rep.distinct
  have count₀ : (elems tr₀).length = q₀.sleepqSize := by
    have := perm.length_eq
    rw [List.length_cons, rep.count] at this
    change _ = q.sleepqSize - 1
    omega
  have indexed₀ : Indexed q₀.heapIndex 1 tr₀ := rep.indexed.prune _ _
  have ordered₀ : Ordered q₀.due tr₀ := rep.ordered.prune _ _
  by_cases same : t = thread
  · subst same
    have fresh := (List.nodup_cons.mp distinct₀).1
    refine ⟨{ (q₀.setLink (.right t) none).setLink (.left t) none with
        onSleepq := Function.update q₀.onSleepq t false }, tr₀, ?_, ?_, perm, rfl, rfl⟩
    · simp only [stDelSleepQ, heapDelete, bits_pred, walk, last.1, Option.bind_eq_bind, Option.bind_some, if_true]
      rfl
    · exact ⟨clear_fields (q := q₀) pruned (root_outside _) fresh, (List.nodup_cons.mp distinct₀).2, count₀,
        filled₀, indexed₀, ordered₀⟩
  · have member₀ : thread ∈ elems tr₀ := by
      have := perm.mem_iff.mpr member
      simp only [List.mem_cons] at this
      exact this.resolve_left (fun e => same e.symm)
    obtain ⟨q', tr', run, due, flag, size, rep', perm'⟩ := heapReplace_spec (q := q₀) pruned indexed₀ distinct₀
      filled₀ count₀ ordered₀ member₀
    refine ⟨{ (q'.setLink (.right thread) none).setLink (.left thread) none with
        onSleepq := Function.update q'.onSleepq thread false }, tr', ?_, ?_, perm'.trans perm, due, ?_⟩
    · simp only [stDelSleepQ, heapDelete, bits_pred, walk, last.1, Option.bind_eq_bind, Option.bind_some, same,
        if_false]
      rw [show ({ q.setLink p none with sleepqSize := (q.setLink p none).sleepqSize - 1 } : SleepQ) = q₀ from rfl, run]
      rfl
    · exact ⟨rep'.held, rep'.distinct, rep'.count, rep'.filled, rep'.indexed, rep'.ordered⟩
    · rw [flag]; rfl

end StateThreads
