import StateThreads.Heap.Walk

/-! The other two loops of heap_delete: the walk to the last element and the
sifting down of the element that replaces the deleted one. -/
namespace StateThreads
open PointerTree HeapTree

theorem heapLastLoop_finds (q : SleepQ) (bit : Nat) (sub : BinaryTree Tid) (p : Slot Tid) (index : Nat)
    (held : Holds q.link p sub) (distinct : (elems sub).Nodup) (outside : p.Outside (elems sub))
    (filled : Filled q.sleepqSize index sub) (standing : index = q.sleepqSize / 2 ^ bit) :
    ∃ p', heapLastLoop q bit p = some p' ∧ (p' = p ∨ ∃ a ∈ elems sub, p'.owner = some a) ∧
      Holds q.link p' (subAt q.sleepqSize bit sub) ∧
      Holds (q.setLink p' none).link p (prune q.sleepqSize bit sub) := by
  induction bit generalizing sub p index with
  | zero => exact ⟨p, rfl, Or.inl rfl, held, by simp [prune, Holds]⟩
  | succ bit ih =>
    cases sub with
    | nil => exact absurd rfl (filled.present standing (by omega))
    | node b l r =>
      obtain ⟨here, heldl, heldr⟩ := held
      simp only [elems_node, List.nodup_cons, List.mem_append, not_or, List.nodup_append] at distinct
      obtain ⟨⟨bl, br⟩, nl, nr, apart⟩ := distinct
      have child := walk_child q.sleepqSize bit
      rw [← standing] at child
      have pb : ∀ s : Slot Tid, s.owner = some b → p ≠ s := by
        rintro s hs rfl; exact outside b (by simp) hs
      -- clearing a slot inside one branch leaves the pointer to b and the other branch
      have beside : ∀ (c o : BinaryTree Tid) (sc so : Slot Tid) (p' : Slot Tid), sc.owner = some b →
          so.owner = some b → so ≠ sc → b ∉ elems c → b ∉ elems o → (∀ a ∈ elems c, a ∉ elems o) →
          elems c ⊆ elems l ++ elems r → Holds q.link so o →
          (p' = sc ∨ ∃ a ∈ elems c, p'.owner = some a) →
          (q.setLink p' none).link p = some b ∧ Holds (q.setLink p' none).link so o := by
        intro c o sc so p' ownc owno ne bc bo disjoint sub heldo inner
        have np : p ≠ p' := by
          rcases inner with rfl | ⟨a, ha, ho⟩
          · exact pb _ ownc
          · rintro rfl; exact outside a (List.mem_cons_of_mem _ (sub ha)) ho
        have no : ∀ s : Slot Tid, s ≠ sc → (∀ a ∈ elems c, s.owner ≠ some a) → s ≠ p' := by
          rintro s hs out rfl
          rcases inner with rfl | ⟨a, ha, ho⟩
          · exact hs rfl
          · exact out a ha ho
        have field : ∀ a ∈ elems o, ∀ s : Slot Tid, s.owner = some a → (q.setLink p' none).link s = q.link s := by
          intro a ha s hs
          apply setLink_other
          apply no s
          · rintro rfl
            have e : a = b := Option.some.inj (hs.symm.trans ownc)
            exact bo (e ▸ ha)
          · intro a' ha' ho'
            have e : a = a' := Option.some.inj (hs.symm.trans ho')
            exact disjoint a' ha' (e ▸ ha)
        refine ⟨by rw [setLink_other _ _ _ _ np, here], ?_⟩
        apply heldo.congr
        · apply setLink_other
          apply no so ne
          intro a ha ho
          have e : b = a := Option.some.inj (owno.symm.trans ho)
          exact bc (e ▸ ha)
        · intro a ha
          exact ⟨field a ha _ rfl, field a ha _ rfl⟩
      by_cases dir : q.sleepqSize.testBit bit = true
      · simp only [dir, if_true] at child
        obtain ⟨p', run, inner, found, pruned⟩ := ih r (.right b) (2 * index + 1) heldr nr
          (Slot.outside_right.mpr br) filled.2.2 child.symm
        have side := beside r l (.right b) (.left b) p' rfl rfl (by simp) br bl
          (fun a ha hb => apart a hb a ha rfl) (List.subset_append_right _ _) heldl inner
        refine ⟨p', ?_, ?_, ?_, ?_⟩
        · simp only [heapLastLoop, here, Option.bind_eq_bind, Option.bind_some, dir, if_true, run]
        · rcases inner with rfl | ⟨a, ha, ho⟩
          · exact Or.inr ⟨b, by simp, rfl⟩
          · exact Or.inr ⟨a, by simp [ha], ho⟩
        · simpa only [subAt, dir, if_true] using found
        · simp only [prune, dir, if_true]
          exact ⟨side.1, side.2, pruned⟩
      · simp only [dir, Bool.false_eq_true, if_false, Nat.add_zero] at child
        obtain ⟨p', run, inner, found, pruned⟩ := ih l (.left b) (2 * index) heldl nl
          (Slot.outside_left.mpr bl) filled.2.1 child.symm
        have side := beside l r (.left b) (.right b) p' rfl rfl (by simp) bl br
          (fun a ha hb => apart a ha a hb rfl) (List.subset_append_left _ _) heldr inner
        refine ⟨p', ?_, ?_, ?_, ?_⟩
        · simp only [heapLastLoop, here, Option.bind_eq_bind, Option.bind_some, dir, Bool.false_eq_true, if_false, run]
        · rcases inner with rfl | ⟨a, ha, ho⟩
          · exact Or.inr ⟨b, by simp, rfl⟩
          · exact Or.inr ⟨a, by simp [ha], ho⟩
        · simpa only [subAt, dir, Bool.false_eq_true, if_false] using found
        · simp only [prune, dir, Bool.false_eq_true, if_false]
          exact ⟨side.1, pruned, side.2⟩

/- What one exchange writes, whichever child it moves up. -/
theorem exchange_writes (q : SleepQ) (t y : Tid) (p : Slot Tid) (ne : t ≠ y) (outside : p.Outside [t, y])
    (onLeft : Bool) (hl : onLeft = true ↔ q.link (.left t) = some y) :
    SameOff q (exchange q t y p).1 p [t, y] ∧ (exchange q t y p).2 = (if onLeft then .left y else .right y) ∧
      (exchange q t y p).1.link p = some y ∧
      (exchange q t y p).1.link (.left t) = q.link (.left y) ∧
      (exchange q t y p).1.link (.right t) = q.link (.right y) ∧
      (exchange q t y p).1.link (.left y) = (if onLeft then some t else q.link (.left t)) ∧
      (exchange q t y p).1.link (.right y) = (if onLeft then q.link (.right t) else some t) ∧
      (exchange q t y p).1.heapIndex t = q.heapIndex y ∧ (exchange q t y p).1.heapIndex y = q.heapIndex t := by
  obtain ⟨lt, rt⟩ := outside.ne (a := t) (by simp)
  obtain ⟨ly, ry⟩ := outside.ne (a := y) (by simp)
  cases onLeft with
  | true =>
    have hl' : q.link (.left t) = some y := hl.mp rfl
    refine ⟨⟨?_, ?_, ?_, ?_, ?_⟩, ?_⟩
    · simp [exchange, lt.symm, hl']
    · simp [exchange, lt.symm, hl']
    · simp [exchange, lt.symm, hl']
    · intro s hs out
      have et := out.ne (a := t) (by simp)
      have ey := out.ne (a := y) (by simp)
      simp [exchange, lt.symm, hl', hs, et, ey]
    · intro a ha
      simp only [List.mem_cons, List.not_mem_nil, or_false, not_or] at ha
      simp [exchange, lt.symm, hl', ha]
    · simp [exchange, lt.symm, hl', lt, rt, ly, ry, rt.symm, ne, ne.symm]
  | false =>
    have hl' : q.link (.left t) ≠ some y := fun h => by simpa using hl.mpr h
    refine ⟨⟨?_, ?_, ?_, ?_, ?_⟩, ?_⟩
    · simp [exchange, lt.symm, hl']
    · simp [exchange, lt.symm, hl']
    · simp [exchange, lt.symm, hl']
    · intro s hs out
      have et := out.ne (a := t) (by simp)
      have ey := out.ne (a := y) (by simp)
      simp [exchange, lt.symm, hl', hs, et, ey]
    · intro a ha
      simp only [List.mem_cons, List.not_mem_nil, or_false, not_or] at ha
      simp [exchange, lt.symm, hl', ha]
    · simp [exchange, lt.symm, hl', lt, rt, ly, ry, ne, ne.symm]

/- After an exchange the loop goes on in one branch below y, over the nodes xs;
the pointer to y and its other branch o stay. -/
theorem sift_beside {q q₁ q₂ : SleepQ} {t y : Tid} {p sc so : Slot Tid} {xs : List Tid} {o : BinaryTree Tid}
    (turn : SameOff q q₁ p [t, y]) (rest : SameOff q₁ q₂ sc xs) (here : q₁.link p = some y)
    (heldo : Holds q₁.link so o) (ownc : sc.owner = some y) (owno : so.owner = some y) (ne : so ≠ sc)
    (member : t ∈ xs) (fresh : y ∉ xs) (freshOther : y ∉ elems o) (disjoint : ∀ a ∈ elems o, a ∉ xs)
    (outside : p.Outside (y :: xs)) :
    SameOff q q₂ p (y :: xs) ∧ q₂.link p = some y ∧ Holds q₂.link so o ∧
      ∀ a ∈ y :: elems o, q₂.heapIndex a = q₁.heapIndex a := by
  have pc : p ≠ sc := by rintro rfl; exact outside y (by simp) ownc
  have sub : [t, y] ⊆ y :: xs := by
    intro a ha
    simp only [List.mem_cons, List.not_mem_nil, or_false] at ha
    rcases ha with rfl | rfl
    · exact List.mem_cons_of_mem _ member
    · exact List.mem_cons_self ..
  refine ⟨?_, ?_, ?_, ?_⟩
  · exact (turn.mono sub).trans rest (List.subset_cons_self _ _) (Or.inr ⟨y, by simp, ownc⟩)
  · rw [rest.link p pc (outside.mono (List.subset_cons_self _ _)), here]
  · apply rest.holds heldo ne _ _ disjoint
    · intro a ha ho
      have e : y = a := Option.some.inj (owno.symm.trans ho)
      exact fresh (e ▸ ha)
    · intro a ha ho
      have e : y = a := Option.some.inj (ownc.symm.trans ho)
      exact freshOther (e ▸ ha)
  · intro a ha
    apply rest.index a
    rcases List.mem_cons.mp ha with rfl | ha
    · exact fresh
    · exact disjoint a ha

theorem not_mem_pair {t y : Tid} {c : BinaryTree Tid} (ht : t ∉ elems c) (hy : y ∉ elems c) :
    ∀ a ∈ elems c, a ∉ [t, y] := by
  intro a ha h
  simp only [List.mem_cons, List.not_mem_nil, or_false] at h
  rcases h with rfl | rfl
  · exact ht ha
  · exact hy ha

theorem exchange_left {q : SleepQ} {t y : Tid} {p : Slot Tid} {ll lr r : BinaryTree Tid} {i : Nat}
    (held : Holds q.link p (.node t (.node y ll lr) r))
    (indexed : Indexed q.heapIndex i (.node t (.node y ll lr) r))
    (distinct : (elems (.node t (.node y ll lr) r)).Nodup)
    (outside : p.Outside (elems (.node t (.node y ll lr) r))) :
    SameOff q (exchange q t y p).1 p [t, y] ∧ (exchange q t y p).2 = .left y ∧
      (exchange q t y p).1.link p = some y ∧ Holds (exchange q t y p).1.link (.left y) (.node t ll lr) ∧
      Holds (exchange q t y p).1.link (.right y) r ∧
      Indexed (exchange q t y p).1.heapIndex i (.node y (.node t ll lr) r) := by
  obtain ⟨here, ⟨hy, heldll, heldlr⟩, heldr⟩ := held
  simp only [elems_node, List.cons_append, List.nodup_cons, List.mem_cons, List.mem_append, not_or] at distinct
  obtain ⟨⟨ty, ⟨tll, tlr⟩, tr⟩, ⟨⟨yll, ylr⟩, yr⟩, -⟩ := distinct
  obtain ⟨same, slot, hp, htl, htr, hyl, hyr, hit, hiy⟩ := exchange_writes q t y p ty
    (outside.mono (by intro a ha; simp at ha ⊢; tauto)) true (by simp [hy])
  have freshll := not_mem_pair tll yll
  have freshlr := not_mem_pair tlr ylr
  have freshr := not_mem_pair tr yr
  refine ⟨same, slot, hp, ⟨hyl, ?_, ?_⟩, ?_, hiy.trans indexed.1, ⟨hit.trans indexed.2.1.1, ?_, ?_⟩, ?_⟩
  · exact heldll.congr htl (same.fields (outside.mono (by intro a ha; simp [ha])) freshll)
  · exact heldlr.congr htr (same.fields (outside.mono (by intro a ha; simp [ha])) freshlr)
  · exact heldr.congr hyr (same.fields (outside.mono (by intro a ha; simp [ha])) freshr)
  · exact indexed.2.1.2.1.congr (fun a ha => same.index a (freshll a ha))
  · exact indexed.2.1.2.2.congr (fun a ha => same.index a (freshlr a ha))
  · exact indexed.2.2.congr (fun a ha => same.index a (freshr a ha))

theorem exchange_right {q : SleepQ} {t y : Tid} {p : Slot Tid} {l rl rr : BinaryTree Tid} {i : Nat}
    (held : Holds q.link p (.node t l (.node y rl rr)))
    (indexed : Indexed q.heapIndex i (.node t l (.node y rl rr)))
    (distinct : (elems (.node t l (.node y rl rr))).Nodup)
    (outside : p.Outside (elems (.node t l (.node y rl rr)))) :
    SameOff q (exchange q t y p).1 p [t, y] ∧ (exchange q t y p).2 = .right y ∧
      (exchange q t y p).1.link p = some y ∧ Holds (exchange q t y p).1.link (.left y) l ∧
      Holds (exchange q t y p).1.link (.right y) (.node t rl rr) ∧
      Indexed (exchange q t y p).1.heapIndex i (.node y l (.node t rl rr)) := by
  obtain ⟨here, heldl, ⟨hy, heldrl, heldrr⟩⟩ := held
  have perm : (elems (.node t l (.node y rl rr))).Perm (t :: y :: (elems l ++ (elems rl ++ elems rr))) := by
    simp only [elems_node]
    exact List.perm_middle.cons _
  have distinct' := perm.nodup_iff.mp distinct
  simp only [List.nodup_cons, List.mem_cons, List.mem_append, not_or] at distinct'
  obtain ⟨⟨ty, tl, trl, trr⟩, ⟨yl, yrl, yrr⟩, -⟩ := distinct'
  have notLeft : q.link (.left t) ≠ some y := by
    cases l with
    | nil => rw [show q.link (.left t) = none from heldl]; simp
    | node z zl zr =>
      rw [heldl.1]
      intro e
      exact yl (by simp [Option.some.inj e])
  obtain ⟨same, slot, hp, htl, htr, hyl, hyr, hit, hiy⟩ := exchange_writes q t y p ty
    (outside.mono (by intro a ha; simp at ha ⊢; tauto)) false (by simp [notLeft])
  have freshl := not_mem_pair tl yl
  have freshrl := not_mem_pair trl yrl
  have freshrr := not_mem_pair trr yrr
  refine ⟨same, slot, hp, ?_, ⟨hyr, ?_, ?_⟩, hiy.trans indexed.1, ?_, hit.trans indexed.2.2.1, ?_, ?_⟩
  · exact heldl.congr hyl (same.fields (outside.mono (by intro a ha; simp [ha])) freshl)
  · exact heldrl.congr htl (same.fields (outside.mono (by intro a ha; simp [ha])) freshrl)
  · exact heldrr.congr htr (same.fields (outside.mono (by intro a ha; simp [ha])) freshrr)
  · exact indexed.2.1.congr (fun a ha => same.index a (freshl a ha))
  · exact indexed.2.2.2.1.congr (fun a ha => same.index a (freshrl a ha))
  · exact indexed.2.2.2.2.congr (fun a ha => same.index a (freshrr a ha))

/-- The sifting loop, started with t above l and r, ends within the height of the
tree and leaves t sunk into place. The root b that t replaces is not looked at. -/
theorem heapSiftLoop_sinks (fuel : Nat) (q : SleepQ) (t b : Tid) (p : Slot Tid) (l r : BinaryTree Tid) (i : Nat)
    (held : Holds q.link p (.node t l r)) (indexed : Indexed q.heapIndex i (.node t l r))
    (distinct : (elems (.node t l r)).Nodup) (outside : p.Outside (elems (.node t l r)))
    (enough : (BinaryTree.node t l r).height ≤ fuel) :
    ∃ q', heapSiftLoop fuel q t p = some q' ∧ SameOff q q' p (elems (.node t l r)) ∧
      Holds q'.link p (sink q.due (.node b l r) t) ∧ Indexed q'.heapIndex i (sink q.due (.node b l r) t) := by
  induction fuel generalizing q t b p l r i with
  | zero => simp at enough
  | succ fuel ih =>
    -- nothing to do: the loop breaks
    have stay : ∃ q', some q = some q' ∧ SameOff q q' p (elems (.node t l r)) ∧
        Holds q'.link p (.node t l r) ∧ Indexed q'.heapIndex i (.node t l r) :=
      ⟨q, rfl, SameOff.refl _ _ _, held, indexed⟩
    simp only [BinaryTree.height, Nat.add_le_add_iff_right, Nat.max_le] at enough
    cases l with
    | nil =>
      have e : heapSiftLoop (fuel + 1) q t p = some q := by
        simp only [heapSiftLoop, show q.link (.left t) = none from held.2.1]
      simpa only [e, sink] using stay
    | node y ll lr =>
      have goLeft : ∃ q', heapSiftLoop fuel (exchange q t y p).1 t (exchange q t y p).2 = some q' ∧
          SameOff q q' p (elems (.node t (.node y ll lr) r)) ∧
          Holds q'.link p (.node y (sink q.due (.node y ll lr) t) r) ∧
          Indexed q'.heapIndex i (.node y (sink q.due (.node y ll lr) t) r) := by
        obtain ⟨turn, slot, here, heldc, heldo, placed⟩ := exchange_left held indexed distinct outside
        have perm : (elems (.node t (.node y ll lr) r)).Perm (y :: (elems (.node t ll lr) ++ elems r)) := by
          simp only [elems_node, List.cons_append]
          exact List.Perm.swap _ _ _
        have distinct' := perm.nodup_iff.mp distinct
        obtain ⟨freshy, both⟩ := List.nodup_cons.mp distinct'
        have apart := List.disjoint_of_nodup_append both
        obtain ⟨q', run, rest, sunk, at_place⟩ := ih (exchange q t y p).1 t y (.left y) ll lr (2 * i) heldc placed.2.1
          both.of_append_left (Slot.outside_left.mpr (fun h => freshy (List.mem_append_left _ h)))
          (by simp only [BinaryTree.height] at enough ⊢; exact enough.1)
        have side := sift_beside turn rest here heldo rfl rfl (by simp) (by simp)
          (fun h => freshy (List.mem_append_left _ h)) (fun h => freshy (List.mem_append_right _ h))
          (fun a ha hc => apart hc ha) (outside.mono (fun a ha => perm.mem_iff.mpr (by
            simp only [List.mem_cons, List.mem_append] at ha ⊢; tauto)))
        rw [turn.due] at sunk at_place
        refine ⟨q', slot ▸ run, side.1.mono (fun a ha => perm.mem_iff.mpr (by
            simp only [List.mem_cons, List.mem_append] at ha ⊢; tauto)), ⟨side.2.1, sunk, side.2.2.1⟩, ?_, at_place, ?_⟩
        · exact (side.2.2.2 y (by simp)).trans placed.1
        · exact placed.2.2.congr (fun a ha => side.2.2.2 a (by simp [ha]))
      cases r with
      | nil =>
        have e : heapSiftLoop (fuel + 1) q t p = if q.due y < q.due t then
            heapSiftLoop fuel (exchange q t y p).1 t (exchange q t y p).2 else some q := by
          simp only [heapSiftLoop, held.2.1.1, show q.link (.right t) = none from held.2.2]
        by_cases less : q.due y < q.due t
        · simpa only [e, sink, less, if_true] using goLeft
        · simpa only [e, sink, less, if_false] using stay
      | node z rl rr =>
        have e : heapSiftLoop (fuel + 1) q t p = if q.due (if q.due y < q.due z then y else z) < q.due t then
            heapSiftLoop fuel (exchange q t (if q.due y < q.due z then y else z) p).1 t
              (exchange q t (if q.due y < q.due z then y else z) p).2 else some q := by
          simp only [heapSiftLoop, held.2.1.1, held.2.2.1]
        have goRight : ∃ q', heapSiftLoop fuel (exchange q t z p).1 t (exchange q t z p).2 = some q' ∧
            SameOff q q' p (elems (.node t (.node y ll lr) (.node z rl rr))) ∧
            Holds q'.link p (.node z (.node y ll lr) (sink q.due (.node z rl rr) t)) ∧
            Indexed q'.heapIndex i (.node z (.node y ll lr) (sink q.due (.node z rl rr) t)) := by
          obtain ⟨turn, slot, here, heldo, heldc, placed⟩ := exchange_right held indexed distinct outside
          have perm : (elems (.node t (.node y ll lr) (.node z rl rr))).Perm
              (z :: (elems (.node t rl rr) ++ elems (.node y ll lr))) := by
            rw [elems_node t, elems_node z, elems_node t]
            refine (List.perm_middle.cons t).trans ?_
            refine (List.Perm.swap _ _ _).trans ((List.perm_append_comm.cons t).cons z)
          have distinct' := perm.nodup_iff.mp distinct
          obtain ⟨freshz, both⟩ := List.nodup_cons.mp distinct'
          have apart := List.disjoint_of_nodup_append both
          obtain ⟨q', run, rest, sunk, at_place⟩ := ih (exchange q t z p).1 t z (.right z) rl rr (2 * i + 1) heldc
            placed.2.2 both.of_append_left (Slot.outside_right.mpr (fun h => freshz (List.mem_append_left _ h)))
            (by simp only [BinaryTree.height] at enough ⊢; exact enough.2)
          have side := sift_beside turn rest here heldo rfl rfl (by simp) (by simp)
            (fun h => freshz (List.mem_append_left _ h)) (fun h => freshz (List.mem_append_right _ h))
            (fun a ha hc => apart hc ha) (outside.mono (fun a ha => perm.mem_iff.mpr (by
              simp only [List.mem_cons, List.mem_append] at ha ⊢; tauto)))
          rw [turn.due] at sunk at_place
          refine ⟨q', slot ▸ run, side.1.mono (fun a ha => perm.mem_iff.mpr (by
              simp only [List.mem_cons, List.mem_append] at ha ⊢; tauto)), ⟨side.2.1, side.2.2.1, sunk⟩, ?_, ?_, at_place⟩
          · exact (side.2.2.2 z (by simp)).trans placed.1
          · exact placed.2.1.congr (fun a ha => side.2.2.2 a (List.mem_cons_of_mem _ ha))
        by_cases yz : q.due y < q.due z
        · simp only [yz, if_true] at e
          by_cases less : q.due y < q.due t
          · simpa only [e, sink, yz, less, if_true] using goLeft
          · simpa only [e, sink, yz, less, if_true, if_false] using stay
        · simp only [yz, if_false] at e
          by_cases less : q.due z < q.due t
          · simpa only [e, sink, yz, less, if_true, if_false] using goRight
          · simpa only [e, sink, yz, less, if_false] using stay

end StateThreads
