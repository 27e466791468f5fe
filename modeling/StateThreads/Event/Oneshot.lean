import StateThreads.Event.Knotes

/-! No interest is lost in the kqueue event system. The filters are registered as one-shot:
once the kernel has reported a knote it does not watch it any longer, and the walk over io_q
then removes every pollq that has asked for it. -/
namespace StateThreads.Kqueue

variable {κ ω : Type} {K : Kernel κ ω}

/- Deleting. -/

structure Released (K : Kernel κ ω) (s : State κ) (ks : List Knote) (s' : State κ) : Prop where
  rest : s'.data = { s.data with
    refCnt := s'.data.refCnt, dellist := s'.data.dellist, dellistSize := s'.data.dellistSize }
  counts : ∀ k, s'.data.refCnt k = s.data.refCnt k - ks.count k
  dels : ∀ c ∈ s'.data.dellist, c ∈ s.data.dellist ∨ (c.action = .delete ∧ s'.data.refCnt c.knote ≤ 0)
  kern : ∀ P : κ → Prop, (∀ k n, P k → P (K.realloc k n).1) → P s.kern → P s'.kern

theorem Released.nil (s : State κ) : Released K s [] s :=
  ⟨rfl, by simp, fun _ => .inl, fun _ _ => id⟩

theorem dellistAdd_spec (s : State κ) (kev : Change) :
    (dellistAdd K s kev).data = { s.data with
      dellist := (dellistAdd K s kev).data.dellist, dellistSize := (dellistAdd K s kev).data.dellistSize } ∧
    (∀ c ∈ (dellistAdd K s kev).data.dellist, c ∈ s.data.dellist ∨ c = kev) ∧
    ∀ P : κ → Prop, (∀ k n, P k → P (K.realloc k n).1) → P s.kern → P (dellistAdd K s kev).kern := by
  have longer : ∀ c ∈ s.data.dellist ++ [kev], c ∈ s.data.dellist ∨ c = kev := by simp
  unfold dellistAdd
  split
  · dsimp only
    split
    · exact ⟨rfl, longer, fun P kept h => kept _ _ h⟩
    · exact ⟨rfl, fun c => .inl, fun P kept h => kept _ _ h⟩
  · exact ⟨rfl, longer, fun P _ h => h⟩

theorem release_released (spared : Data → Knote → Bool) (s : State κ) (k : Knote) :
    Released K s [k] (release K spared s k) := by
  have counts : ∀ j, Function.update s.data.refCnt k (s.data.refCnt k - 1) j = s.data.refCnt j - ([k].count j : Nat) := by
    intro j
    by_cases h : j = k
    · subst h; simp
    · simp [h, Ne.symm h]
  simp only [release]
  split
  · rename_i last
    obtain ⟨rest, listed, kern⟩ := dellistAdd_spec (K := K)
      ⟨{ s.data with refCnt := Function.update s.data.refCnt k (s.data.refCnt k - 1) }, s.kern⟩ ⟨k, .delete⟩
    refine ⟨?_, fun j => ?_, fun c member => ?_, kern⟩
    · rw [rest]
    · rw [rest]
      exact counts j
    · obtain old | rfl := listed c member
      · exact .inl old
      · refine .inr ⟨rfl, ?_⟩
        rw [rest]
        simp [last.1]
  · exact ⟨rfl, counts, fun _ => .inl, fun _ _ => id⟩

theorem releases_released (spared : Data → Knote → Bool) (ks : List Knote) (s : State κ) :
    Released K s ks (ks.foldl (release K spared) s) := by
  induction ks generalizing s with
  | nil => exact .nil s
  | cons k ks ih =>
    have first := release_released (K := K) spared s k
    have later := ih (release K spared s k)
    rw [List.foldl_cons]
    refine ⟨?_, fun j => ?_, fun c member => ?_, fun P kept h => later.kern P kept (first.kern P kept h)⟩
    · rw [later.rest, first.rest]
    · rw [later.counts, first.counts, List.count_cons, List.count_cons, List.count_nil]
      push_cast
      omega
    · obtain old | new := later.dels c member
      · obtain older | ⟨delete, down⟩ := first.dels c old
        · exact .inl older
        · refine .inr ⟨delete, ?_⟩
          rw [later.counts]
          omega
      · exact .inr new

/- The kernel. -/

/-- What is needed of the kernel for a predicate on its knotes. A call that fails, though
the list of results is long enough for the changes, has made them. -/
structure Holds (K : Kernel κ ω) (enough : Int → Int → Prop) (held : κ → Int → Knote → Prop) : Prop where
  fits : ∀ changes size, changes ≤ size → enough changes size
  realloc : ∀ kern n kq k, held kern kq k → held (K.realloc kern n).1 kq k
  served : ∀ kern kq changes size time list k, (∀ c ∈ changes, c.action = .add) →
    (K.kevent kern kq changes size time).2 = .events list → ⟨k, .add⟩ ∈ changes ∨ held kern kq k →
    (∀ e ∈ list, e.knote ≠ k) → held (K.kevent kern kq changes size time).1 kq k
  failed : ∀ kern kq changes size time errno k, (∀ c ∈ changes, c.action = .add) →
    (K.kevent kern kq changes size time).2 = .failed errno → enough changes.length size →
    ⟨k, .add⟩ ∈ changes ∨ held kern kq k →
    held (K.kevent kern kq changes size time).1 kq k
  deleted : ∀ kern kq dels k, (∀ c ∈ dels, c.action = .delete ∧ c.knote ≠ k) → held kern kq k →
    held (K.kevent kern kq dels 0 none).1 kq k
  uncreated : ∀ kern k, (K.kqueue kern).2 = none → held (K.kqueue kern).1 (-1) k

variable {enough : Int → Int → Prop} {held : κ → Int → Knote → Prop}

theorem Holds.flushLoop (holds : Holds K enough held) {kern : κ} {kq : Int} {dels : List Change} {k : Knote} (more : Nat)
    (deletes : ∀ c ∈ dels, c.action = .delete ∧ c.knote ≠ k) (before : held kern kq k) :
    held (flushLoop K kq dels more kern) kq k := by
  induction more generalizing kern with
  | zero => exact holds.deleted _ _ _ _ deletes before
  | succ more ih =>
    have once := holds.deleted kern kq dels k deletes before
    rw [Kqueue.flushLoop]
    dsimp only
    split
    · exact ih once
    · exact once

theorem flush_data (s : State κ) : (flush K s).data = s.data := by
  unfold flush
  split <;> rfl

theorem Holds.flush (holds : Holds K enough held) {s : State κ} {k : Knote}
    (deletes : ∀ c ∈ s.data.dellist, c.action = .delete ∧ c.knote ≠ k) (before : held s.kern s.data.kq k) :
    held (flush K s).kern s.data.kq k := by
  unfold Kqueue.flush
  split
  · exact before
  · exact holds.flushLoop _ deletes before

/- The invariant. -/

structure Counted (d : Data) (ps : List PollFd) : Prop where
  counts : ∀ k, d.refCnt k = tally ps k
  inside : ∀ pd ∈ ps, Valid pd ∧ pd.fd < d.fdDataSize
  size : 0 < d.fdDataSize

structure Kept (K : Kernel κ ω) (held : κ → Int → Knote → Prop) (s : State κ) (ps : List PollFd) : Prop where
  counted : Counted s.data ps
  silent : ∀ fd, s.data.revents fd = 0
  size : 0 < s.data.addlistSize
  room : s.data.addlist.length ≤ s.data.addlistSize
  wide : Memory K → s.data.addlistSize ≤ s.data.evtlistSize
  adds : ∀ c ∈ s.data.addlist, c.action = .add
  pending : ∀ k, 0 < s.data.refCnt k → ⟨k, .add⟩ ∈ s.data.addlist ∨ held s.kern s.data.kq k

/-- During the walk, with the arrays todo to be visited and the entries of the pollqs that
stay. The knotes that have fired are held no longer. -/
structure Walking (K : Kernel κ ω) (held : κ → Int → Knote → Prop) (s : State κ) (todo : List (List PollFd))
    (kept : List PollFd) : Prop where
  counted : Counted s.data (todo.flatten ++ kept)
  marked : ∀ fd, s.data.revents fd ≠ 0 → fd ∈ s.data.evtlist.map fun e => e.knote.ident
  addlist : s.data.addlist = []
  size : 0 < s.data.addlistSize
  wide : Memory K → s.data.addlistSize ≤ s.data.evtlistSize
  dels : ∀ c ∈ s.data.dellist, c.action = .delete ∧ s.data.refCnt c.knote ≤ 0
  pending : ∀ k, 0 < s.data.refCnt k → fired s.data k = true ∨ held s.kern s.data.kq k
  quiet : ∀ pd ∈ kept, ∀ k ∈ knotes pd, fired s.data k = false

theorem Counted.asks {d : Data} {ps qs : List PollFd} (same : SameAsks ps qs) (counted : Counted d ps) : Counted d qs where
  counts k := by rw [counted.counts, tally_asks same]
  inside pd member := by
    have asked : pd.ask ∈ ps.map PollFd.ask := (List.Perm.mem_iff same).mpr (List.mem_map_of_mem member)
    obtain ⟨p, there, equal⟩ := List.mem_map.mp asked
    obtain ⟨valid, below⟩ := counted.inside p there
    refine ⟨valid.ask equal, ?_⟩
    rw [← show p.fd = pd.fd from congrArg Prod.fst equal]
    exact below
  size := counted.size

theorem Counted.nonneg {d : Data} {ps : List PollFd} (counted : Counted d ps) (k : Knote) : 0 ≤ d.refCnt k := by
  rw [counted.counts]
  exact tally_nonneg ps k

theorem Counted.beyond {d : Data} {ps : List PollFd} (counted : Counted d ps) {k : Knote}
    (beyond : d.fdDataSize ≤ k.ident) : d.refCnt k = 0 := by
  rw [counted.counts]
  by_contra some_
  have low := tally_nonneg ps k
  obtain ⟨pd, member, asks⟩ := tally_pos_iff.mp (by omega : 0 < tally ps k)
  have below := (counted.inside pd member).2
  rw [knotes_ident asks] at beyond
  omega

theorem Counted.less {d d' : Data} {ps pds : List PollFd} (counted : Counted d (pds ++ ps))
    (counts : ∀ k, d'.refCnt k = d.refCnt k - tally pds k) (size : d'.fdDataSize = d.fdDataSize) : Counted d' ps where
  counts k := by
    rw [counts, counted.counts, tally_append]
    omega
  inside pd member := by
    rw [size]
    exact counted.inside pd (List.mem_append_right _ member)
  size := by
    rw [size]
    exact counted.size

theorem Kept.blank {s : State κ} {ps : List PollFd} (kept : Kept K held s ps) : s.data.Blank :=
  ⟨kept.counted.size.le, fun _ beyond => kept.counted.beyond beyond, fun fd _ => kept.silent fd⟩

theorem Kept.grown (holds : Holds K enough held) {s s' : State κ} {ps : List PollFd} (kept : Kept K held s ps)
    (grown : Grown K s s') : Kept K held s' ps := by
  have rest := grown.rest
  refine ⟨⟨fun k => ?_, fun pd member => ?_, lt_of_lt_of_le kept.counted.size grown.size⟩, fun fd => ?_,
    lt_of_lt_of_le kept.size grown.room, ?_, fun memory => grown.wide memory (kept.wide memory),
    by rw [rest]; exact kept.adds, fun k positive => ?_⟩
  · rw [rest]
    exact kept.counted.counts k
  · obtain ⟨valid, below⟩ := kept.counted.inside pd member
    exact ⟨valid, lt_of_lt_of_le below grown.size⟩
  · rw [rest]
    exact kept.silent fd
  · have same : s'.data.addlist = s.data.addlist := by rw [rest]
    rw [same]
    exact kept.room.trans grown.room
  · rw [rest] at positive ⊢
    obtain listed | registered := kept.pending k positive
    · exact .inl listed
    · exact .inr (grown.kern (fun kern => held kern s.data.kq k) (fun _ _ h => holds.realloc _ _ _ _ h) registered)

theorem Kept.added (holds : Holds K enough held) {s s' : State κ} {ps pds : List PollFd} {error : Option AddError}
    (kept : Kept K held s ps) (run : pollsetAdd K s pds = some (s', error)) :
    (error = none → Kept K held s' (ps ++ pds)) ∧ (error ≠ none → Kept K held s' ps) ∧
      (Memory K → (∀ pd ∈ pds, Valid pd) → error = none) := by
  simp only [pollsetAdd, Option.bind_eq_bind, Option.bind_eq_some_iff] at run
  obtain ⟨⟨s₁, refused⟩, checked, run⟩ := run
  obtain ⟨grown, valid, passes⟩ := checkLoop_spec kept.blank checked
  have kept₁ := kept.grown holds grown
  cases refused with
  | some e =>
    cases run
    exact ⟨by simp, fun _ => kept₁, fun memory all => absurd (passes memory all) (by simp)⟩
  | none =>
    simp only [Option.bind_eq_some_iff] at run
    obtain ⟨⟨s₂, ok⟩, reserved, run⟩ := run
    obtain ⟨wider, -, granted⟩ := reserve_spec kept₁.size.le reserved
    have kept₂ := kept₁.grown holds wider
    cases ok with
    | false =>
      cases run
      exact ⟨by simp, fun _ => kept₂, fun memory _ => absurd (granted memory) (by simp)⟩
    | true =>
      simp only [if_true, Option.map_eq_some_iff] at run
      obtain ⟨d, loop, same⟩ := run
      cases same
      refine ⟨fun _ => ?_, by simp, fun _ _ => rfl⟩
      have added := addLoop_added loop
      have size : d.fdDataSize = s₂.data.fdDataSize := by rw [added.rest]
      refine ⟨⟨fun k => ?_, fun pd member => ?_, by rw [size]; exact kept₂.counted.size⟩, fun fd => ?_,
        by rw [added.rest]; exact kept₂.size, ?_, ?_, fun c member => ?_, ?_⟩
      · rw [added.counts, kept₂.counted.counts, tally_append]
        rfl
      · rw [size]
        obtain old | new := List.mem_append.mp member
        · exact kept₂.counted.inside pd old
        · obtain ⟨ok, below⟩ := valid rfl pd new
          exact ⟨ok, lt_of_lt_of_le below wider.size⟩
      · rw [added.rest]
        exact kept₂.silent fd
      · have same : d.addlistSize = s₂.data.addlistSize := by rw [added.rest]
        rw [same]
        exact added.room kept₂.room
      · rw [added.rest]
        exact kept₂.wide
      · obtain old | new := added.listed c member
        · exact kept₂.adds c old
        · exact new
      · intro k positive
        have kq : d.kq = s₂.data.kq := by rw [added.rest]
        rw [kq]
        by_cases old : 0 < s₂.data.refCnt k
        · obtain listed | registered := kept₂.pending k old
          · exact .inl (added.kept _ listed)
          · exact .inr registered
        · have low := kept₂.counted.nonneg k
          have zero : s₂.data.refCnt k = 0 := by omega
          refine .inl (added.fresh k zero ?_)
          have counts := added.counts k
          have positive : 0 < d.refCnt k := positive
          exact List.count_pos_iff.mp (by omega)

theorem Kept.deleted (holds : Holds K enough held) {s : State κ} {ps pds : List PollFd} (kept : Kept K held s (pds ++ ps)) :
    Kept K held (pollsetDel K s pds) ps := by
  unfold pollsetDel
  generalize after : (pds.flatMap knotes).foldl (release K fun _ _ => false) ⟨{ s.data with dellist := [] }, s.kern⟩ = s'
  have released : Released K ⟨{ s.data with dellist := [] }, s.kern⟩ (pds.flatMap knotes) s' := by
    rw [← after]
    exact releases_released _ _ _
  have rest := released.rest
  have counts : ∀ k, s'.data.refCnt k = s.data.refCnt k - tally pds k := released.counts
  have counted := kept.counted.less counts (by rw [rest])
  refine ⟨by rw [flush_data]; exact counted, fun fd => ?_, by rw [flush_data, rest]; exact kept.size, ?_,
    fun memory => ?_, by rw [flush_data, rest]; exact kept.adds, fun k positive => ?_⟩
  · rw [flush_data, rest]
    exact kept.silent fd
  · rw [flush_data, rest]
    exact kept.room
  · rw [flush_data, rest]
    exact kept.wide memory
  · rw [flush_data] at positive ⊢
    have low := tally_nonneg pds k
    have before := kept.pending k (by have := counts k; omega)
    have queue : s'.data.addlist = s.data.addlist := by rw [rest]
    have kq : s'.data.kq = s.data.kq := by rw [rest]
    rw [queue]
    obtain listed | registered := before
    · exact .inl listed
    · refine .inr (holds.flush (fun c member => ?_) ?_)
      · obtain old | ⟨delete, down⟩ := released.dels c member
        · simp at old
        · refine ⟨delete, ?_⟩
          rintro rfl
          omega
      · rw [kq]
        exact released.kern (fun kern => held kern s.data.kq k) (fun _ _ h => holds.realloc _ _ _ _ h) registered

/- The walk. -/

theorem look_ask (d : Data) (pd : PollFd) : (look d pd).ask = pd.ask := rfl

theorem look_quiet {d : Data} {pd : PollFd} (none : (look d pd).revents = 0) {k : Knote} (asks : k ∈ knotes pd) :
    fired d k = false := by
  have ident := knotes_ident asks
  obtain ⟨front, noOut⟩ := BitVec.or_eq_zero_iff.mp none
  obtain ⟨-, noIn⟩ := BitVec.or_eq_zero_iff.mp front
  unfold fired
  rw [ident]
  obtain ⟨fd, filter⟩ := k
  have wanted : (filter = .read ∧ pd.reads = true) ∨ (filter = .write ∧ pd.writes = true) := by
    unfold knotes at asks
    by_cases r : pd.reads = true <;> by_cases w : pd.writes = true <;> simp [r, w] at asks
    · obtain h | h := asks
      · exact .inl ⟨h.2, r⟩
      · exact .inr ⟨h.2, w⟩
    · exact .inl ⟨asks.2, r⟩
    · exact .inr ⟨asks.2, w⟩
  obtain ⟨rfl, reads⟩ | ⟨rfl, writes⟩ := wanted
  · simp only [reads, true_and] at noIn
    split at noIn
    · simp [pollIn] at noIn
    · rename_i away
      exact decide_eq_false away
  · simp only [writes, true_and] at noOut
    split at noOut
    · simp [pollOut] at noOut
    · rename_i away
      exact decide_eq_false away

theorem Walking.withdrawn (holds : Holds K enough held) {s : State κ} {seen : List PollFd} {todo : List (List PollFd)}
    {kept : List PollFd} (walking : Walking K held s (seen :: todo) kept) : Walking K held (withdraw K s seen) todo kept := by
  unfold withdraw
  generalize after : (seen.flatMap knotes).foldl (release K fired) s = s'
  have released : Released K s (seen.flatMap knotes) s' := by
    rw [← after]
    exact releases_released _ _ _
  have rest := released.rest
  have counts : ∀ k, s'.data.refCnt k = s.data.refCnt k - tally seen k := released.counts
  have whole : Counted s.data (seen ++ (todo.flatten ++ kept)) := by
    have := walking.counted
    rwa [List.flatten_cons, List.append_assoc] at this
  have same : ∀ k, fired s'.data k = fired s.data k := by
    intro k
    unfold fired
    rw [rest]
  have less : ∀ k, s'.data.refCnt k ≤ s.data.refCnt k := by
    intro k
    have := counts k
    have := tally_nonneg seen k
    omega
  refine ⟨whole.less counts (by rw [rest]), fun fd => ?_, by rw [rest]; exact walking.addlist, by rw [rest]; exact walking.size,
    fun memory => ?_, fun c member => ?_, fun k positive => ?_, fun pd member k asks => ?_⟩
  · rw [rest]
    exact walking.marked fd
  · rw [rest]
    exact walking.wide memory
  · obtain old | new := released.dels c member
    · obtain ⟨delete, down⟩ := walking.dels c old
      exact ⟨delete, (less c.knote).trans down⟩
    · exact new
  · rw [same]
    have kq : s'.data.kq = s.data.kq := by rw [rest]
    rw [kq]
    obtain hit | registered := walking.pending k (lt_of_lt_of_le positive (less k))
    · exact .inl hit
    · exact .inr (released.kern (fun kern => held kern s.data.kq k) (fun _ _ h => holds.realloc _ _ _ _ h) registered)
  · rw [same]
    exact walking.quiet pd member k asks

theorem Walking.asks {s : State κ} {seen pds : List PollFd} {todo : List (List PollFd)} {kept : List PollFd}
    (same : seen.map PollFd.ask = pds.map PollFd.ask) (walking : Walking K held s (pds :: todo) kept) :
    Walking K held s (seen :: todo) kept :=
  { walking with
    counted := by
      refine walking.counted.asks (.of_eq ?_)
      simp [same] }

theorem eventSys_walk (holds : Holds K enough held) (created : κ → Int → Prop) : Walk (eventSys K created) (Walking K held) where
  withdrawn evt pds todo kept walking _ := by
    have same : (pds.map (look evt.data)).map PollFd.ask = pds.map PollFd.ask := by simp [look_ask]
    exact (walking.asks same).withdrawn holds
  stayed evt pds todo kept walking still := by
    have same : (pds.map (look evt.data)).map PollFd.ask = pds.map PollFd.ask := by simp [look_ask]
    have still : ((pds.map (look evt.data)).any fun pd => pd.revents ≠ 0) = false := still
    refine { walking with counted := ?_, quiet := ?_ }
    · exact walking.counted.asks (.stayed same todo kept)
    · intro pd member k asks
      obtain old | new := List.mem_append.mp member
      · exact walking.quiet pd old k asks
      · obtain ⟨p, there, rfl⟩ := List.mem_map.mp new
        have none : (look evt.data p).revents = 0 := by
          have quiet := List.any_eq_false.mp still _ new
          simpa using quiet
        exact look_quiet none asks

theorem clears_other (list : List Report) (revents : Int → BitVec 16) (fd : Int) :
    list.foldl clear revents fd = if fd ∈ list.map (fun e => e.knote.ident) then 0 else revents fd := by
  induction list generalizing revents with
  | nil => simp
  | cons e list ih =>
    rw [List.foldl_cons, ih]
    by_cases here : fd = e.knote.ident <;> by_cases later : fd ∈ list.map (fun e => e.knote.ident) <;>
      simp [clear, here, later]

theorem Walking.finished (holds : Holds K enough held) {s : State κ} {kept : List PollFd} (walking : Walking K held s [] kept) :
    Kept K held (finish K s) kept := by
  have counted : Counted s.data kept := by simpa using walking.counted
  simp only [finish, flush_data]
  refine ⟨⟨counted.counts, counted.inside, counted.size⟩, fun fd => ?_, walking.size, ?_, walking.wide,
    by simp [walking.addlist], fun k positive => ?_⟩
  · dsimp only
    rw [clears_other]
    split
    · rfl
    · rename_i away
      by_contra marked
      exact away (walking.marked fd marked)
  · simp [walking.addlist, walking.size.le]
  · dsimp only at positive ⊢
    have wanted := positive
    rw [counted.counts] at wanted
    obtain ⟨pd, member, asks⟩ := tally_pos_iff.mp wanted
    obtain hit | registered := walking.pending k positive
    · rw [walking.quiet pd member k asks] at hit
      cases hit
    · refine .inr (holds.flush (fun c listed => ?_) registered)
      obtain ⟨delete, down⟩ := walking.dels c listed
      refine ⟨delete, ?_⟩
      rintro rfl
      omega

/- The call of kevent. -/

theorem mark_grows {revents : Int → BitVec 16} {fd : Int} {bit : BitVec 16} (e : Report) (set : revents fd &&& bit ≠ 0) :
    mark revents e fd &&& bit ≠ 0 := by
  by_cases here : fd = e.knote.ident
  · subst here
    rw [mark, Function.update_self, BitVec.and_comm, BitVec.and_or_distrib_left]
    intro none
    obtain ⟨first, -⟩ := BitVec.or_eq_zero_iff.mp none
    rw [BitVec.and_comm] at first
    exact set first
  · rw [mark, Function.update_of_ne here]
    exact set

theorem marks_grow {revents : Int → BitVec 16} {fd : Int} {bit : BitVec 16} (list : List Report)
    (set : revents fd &&& bit ≠ 0) : list.foldl mark revents fd &&& bit ≠ 0 := by
  induction list generalizing revents with
  | nil => exact set
  | cons e list ih => exact ih (mark_grows e set)

theorem mark_fires (revents : Int → BitVec 16) (e : Report) :
    mark revents e e.knote.ident &&& e.knote.filter.bit ≠ 0 := by
  rw [mark, Function.update_self, Report.bits, BitVec.and_comm, BitVec.and_or_distrib_left, BitVec.and_or_distrib_left,
    BitVec.and_self]
  intro none
  obtain ⟨-, second⟩ := BitVec.or_eq_zero_iff.mp none
  obtain ⟨bit, -⟩ := BitVec.or_eq_zero_iff.mp second
  revert bit
  cases e.knote.filter <;> decide

theorem marks_fired {list : List Report} {e : Report} (reported : e ∈ list) (revents : Int → BitVec 16) :
    list.foldl mark revents e.knote.ident &&& e.knote.filter.bit ≠ 0 := by
  induction list generalizing revents with
  | nil => simp at reported
  | cons r list ih =>
    rw [List.foldl_cons]
    obtain rfl | later := List.mem_cons.mp reported
    · exact marks_grow list (mark_fires revents e)
    · exact ih later _

theorem marks_other {list : List Report} {fd : Int} (away : fd ∉ list.map fun e => e.knote.ident)
    (revents : Int → BitVec 16) : list.foldl mark revents fd = revents fd := by
  induction list generalizing revents with
  | nil => rfl
  | cons e list ih =>
    simp only [List.map_cons, List.mem_cons, not_or] at away
    rw [List.foldl_cons, ih away.2, mark, Function.update_of_ne away.1]

/-- The branch after a fork: with memory for it all entries are counted again. -/
theorem Kept.registered (holds : Holds K enough held) (memory : Memory K) {s s' : State κ} {ioq : List (List PollFd)}
    {ps : List PollFd} (kept : Kept K held s ps) (valid : ∀ pd ∈ ioq.flatten, Valid pd)
    (run : ioq.foldlM (fun s pds => (pollsetAdd K s pds).map Prod.fst) s = some s') :
    Kept K held s' (ps ++ ioq.flatten) := by
  induction ioq generalizing s ps with
  | nil =>
    cases run
    simpa using kept
  | cons pds ioq ih =>
    simp only [List.foldlM_cons, Option.bind_eq_bind, Option.bind_eq_some_iff, Option.map_eq_some_iff] at run
    obtain ⟨s₁, ⟨⟨_, error⟩, added, rfl⟩, run⟩ := run
    obtain ⟨counted, -, passes⟩ := kept.added holds added
    have none := passes memory fun pd member => valid pd (by simp [member])
    have later := ih (counted none) (fun pd member => valid pd (by simp [List.flatten_cons, member])) run
    rw [List.flatten_cons, ← List.append_assoc]
    exact later

theorem Kept.resumed (holds : Holds K enough held) {s s' : State κ} {ioq : List (List PollFd)} {ps : List PollFd}
    (kept : Kept K held s ps) (run : ioq.foldlM (fun s pds => (pollsetAdd K s pds).map Prod.fst) s = some s') :
    ∃ qs, Kept K held s' qs := by
  induction ioq generalizing s ps with
  | nil =>
    cases run
    exact ⟨ps, kept⟩
  | cons pds ioq ih =>
    simp only [List.foldlM_cons, Option.bind_eq_bind, Option.bind_eq_some_iff, Option.map_eq_some_iff] at run
    obtain ⟨s₁, ⟨⟨_, error⟩, added, rfl⟩, run⟩ := run
    obtain ⟨counted, refused, -⟩ := kept.added holds added
    cases error with
    | none => exact ih (counted rfl) run
    | some e => exact ih (refused (by simp)) run

theorem register_cleared (K : Kernel κ ω) (held : κ → Int → Knote → Prop) {d : Data} {ps : List PollFd}
    (counted : Counted d ps) (silent : ∀ fd, d.revents fd = 0) (none : d.addlist = []) (size : 0 < d.addlistSize)
    (wide : Memory K → d.addlistSize ≤ d.evtlistSize) (kq : Int) (kern : κ) : ∃ s, Kept K held s [] ∧
      ∀ ioq, register K d kq kern ioq = ioq.foldlM (fun s pds => (pollsetAdd K s pds).map Prod.fst) s := by
  have zero : (fun k : Knote => if 0 ≤ k.ident ∧ k.ident < d.fdDataSize then 0 else d.refCnt k) = fun _ => 0 := by
    funext k
    split
    · rfl
    · rename_i away
      rw [counted.counts]
      by_contra some_
      have low := tally_nonneg ps k
      obtain ⟨pd, member, asks⟩ := tally_pos_iff.mp (by omega : 0 < tally ps k)
      obtain ⟨valid, below⟩ := counted.inside pd member
      rw [knotes_ident asks] at away
      exact away ⟨valid.fd, below⟩
  have blank : (fun fd => if 0 ≤ fd ∧ fd < d.fdDataSize then 0 else d.revents fd) = fun _ => 0 := by
    funext fd
    split
    · rfl
    · exact silent fd
  refine ⟨_, ?_, fun ioq => rfl⟩
  simp only [zero, blank]
  exact ⟨⟨fun _ => rfl, by simp, counted.size⟩, fun _ => rfl, size, by simp [none, size.le], wide, by simp [none],
    by simp⟩

theorem register_kept (holds : Holds K enough held) (memory : Memory K) {d : Data} {kq : Int} {kern : κ} {s' : State κ}
    {ioq : List (List PollFd)} (counted : Counted d ioq.flatten) (silent : ∀ fd, d.revents fd = 0)
    (none : d.addlist = []) (size : 0 < d.addlistSize) (wide : d.addlistSize ≤ d.evtlistSize)
    (run : register K d kq kern ioq = some s') : Kept K held s' ioq.flatten := by
  obtain ⟨s, kept, same⟩ := register_cleared K held counted silent none size (fun _ => wide) kq kern
  rw [same] at run
  rw [← List.nil_append ioq.flatten]
  exact kept.registered holds memory (fun pd member => (counted.inside pd member).1) run

theorem Kept.reregistered (holds : Holds K enough held) {s s' : State κ} {ps : List PollFd} (kept : Kept K held s ps)
    {kq : Int} {kern : κ} {ioq : List (List PollFd)}
    (run : register K { s.data with addlist := [] } kq kern ioq = some s') : ∃ qs, Kept K held s' qs := by
  have counted : Counted { s.data with addlist := [] } ps :=
    ⟨kept.counted.counts, kept.counted.inside, kept.counted.size⟩
  obtain ⟨s₁, kept₁, same⟩ := register_cleared K held counted kept.silent rfl kept.size kept.wide kq kern
  rw [same] at run
  exact kept₁.resumed holds run

theorem Kept.waited (holds : Holds K enough held) (steady : ∀ kern kq changes size time,
    K.getpid (K.kevent kern kq changes size time).1 = K.getpid kern) {min : Option UTime} {ioq : List (List PollFd)}
    {turns : Nat} {s s' : State κ} {found : Bool} (kept : Kept K held s ioq.flatten)
    (ready : (s.data.pid = K.getpid s.kern ∧ enough s.data.addlist.length s.data.evtlistSize) ∨ Memory K)
    (run : waitLoop K min ioq turns s = some (s', found)) :
    if found then Walking K held s' ioq [] else Kept K held s' ioq.flatten := by
  induction turns generalizing s with
  | zero => cases run
  | succ turns ih =>
    have served := holds.served s.kern s.data.kq s.data.addlist s.data.evtlistSize (timespec min)
    have failed := holds.failed s.kern s.data.kq s.data.addlist s.data.evtlistSize (timespec min)
    have same := steady s.kern s.data.kq s.data.addlist s.data.evtlistSize (timespec min)
    have counted : Counted { s.data with addlist := [] } ioq.flatten :=
      ⟨kept.counted.counts, kept.counted.inside, kept.counted.size⟩
    have size := kept.size
    rw [waitLoop] at run
    generalize K.kevent s.kern s.data.kq s.data.addlist s.data.evtlistSize (timespec min) = result at *
    obtain ⟨kern, answer⟩ := result
    cases answer with
    | events list =>
      dsimp only at run
      split at run
      · rename_i quiet
        cases run
        refine ⟨counted, kept.silent, size, by simp [size.le], kept.wide, by simp, fun k positive => .inr ?_⟩
        exact served list k kept.adds rfl (kept.pending k positive) (by simp [quiet])
      · cases run
        refine ⟨?_, fun fd marked => ?_, rfl, size, kept.wide, by simp, fun k positive => ?_, by simp⟩
        · rw [List.append_nil]
          exact ⟨counted.counts, counted.inside, counted.size⟩
        · by_contra away
          exact marked ((marks_other away _).trans (kept.silent fd))
        · by_cases reported : ∃ e ∈ list, e.knote = k
          · obtain ⟨e, member, rfl⟩ := reported
            exact .inl (decide_eq_true (marks_fired member _))
          · exact .inr (served list k kept.adds rfl (kept.pending k positive) fun e member h => reported ⟨e, member, h⟩)
    | failed errno =>
      dsimp only at run
      split at run
      · rename_i forked
        have memory : Memory K := by
          obtain ⟨own, -⟩ | memory := ready
          · exact absurd (own.trans same.symm) forked.2
          · exact memory
        split at run
        · rename_i kern' uncreated
          cases run
          have nothing := holds.uncreated kern
          rw [uncreated] at nothing
          exact ⟨⟨counted.counts, counted.inside, counted.size⟩, kept.silent, size, by simp [size.le], kept.wide,
            by simp, fun k _ => .inr (nothing k rfl)⟩
        · rename_i kern' kq created
          obtain ⟨s₁, registered, run⟩ := Option.bind_eq_some_iff.mp run
          exact ih (register_kept holds memory counted kept.silent rfl size (kept.wide memory) registered)
            (.inr memory) run
      · cases run
        have fits : enough s.data.addlist.length s.data.evtlistSize := by
          obtain ⟨-, fits⟩ | memory := ready
          · exact fits
          · exact holds.fits _ _ (kept.room.trans (kept.wide memory))
        refine ⟨counted, kept.silent, size, by simp [size.le], kept.wide, by simp, fun k positive => .inr ?_⟩
        exact failed errno k kept.adds rfl fits (kept.pending k positive)

/-- The steps that are looked at. Dispatch runs in the process that created the kqueue, with
a list of results that is long enough, unless memory never runs out; and the world outside
does not take away what a thread waits for. -/
def Fair (K : Kernel κ ω) (enough : Int → Int → Prop) (held : κ → Int → Knote → Prop) (s : System (State κ)) :
    Label ω → Prop
  | .idle _ _ =>
    (s.evt.data.pid = K.getpid s.evt.kern ∧ enough s.evt.data.addlist.length s.evt.data.evtlistSize) ∨ Memory K
  | .outside change => ∀ pd ∈ polled s.vp, ∀ k ∈ knotes pd, held s.evt.kern s.evt.data.kq k →
    held (K.outside s.evt.kern change) s.evt.data.kq k
  | _ => True

theorem eventSys_keeps (holds : Holds K enough held) (created : κ → Int → Prop) (steady : ∀ kern kq changes size time,
    K.getpid (K.kevent kern kq changes size time).1 = K.getpid kern) :
    Keeping (eventSys K created) (Fair K enough held) (Kept K held) where
  asks _ _ _ same kept := { kept with counted := kept.counted.asks same }
  initial evt start := by
    obtain ⟨kq, -, data⟩ := start
    have size : (0 : Int) < Select.fdSetSize := by decide
    constructor <;> rw [data]
    · exact ⟨fun _ => rfl, by simp, size⟩
    · exact fun _ => rfl
    · simp [init]
    · simp [init]
    · simp [init]
    · simp [init]
    · simp [init]
  added _ _ _ _ kept run := (kept.added holds run).1 rfl
  refused _ _ _ _ _ kept run := (kept.added holds run).2.1 (by simp)
  deleted _ _ _ kept := kept.deleted holds
  dispatched s now time evt vp fair settled idle kept run := by
    simp only [dispatch, Option.bind_eq_bind, Option.bind_eq_some_iff] at run
    obtain ⟨⟨evt₁, found⟩, answer, run⟩ := run
    rw [polled_flatten] at kept
    have after := kept.waited holds steady fair answer
    cases found with
    | false =>
      cases run
      rw [polled_flatten]
      exact after
    | true =>
      simp only [if_true, Option.bind_eq_some_iff] at run
      obtain ⟨⟨evt₂, vp₁⟩, walked, run⟩ := run
      cases run
      exact ((eventSys_walk holds created).dispatched settled idle walked after).finished holds
  fdNew evt evt' ps fd error kept run := by
    simp only [eventSys, fdNew] at run
    split at run
    · simp only [Option.map_eq_some_iff] at run
      obtain ⟨⟨s₁, ok⟩, expanded, same⟩ := run
      cases same
      exact kept.grown holds (fdDataExpand_spec kept.blank expanded).1
    · cases run
      exact kept
  outside s change fair kept := by
    refine { kept with pending := fun k positive => ?_ }
    obtain listed | registered := kept.pending k positive
    · exact .inl listed
    · have wanted : 0 < s.evt.data.refCnt k := positive
      rw [kept.counted.counts] at wanted
      obtain ⟨pd, member, asks⟩ := tally_pos_iff.mp wanted
      exact .inr (fair pd member k asks registered)

end StateThreads.Kqueue
