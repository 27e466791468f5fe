import StateThreads.Placement.Dispatch

/-! The walk over io_q, told apart from the threads: what an event system finds for each
pollfd array in turn decides what becomes of the threads. -/
namespace StateThreads

variable {σ ω : Type}

/-- The entries with their results, and whether their thread is notified, for each of the
pollfd arrays still to be visited. -/
def findings (E : EventSys σ ω) : List (List PollFd) → σ → List (List PollFd × Bool)
  | [], _ => []
  | pds :: todo, evt =>
    let (evt, seen, notify) := E.visit evt pds
    (seen, notify) :: findings E todo (if notify then E.withdraw evt seen else E.stay evt seen)

def walked (E : EventSys σ ω) : List (List PollFd) → σ → σ
  | [], evt => evt
  | pds :: todo, evt =>
    let (evt, seen, notify) := E.visit evt pds
    walked E todo (if notify then E.withdraw evt seen else E.stay evt seen)

def visitedOne (E : EventSys σ ω) (evt : σ) (pds : List PollFd) : σ :=
  if (E.visit evt pds).2.2 then E.withdraw (E.visit evt pds).1 (E.visit evt pds).2.1
  else E.stay (E.visit evt pds).1 (E.visit evt pds).2.1

theorem findings_cons (E : EventSys σ ω) (pds : List PollFd) (todo : List (List PollFd)) (evt : σ) :
    findings E (pds :: todo) evt = (E.visit evt pds).2 :: findings E todo (visitedOne E evt pds) := rfl

theorem walked_cons (E : EventSys σ ω) (pds : List PollFd) (todo : List (List PollFd)) (evt : σ) :
    walked E (pds :: todo) evt = walked E todo (visitedOne E evt pds) := rfl

def notifiedOf (q : List Tid) (f : Tid → List PollFd × Bool) : List Tid := q.filter fun t => (f t).2

theorem mem_notifiedOf {q : List Tid} {f : Tid → List PollFd × Bool} {t : Tid} :
    t ∈ notifiedOf q f ↔ t ∈ q ∧ (f t).2 = true := List.mem_filter

/-- The threads of q are told what f says of them: the notified ones are off io_q and
runnable, in the order of q, and their timers are off the heap. -/
structure Visited (vp : Vp) (q : List Tid) (f : Tid → List PollFd × Bool) (vp' : Vp) : Prop where
  dispatched : Dispatched vp (notifiedOf q f) vp'
  ioQ : vp'.ioQ = vp.ioQ.filter fun t => t ∉ notifiedOf q f
  heap : (notifiedOf q f).foldlM SleepQ.off vp.sleepQ = some vp'.sleepQ
  told : ∀ t ∈ q, vp'.pollq t = ⟨(f t).1, (vp.pollq t).onIoq && !(f t).2⟩
  others : ∀ t, t ∉ q → vp'.pollq t = vp.pollq t

theorem Visited.none (vp : Vp) (f : Tid → List PollFd × Bool) : Visited vp [] f vp := by
  constructor
  · exact .none vp
  · simp [notifiedOf]
  · rfl
  · simp
  · simp

section
variable {vp vp' : Vp} {t : Tid} {q : List Tid} {f : Tid → List PollFd × Bool}

theorem Visited.stays (fresh : t ∉ q) (quiet : (f t).2 = false) (later : Visited (vp.looked t (f t).1) q f vp') :
    Visited vp (t :: q) f vp' := by
  have hits : notifiedOf (t :: q) f = notifiedOf q f := by simp [notifiedOf, quiet]
  constructor
  · rw [hits]
    exact later.dispatched.stays
  · rw [hits]
    exact later.ioQ
  · rw [hits]
    exact later.heap
  · intro u member
    by_cases h : u = t
    · subst h
      rw [later.others u fresh]
      simp [Vp.looked, Vp.setPollq, quiet]
    · have there : u ∈ q := by simpa [h] using member
      simpa [Vp.looked, Vp.setPollq, h] using later.told u there
  · intro u away
    simp only [List.mem_cons, not_or] at away
    simpa [Vp.looked, Vp.setPollq, away.1] using later.others u away.2

theorem Visited.cons {heap : SleepQ} (distinct : vp.ioQ.Nodup) (polls : vp.Polls t) (without : vp.sleepQ.Without t heap)
    (off : vp.sleepQ.off t = some heap) (fresh : t ∉ q) (hit : (f t).2 = true)
    (later : Visited (vp.notified t (f t).1 heap) q f vp') : Visited vp (t :: q) f vp' := by
  have hits : notifiedOf (t :: q) f = t :: notifiedOf q f := by simp [notifiedOf, hit]
  constructor
  · rw [hits]
    exact later.dispatched.cons polls without fun member => fresh (List.mem_of_mem_filter member)
  · rw [hits, later.ioQ]
    simp only [Vp.notified, distinct.erase_eq_filter, List.filter_filter]
    apply List.filter_congr
    intro u _
    by_cases h : u = t <;> simp [h]
  · rw [hits, List.foldlM_cons, off]
    exact later.heap
  · intro u member
    by_cases h : u = t
    · subst h
      rw [later.others u fresh]
      simp [Vp.notified, hit]
    · have there : u ∈ q := by simpa [h] using member
      simpa [Vp.notified, h] using later.told u there
  · intro u away
    simp only [List.mem_cons, not_or] at away
    simpa [Vp.notified, away.1] using later.others u away.2

end

/- The whole of io_q is visited. -/

section
variable {vp vp' : Vp} {t : Tid} {f : Tid → List PollFd × Bool} (visited : Visited vp vp.ioQ f vp')
include visited

theorem Visited.queue : vp'.ioQ.Sublist vp.ioQ := by
  rw [visited.ioQ]
  exact List.filter_sublist

theorem Visited.off (queued : t ∈ vp.ioQ) : t ∉ vp'.ioQ ↔ (f t).2 = true := by
  simp [visited.ioQ, mem_notifiedOf, queued]

theorem Visited.order : vp'.runQ = vp.runQ ++ vp.ioQ.filter fun t => t ∉ vp'.ioQ := by
  rw [visited.dispatched.runQ]
  congr 1
  apply List.filter_congr
  intro t queued
  rw [Bool.eq_iff_iff, decide_eq_true_eq, visited.off queued]

theorem Visited.woken (queued : t ∈ vp.ioQ) (hit : (f t).2 = true) :
    vp'.pollq t = ⟨(f t).1, false⟩ ∧ vp'.thr t = { vp.thr t with state := .runnable } := by
  rw [visited.told t queued, hit, visited.dispatched.thr, if_pos (mem_notifiedOf.mpr ⟨queued, hit⟩)]
  simp

theorem Visited.left (still : t ∈ vp'.ioQ) : (f t).2 = false ∧ vp'.pollq t = ⟨(f t).1, (vp.pollq t).onIoq⟩ ∧
    vp'.thr t = vp.thr t := by
  have queued := visited.queue.subset still
  have quiet : (f t).2 = false := by
    by_contra hit
    exact (visited.off queued).mpr (by simpa using hit) still
  rw [visited.told t queued, quiet, visited.dispatched.thr, if_neg]
  · simp
  · simp [mem_notifiedOf, quiet]

end

theorem dispatchLoop_visited (E : EventSys σ ω) (q : List Tid) (evt : σ) {vp : Vp} {r : Option Tid} (inv : Inv vp r)
    (distinct : q.Nodup) (polls : ∀ t ∈ q, vp.Polls t) {f : Tid → List PollFd × Bool}
    (found : q.map f = findings E (q.map fun t => (vp.pollq t).pds) evt) :
    ∃ vp', dispatchLoop E q evt vp = some (walked E (q.map fun t => (vp.pollq t).pds) evt, vp') ∧ Visited vp q f vp' := by
  induction q generalizing evt vp with
  | nil => exact ⟨vp, rfl, .none vp f⟩
  | cons t q ih =>
    obtain ⟨first, distinct⟩ := List.nodup_cons.mp distinct
    have here := polls t (List.mem_cons_self ..)
    obtain ⟨heap, off, without, next⟩ := dispatchLoop_cons E q evt inv here
    have others : ∀ u ∈ q, u ≠ t := by rintro u member rfl; exact first member
    rw [List.map_cons, List.map_cons, findings_cons] at found
    obtain ⟨this, rest⟩ := List.cons.inj found
    rw [next, List.map_cons, walked_cons]
    unfold visitedOne at rest ⊢
    rw [← this] at rest ⊢
    cases hit : (f t).2 with
    | true =>
      have same : (q.map fun u => ((vp.notified t (f t).1 heap).pollq u).pds) = q.map fun u => (vp.pollq u).pds := by
        apply List.map_congr_left
        intro u member
        simp [Vp.notified, others u member]
      have polls' : ∀ u ∈ q, (vp.notified t (f t).1 heap).Polls u := by
        intro u member
        simpa [Vp.Polls, Vp.notified, Vp.woken, others u member] using polls u (List.mem_cons_of_mem _ member)
      simp only [hit, if_true] at rest
      obtain ⟨vp', run, later⟩ := ih _ (inv.notified here (f t).1 without) distinct polls' (by rw [same]; exact rest)
      rw [same] at run
      exact ⟨vp', run, later.cons inv.ioQ_nodup here without off first hit⟩
    | false =>
      have same : (q.map fun u => ((vp.looked t (f t).1).pollq u).pds) = q.map fun u => (vp.pollq u).pds := by
        apply List.map_congr_left
        intro u member
        simp [Vp.looked, Vp.setPollq, others u member]
      simp only [hit, Bool.false_eq_true, if_false] at rest
      obtain ⟨vp', run, later⟩ := ih _ (inv.looked t (f t).1) distinct
        (fun u member => polls u (List.mem_cons_of_mem _ member)) (by rw [same]; exact rest)
      rw [same] at run
      exact ⟨vp', run, later.stays first hit⟩

theorem findings_length (E : EventSys σ ω) (todo : List (List PollFd)) (evt : σ) :
    (findings E todo evt).length = todo.length := by
  induction todo generalizing evt with
  | nil => rfl
  | cons pds todo ih => simp [findings, ih]

theorem exists_map_eq {α : Type} [Inhabited α] {q : List Tid} (distinct : q.Nodup) {l : List α} (same : l.length = q.length) :
    ∃ f : Tid → α, q.map f = l := by
  induction q generalizing l with
  | nil => exact ⟨fun _ => default, (List.eq_nil_of_length_eq_zero same).symm⟩
  | cons t q ih =>
    obtain ⟨first, distinct⟩ := List.nodup_cons.mp distinct
    cases l with
    | nil => simp at same
    | cons a l =>
      obtain ⟨f, rest⟩ := ih distinct (by simpa using same)
      refine ⟨Function.update f t a, ?_⟩
      rw [List.map_cons, Function.update_self, ← rest]
      congr 1
      apply List.map_congr_left
      intro u member
      have other : u ≠ t := by rintro rfl; exact first member
      simp [other]

theorem dispatchLoop_visits (E : EventSys σ ω) (evt : σ) {vp : Vp} (inv : Inv vp (some vp.current))
    (idle : (vp.thr vp.current).context = .idle) (empty : vp.runQ = []) :
    ∃ vp' f, dispatchLoop E vp.ioQ evt vp = some (walked E (vp.ioQ.map fun t => (vp.pollq t).pds) evt, vp') ∧
      vp.ioQ.map f = findings E (vp.ioQ.map fun t => (vp.pollq t).pds) evt ∧ Visited vp vp.ioQ f vp' := by
  have length : (findings E (vp.ioQ.map fun t => (vp.pollq t).pds) evt).length = vp.ioQ.length := by
    rw [findings_length, List.length_map]
  obtain ⟨f, found⟩ := exists_map_eq inv.ioQ_nodup length
  obtain ⟨vp', run, visited⟩ := dispatchLoop_visited E vp.ioQ evt inv inv.ioQ_nodup
    (fun t member => inv.ioQ_polls idle empty member) found
  exact ⟨vp', f, run, found, visited⟩

theorem dispatchLoop_found {E : EventSys σ ω} {evt evt' : σ} {vp vp' : Vp} (inv : Inv vp (some vp.current))
    (idle : (vp.thr vp.current).context = .idle) (empty : vp.runQ = [])
    (run : dispatchLoop E vp.ioQ evt vp = some (evt', vp')) :
    evt' = walked E (vp.ioQ.map fun t => (vp.pollq t).pds) evt ∧ ∃ f,
      vp.ioQ.map f = findings E (vp.ioQ.map fun t => (vp.pollq t).pds) evt ∧ Visited vp vp.ioQ f vp' := by
  obtain ⟨vp₁, f, run', found, visited⟩ := dispatchLoop_visits E evt inv idle empty
  obtain ⟨rfl, rfl⟩ := Prod.mk.inj (Option.some.inj (run.symm.trans run'))
  exact ⟨rfl, f, found, visited⟩

end StateThreads
