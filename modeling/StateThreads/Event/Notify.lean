import StateThreads.Event.Bookkeeping

/-! What a dispatch function is for. Given the bits that are ready on each descriptor, it
wakes the threads on io_q that asked for one of them, in the order of the queue. -/
namespace StateThreads

variable {σ ω : Type}

def PollFd.answer (ready : Int → BitVec 16) (pd : PollFd) : PollFd := { pd with revents := pd.events &&& ready pd.fd }

def wakes (ready : Int → BitVec 16) (pds : List PollFd) : Bool := pds.any fun pd => pd.events &&& ready pd.fd ≠ 0

/-- The pollqs of ts are off io_q with their results, and their timers off the heap; the
other pollqs ask for what they did. -/
structure Answered (ready : Int → BitVec 16) (vp : Vp) (ts : List Tid) (vp' : Vp) : Prop where
  ioQ : vp'.ioQ = vp.ioQ.filter fun t => t ∉ ts
  heap : ts.foldlM SleepQ.off vp.sleepQ = some vp'.sleepQ
  told : ∀ t ∈ ts, vp'.pollq t = ⟨(vp.pollq t).pds.map (PollFd.answer ready), false⟩
  stays : ∀ t, t ∉ ts → (vp'.pollq t).onIoq = (vp.pollq t).onIoq ∧
    (vp'.pollq t).pds.map PollFd.ask = (vp.pollq t).pds.map PollFd.ask

theorem Answered.none (ready : Int → BitVec 16) (vp : Vp) : Answered ready vp [] vp := by
  constructor <;> simp

structure Reports (E : EventSys σ ω) (ready : Int → BitVec 16) (At : σ → List (List PollFd) → Prop) : Prop where
  asks : ∀ evt pds rest, At evt (pds :: rest) → (E.visit evt pds).2.1.map PollFd.ask = pds.map PollFd.ask
  notify : ∀ evt pds rest, At evt (pds :: rest) → (E.visit evt pds).2.2 = wakes ready pds
  told : ∀ evt pds rest, At evt (pds :: rest) → wakes ready pds = true →
    (E.visit evt pds).2.1 = pds.map (PollFd.answer ready) ∧
      At (E.withdraw (E.visit evt pds).1 (pds.map (PollFd.answer ready))) rest
  stays : ∀ evt pds rest, At evt (pds :: rest) → wakes ready pds = false →
    At (E.stay (E.visit evt pds).1 (E.visit evt pds).2.1) rest

def Vp.hits (vp : Vp) (ready : Int → BitVec 16) (q : List Tid) : List Tid := q.filter fun t => wakes ready (vp.pollq t).pds

def Finds (ready : Int → BitVec 16) (pds : List PollFd) (r : List PollFd × Bool) : Prop :=
  r.2 = wakes ready pds ∧ r.1.map PollFd.ask = pds.map PollFd.ask ∧
    (wakes ready pds = true → r.1 = pds.map (PollFd.answer ready))

theorem Reports.findings {E : EventSys σ ω} {ready : Int → BitVec 16} {At : σ → List (List PollFd) → Prop}
    (reports : Reports E ready At) {todo : List (List PollFd)} {evt : σ} (at_ : At evt todo) :
    List.Forall₂ (Finds ready) todo (findings E todo evt) := by
  induction todo generalizing evt with
  | nil => exact .nil
  | cons pds todo ih =>
    have notify := reports.notify _ _ _ at_
    rw [findings_cons]
    refine .cons ⟨notify, reports.asks _ _ _ at_, fun wake => (reports.told _ _ _ at_ wake).1⟩ (ih ?_)
    unfold visitedOne
    rw [notify]
    cases wake : wakes ready pds with
    | true =>
      obtain ⟨result, rest⟩ := reports.told _ _ _ at_ wake
      rw [if_pos rfl, result]
      exact rest
    | false =>
      rw [if_neg (by simp)]
      exact reports.stays _ _ _ at_ wake

theorem Visited.answered {ready : Int → BitVec 16} {vp vp' : Vp} {f : Tid → List PollFd × Bool}
    (visited : Visited vp vp.ioQ f vp') (told : ∀ t ∈ vp.ioQ, Finds ready (vp.pollq t).pds (f t)) :
    notifiedOf vp.ioQ f = vp.hits ready vp.ioQ ∧ Answered ready vp (vp.hits ready vp.ioQ) vp' := by
  have hits : notifiedOf vp.ioQ f = vp.hits ready vp.ioQ := by
    apply List.filter_congr
    intro t member
    exact (told t member).1
  refine ⟨hits, ?_⟩
  rw [← hits]
  refine ⟨visited.ioQ, visited.heap, fun t hit => ?_, fun t away => ?_⟩
  · obtain ⟨member, notified⟩ := List.mem_filter.mp hit
    obtain ⟨wake, -, result⟩ := told t member
    rw [visited.told t member, notified, result (by rw [← wake]; exact notified)]
    simp
  · by_cases member : t ∈ vp.ioQ
    · have quiet : (f t).2 = false := by
        by_contra hit
        exact away (List.mem_filter.mpr ⟨member, by simpa using hit⟩)
      rw [visited.told t member, quiet]
      exact ⟨by simp, (told t member).2.1⟩
    · rw [visited.others t member]
      exact ⟨rfl, rfl⟩

/-- One dispatch: the threads with a ready bit are woken, in the order of io_q. -/
structure Notified (ready : Int → BitVec 16) (vp vp' : Vp) : Prop where
  dispatched : Dispatched vp (vp.hits ready vp.ioQ) vp'
  answered : Answered ready vp (vp.hits ready vp.ioQ) vp'

theorem dispatch_notified {E : EventSys σ ω} {ready : Int → BitVec 16} {At : σ → List (List PollFd) → Prop}
    (reports : Reports E ready At) {evt evt' : σ} {vp : Vp} {found : Bool} (settled : Settled vp)
    (idle : (vp.thr vp.current).context = .idle)
    (waited : E.wait evt (minTimeout vp) (vp.ioQ.map fun t => (vp.pollq t).pds) = some (evt', found))
    (answer : if found then At evt' (vp.ioQ.map fun t => (vp.pollq t).pds)
      else ∀ pds ∈ vp.ioQ.map fun t => (vp.pollq t).pds, wakes ready pds = false) :
    ∃ evt'' vp', dispatch E evt vp = some (evt'', vp') ∧ Notified ready vp vp' := by
  simp only [dispatch, waited, Option.bind_eq_bind, Option.bind_some]
  cases found with
  | false =>
    have none : vp.hits ready vp.ioQ = [] := by
      apply List.filter_eq_nil_iff.mpr
      intro t member
      simpa using answer _ (List.mem_map_of_mem member)
    refine ⟨evt', vp, rfl, ?_, ?_⟩
    · rw [none]; exact .none vp
    · rw [none]; exact .none ready vp
  | true =>
    obtain ⟨vp', f, run, found, visited⟩ := dispatchLoop_visits E evt' settled.inv idle (settled.empty idle)
    have told := reports.findings answer
    rw [← found, List.forall₂_map_left_iff, List.forall₂_map_right_iff, List.forall₂_same] at told
    obtain ⟨hits, answered⟩ := visited.answered told
    have done := visited.dispatched
    rw [hits] at done
    exact ⟨_, vp', by rw [if_pos rfl, run]; rfl, done, answered⟩

/-- The effect of a dispatch is determined, but for the results of the pollqs that stay. -/
theorem Notified.unique {ready : Int → BitVec 16} {vp vp₁ vp₂ : Vp} (first : Notified ready vp vp₁)
    (second : Notified ready vp vp₂) : vp₁ = { vp₂ with pollq := vp₁.pollq } ∧
      ∀ t, t ∈ vp.hits ready vp.ioQ → vp₁.pollq t = vp₂.pollq t := by
  constructor
  · have thr : vp₁.thr = vp₂.thr := by
      funext t
      rw [first.dispatched.thr, second.dispatched.thr]
    have runQ := first.dispatched.runQ.trans second.dispatched.runQ.symm
    have ioQ := first.answered.ioQ.trans second.answered.ioQ.symm
    have heap := Option.some.inj (first.answered.heap.symm.trans second.answered.heap)
    rw [first.dispatched.rest, second.dispatched.rest, thr, runQ, ioQ, heap]
  · intro t member
    rw [first.answered.told t member, second.answered.told t member]

end StateThreads
