import StateThreads.Placement.Wake

/-! The walk of a dispatch function over io_q. It makes the thread of a notified
pollq runnable without a look at the state of the thread, so it needs every thread on
io_q to be in IO_WAIT. -/
namespace StateThreads

variable {σ ω : Type}

/-- The thread t has been notified: off io_q, with results, and runnable. -/
def Vp.notified (vp : Vp) (t : Tid) (pds : List PollFd) (q : SleepQ) : Vp :=
  { vp.woken t q (vp.thr t).flags with
    ioQ := vp.ioQ.erase t
    pollq := Function.update vp.pollq t ⟨pds, false⟩ }

/-- The pollfd array of t holds new results. -/
def Vp.looked (vp : Vp) (t : Tid) (pds : List PollFd) : Vp :=
  vp.setPollq t { vp.pollq t with pds := pds }

theorem Inv.looked {vp : Vp} {r : Option Tid} (inv : Inv vp r) (t : Tid) (pds : List PollFd) :
    Inv (vp.looked t pds) r := by
  refine inv.change t ?_ ?_ inv.heap (inv.objects.same rfl rfl fun _ => rfl)
  · intro u hu
    simp [Vp.view, Vp.looked, Vp.setPollq, hu]
  · have ok := inv.views t
    simpa [Vp.view, Vp.looked, Vp.setPollq] using ok

def Vp.Polls (vp : Vp) (t : Tid) : Prop := (vp.thr t).context = .poll ∧ (vp.thr t).state = .ioWait

theorem Inv.linked_poll {vp : Vp} {r : Option Tid} (inv : Inv vp r) {t : Tid} (polls : vp.Polls t) :
    (vp.pollq t).onIoq = true ∧ vp.ioQ.count t = 1 := by
  have on := (inv.views t).polled (by rw [Vp.view_thread, polls.1]; rfl) polls.2
  have count := (inv.views t).io
  simp only [Vp.view, polls.1] at on count
  exact ⟨on, by simpa [on] using count⟩

theorem Inv.notified {vp : Vp} {r : Option Tid} (inv : Inv vp r) {t : Tid} (polls : vp.Polls t)
    (pds : List PollFd) {q : SleepQ} (without : vp.sleepQ.Without t q) : Inv (vp.notified t pds q) r := by
  have woken : Inv (vp.woken t q (vp.thr t).flags) r := by
    apply inv.woken _ _ without rfl fun h => ((inv.views t).timedout h).1
    · rw [polls.1]; rfl
    · rw [polls.2]; rfl
  have count := (inv.linked_poll polls).2
  refine woken.change t ?_ ?_ without.flagged (woken.objects.same rfl rfl fun _ => rfl)
  · intro u hu
    simp [Vp.view, Vp.notified, Vp.woken, hu, List.count_erase_of_ne hu]
  · have ok := (woken.views t).notified (by simp [Vp.woken])
    simpa [Vp.view, Vp.notified, Vp.woken, count] using ok

structure Dispatched (vp : Vp) (ts : List Tid) (vp' : Vp) : Prop where
  polls : ∀ u ∈ ts, vp.Polls u
  thr : ∀ u, vp'.thr u = if u ∈ ts then { vp.thr u with state := .runnable } else vp.thr u
  runQ : vp'.runQ = vp.runQ ++ ts
  off : ∀ u, vp'.sleepQ.onSleepq u = (!ts.contains u && vp.sleepQ.onSleepq u)
  due : vp'.sleepQ.due = vp.sleepQ.due
  rest : vp' = { vp with
    thr := vp'.thr, runQ := vp'.runQ, ioQ := vp'.ioQ, sleepQ := vp'.sleepQ, pollq := vp'.pollq }

theorem Dispatched.none (vp : Vp) : Dispatched vp [] vp := by
  constructor <;> simp

theorem Dispatched.stays {vp vp' : Vp} {t : Tid} {pds : List PollFd} {ts : List Tid}
    (later : Dispatched (vp.looked t pds) ts vp') : Dispatched vp ts vp' :=
  ⟨later.polls, later.thr, later.runQ, later.off, later.due, later.rest⟩

theorem Dispatched.cons {vp vp' : Vp} {t : Tid} {pds : List PollFd} {q : SleepQ} {ts : List Tid}
    (polls : vp.Polls t) (without : vp.sleepQ.Without t q) (fresh : t ∉ ts)
    (later : Dispatched (vp.notified t pds q) ts vp') : Dispatched vp (t :: ts) vp' where
  polls u hu := by
    obtain rfl | later_on := List.mem_cons.mp hu
    · exact polls
    · have other : u ≠ t := by rintro rfl; exact fresh later_on
      simpa [Vp.Polls, Vp.notified, Vp.woken, other] using later.polls u later_on
  thr u := by
    rw [later.thr]
    by_cases h : u = t
    · subst h; simp [fresh, Vp.notified, Vp.woken]
    · simp [h, Vp.notified, Vp.woken]
  runQ := by rw [later.runQ]; simp [Vp.notified, Vp.woken]
  off u := by
    rw [later.off]
    by_cases h : u = t
    · subst h; simp [Vp.notified, Vp.woken, without.off]
    · simp [Vp.notified, Vp.woken, without.off, h]
  due := later.due.trans without.due
  rest := later.rest

def SleepQ.off (q : SleepQ) (t : Tid) : Option SleepQ := if q.onSleepq t then stDelSleepQ q t else some q

theorem offSleepq_off {vp vp' : Vp} {t : Tid} (run : vp.offSleepq t = some vp') : vp.sleepQ.off t = some vp'.sleepQ := by
  unfold SleepQ.off
  unfold Vp.offSleepq at run
  split at run
  · rename_i armed
    simp only [Vp.delSleepq, Option.bind_eq_bind, Option.bind_eq_some_iff, Option.some.injEq] at run
    obtain ⟨q, taken, rfl⟩ := run
    rw [if_pos armed, taken]
  · rename_i armed
    cases run
    rw [if_neg armed]

theorem dispatchLoop_cons (E : EventSys σ ω) {t : Tid} (q : List Tid) (evt : σ) {vp : Vp} {r : Option Tid}
    (inv : Inv vp r) (polls : vp.Polls t) :
    ∃ heap, vp.sleepQ.off t = some heap ∧ vp.sleepQ.Without t heap ∧
      dispatchLoop E (t :: q) evt vp =
        if (E.visit evt (vp.pollq t).pds).2.2 then
          dispatchLoop E q (E.withdraw (E.visit evt (vp.pollq t).pds).1 (E.visit evt (vp.pollq t).pds).2.1)
            (vp.notified t (E.visit evt (vp.pollq t).pds).2.1 heap)
        else dispatchLoop E q (E.stay (E.visit evt (vp.pollq t).pds).1 (E.visit evt (vp.pollq t).pds).2.1)
          (vp.looked t (E.visit evt (vp.pollq t).pds).2.1) := by
  obtain ⟨on, count⟩ := inv.linked_poll polls
  obtain ⟨noRun, noZombie⟩ := inv.offQueues (t := t) (by rw [polls.2]; rfl)
  have linked : t ∈ vp.ioQ := List.count_pos_iff.mp (by omega)
  set pds := (E.visit evt (vp.pollq t).pds).2.1 with hpds
  obtain ⟨heap, run, without⟩ := offSleepq_run
    (({ vp.looked t pds with ioQ := vp.ioQ.erase t } : Vp).setPollq t ⟨pds, false⟩) inv.heap t
  refine ⟨heap, offSleepq_off run, without, ?_⟩
  rw [dispatchLoop]
  simp only [← hpds]
  by_cases found : (E.visit evt (vp.pollq t).pds).2.2 = true
  · simp only [found, if_true]
    have unlink : (vp.setPollq t { vp.pollq t with pds := pds }).delIoq t =
        some { vp.looked t pds with ioQ := vp.ioQ.erase t } := by
      rw [Vp.delIoq, if_pos (by exact linked)]
      rfl
    have mark : ({ vp.looked t pds with ioQ := vp.ioQ.erase t } : Vp).setPollq t
        { ({ vp.looked t pds with ioQ := vp.ioQ.erase t } : Vp).pollq t with onIoq := false } =
        ({ vp.looked t pds with ioQ := vp.ioQ.erase t } : Vp).setPollq t ⟨pds, false⟩ := by
      simp [Vp.looked, Vp.setPollq]
    have made := makeRunnable_run
      { ({ vp.looked t pds with ioQ := vp.ioQ.erase t } : Vp).setPollq t ⟨pds, false⟩ with sleepQ := heap }
      (t := t) noRun noZombie
    rw [unlink]
    simp only [Option.bind_eq_bind, Option.bind_some]
    rw [mark, run, Option.bind_some, made, Option.bind_some]
    simp [Vp.notified, Vp.woken, Vp.looked, Vp.setPollq]
  · simp only [found]
    rfl

theorem dispatchLoop_run (E : EventSys σ ω) (q : List Tid) (evt : σ) {vp : Vp} {r : Option Tid} (inv : Inv vp r)
    (distinct : q.Nodup) (polls : ∀ t ∈ q, vp.Polls t) :
    ∃ evt' vp' ts, dispatchLoop E q evt vp = some (evt', vp') ∧ Inv vp' r ∧ Dispatched vp ts vp' ∧ ts ⊆ q := by
  induction q generalizing evt vp with
  | nil => exact ⟨evt, vp, [], rfl, inv, .none vp, by simp⟩
  | cons t q ih =>
    obtain ⟨first, distinct⟩ := List.nodup_cons.mp distinct
    have here := polls t (List.mem_cons_self ..)
    obtain ⟨heap, -, without, run⟩ := dispatchLoop_cons E q evt inv here
    rw [run]
    split
    · obtain ⟨evt', vp', ts, run', inv', done, part⟩ := ih _ (inv.notified here _ without) distinct (by
        intro u hu
        have other : u ≠ t := by rintro rfl; exact first hu
        simpa [Vp.Polls, Vp.notified, Vp.woken, other] using polls u (List.mem_cons_of_mem _ hu))
      refine ⟨evt', vp', t :: ts, run', inv', ?_, List.cons_subset_cons t part⟩
      exact .cons here without (fun h => first (part h)) done
    · obtain ⟨evt', vp', ts, run', inv', done, part⟩ := ih _ (inv.looked t _) distinct
        (fun u hu => polls u (List.mem_cons_of_mem _ hu))
      exact ⟨evt', vp', ts, run', inv', done.stays, fun u hu => List.mem_cons_of_mem t (part hu)⟩

theorem Inv.ioQ_nodup {vp : Vp} {r : Option Tid} (inv : Inv vp r) : vp.ioQ.Nodup := by
  rw [List.nodup_iff_count_le_one]
  exact fun t => (inv.views t).once.2.2.1

theorem Inv.ioQ_context {vp : Vp} {r : Option Tid} (inv : Inv vp r) {t : Tid} (linked : t ∈ vp.ioQ) :
    (vp.thr t).context = .poll ∧ (vp.pollq t).onIoq = true := by
  have count := (inv.views t).io
  have positive := List.count_pos_iff.mpr linked
  by_contra h
  simp [h] at count
  omega

theorem Inv.ioQ_iff {vp : Vp} {r : Option Tid} (inv : Inv vp r) {t : Tid} :
    t ∈ vp.ioQ ↔ (vp.thr t).context = .poll ∧ (vp.pollq t).onIoq = true := by
  refine ⟨inv.ioQ_context, fun linked => ?_⟩
  have count := (inv.views t).io
  simp only [Vp.view, linked, and_self, if_true] at count
  exact List.count_pos_iff.mp (by omega)

/-- While the idle thread runs on an empty run queue, every thread on io_q is in
IO_WAIT. -/
theorem Inv.ioQ_polls {vp : Vp} (inv : Inv vp (some vp.current)) (idle : (vp.thr vp.current).context = .idle)
    (empty : vp.runQ = []) {t : Tid} (linked : t ∈ vp.ioQ) : vp.Polls t := by
  obtain ⟨polling, -⟩ := inv.ioQ_context linked
  have run := (inv.views t).run
  have running := (inv.views t).running
  have fits := (inv.views t).fits
  have other : t ≠ vp.current := by rintro rfl; rw [idle] at polling; cases polling
  simp [Vp.view, empty, polling, Context.live] at run
  simp [Vp.view, polling, Context.live, Ne.symm other] at running
  refine ⟨polling, ?_⟩
  simpa [Vp.view, polling, Context.fits, run, running] using fits

theorem dispatch_run (E : EventSys σ ω) {evt : σ} {vp : Vp} (inv : Inv vp (some vp.current))
    (idle : (vp.thr vp.current).context = .idle) (empty : vp.runQ = [])
    (answers : (E.wait evt (minTimeout vp) (vp.ioQ.map fun t => (vp.pollq t).pds)).isSome = true) :
    ∃ evt' vp' ts, dispatch E evt vp = some (evt', vp') ∧ Inv vp' (some vp.current) ∧ Dispatched vp ts vp' := by
  obtain ⟨⟨evt₁, found⟩, answer⟩ := Option.isSome_iff_exists.mp answers
  simp only [dispatch, answer, Option.bind_eq_bind, Option.bind_some]
  split
  · obtain ⟨evt', vp', ts, run, inv', done, -⟩ := dispatchLoop_run E vp.ioQ evt₁ inv inv.ioQ_nodup
      fun t ht => inv.ioQ_polls idle empty ht
    exact ⟨E.finish evt', vp', ts, by rw [run]; rfl, inv', done⟩
  · exact ⟨evt₁, vp, [], rfl, inv, .none vp⟩

end StateThreads
