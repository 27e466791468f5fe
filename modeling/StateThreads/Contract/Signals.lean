import StateThreads.Contract.Cond

/-! Whom a signal reaches. wait_q also links threads that were woken and have not run
yet; the threads still in COND_WAIT are a part of it, in the order they came. -/
namespace StateThreads
open LabelledRun
open scoped List

variable {σ ω : Type}

def condQueue (vp : Vp) (c : CondId) : List Tid :=
  (vp.cond c).waitQ.filter fun t => (vp.thr t).state = .condWait

def condWaited (hist : List (SysEvent σ ω)) (t : Tid) : Nat :=
  lasting (fun s => decide ((s.vp.thr t).state = .condWait)) hist

def stCondSignals (c : CondId) : Nat → Vp → Option Vp
  | 0, vp => some vp
  | j + 1, vp => do
    let vp ← stCondSignal vp c false
    stCondSignals c j vp

/-- The threads ts were in COND_WAIT and nothing had ended their waits; each has been made
runnable once, in this order, and is off the heap. Nothing else changed: the other threads
keep their state and flags, and those in the heap stay there with their due time. -/
structure Awoken (vp : Vp) (ts : List Tid) (vp' : Vp) : Prop where
  once : ts.Nodup
  waited : ∀ t ∈ ts, (vp.thr t).state = .condWait ∧ (vp.thr t).flags.interrupt = false ∧
    (vp.thr t).flags.timedout = false
  woken : ∀ t ∈ ts, vp'.thr t = { vp.thr t with state := .runnable } ∧ vp'.sleepQ.onSleepq t = false
  runQ : vp'.runQ = vp.runQ ++ ts
  others : ∀ t, t ∉ ts → vp'.thr t = vp.thr t ∧ vp'.sleepQ.onSleepq t = vp.sleepQ.onSleepq t
  due : vp'.sleepQ.due = vp.sleepQ.due
  heap : vp'.sleepQ.Flagged
  rest : vp' = { vp with thr := vp'.thr, runQ := vp'.runQ, sleepQ := vp'.sleepQ }

variable {E : EventSys σ ω} {hist : List (SysEvent σ ω)} {s : System σ} {e : SysEvent σ ω} {c : CondId} {t : Tid}

theorem mem_condQueue {vp : Vp} : t ∈ condQueue vp c ↔ vp.CondWaits c t := by
  simp [condQueue, Vp.CondWaits]

/- Signals. -/

theorem Awoken.none {vp : Vp} {r : Option Tid} (inv : Inv vp r) : Awoken vp [] vp := by
  constructor <;> simp [inv.heap]

theorem Roused.awoken {vp vp' : Vp} {r : Option Tid} (inv : Inv vp r) (inv' : Inv vp' r) {ts : List Tid}
    (fewer : ts <+ condQueue vp c) (roused : Roused vp ts (fun t => (vp.thr t).flags) vp') : Awoken vp ts vp' where
  once := ((inv.waitQ_nodup c).filter _).sublist fewer
  waited t member := by
    obtain ⟨queued, state⟩ := mem_condQueue.mp (fewer.subset member)
    obtain ⟨join, place⟩ := inv.waitQ_context queued
    exact ⟨state, inv.waiter_flags (by rw [place]; rfl) (by rw [state]; rfl)⟩
  woken t member := by simp [roused.thr, roused.off, member]
  runQ := roused.runQ
  others t missed := by simp [roused.thr, roused.off, missed]
  due := roused.due
  heap := inv'.heap
  rest := roused.rest

theorem Awoken.append {vp mid vp' : Vp} {ts us : List Tid} (first : Awoken vp ts mid)
    (second : Awoken mid us vp') : Awoken vp (ts ++ us) vp' := by
  -- a thread woken by the first signals is no longer in COND_WAIT
  have apart : ∀ t ∈ ts, t ∉ us := by
    intro t member again
    have state := (second.waited t again).1
    rw [(first.woken t member).1] at state
    cases state
  have old : ∀ t ∈ us, mid.thr t = vp.thr t ∧ mid.sleepQ.onSleepq t = vp.sleepQ.onSleepq t := fun t member =>
    first.others t fun h => apart t h member
  constructor
  case once => exact List.nodup_append'.mpr ⟨first.once, second.once, apart⟩
  case waited =>
    intro t member
    obtain early | late := List.mem_append.mp member
    · exact first.waited t early
    · rw [← (old t late).1]
      exact second.waited t late
  case woken =>
    intro t member
    obtain early | late := List.mem_append.mp member
    · obtain ⟨thr, off⟩ := second.others t (apart t early)
      rw [thr, off]
      exact first.woken t early
    · rw [← (old t late).1]
      exact second.woken t late
  case runQ => rw [second.runQ, first.runQ, List.append_assoc]
  case others =>
    intro t missed
    obtain ⟨early, late⟩ := not_or.mp (mt List.mem_append.mpr missed)
    obtain ⟨thr, off⟩ := second.others t late
    rw [thr, off]
    exact first.others t early
  case due => exact second.due.trans first.due
  case heap => exact second.heap
  case rest =>
    rw [second.rest, first.rest]

theorem Awoken.condQueue {vp vp' : Vp} {ts : List Tid} (awoken : Awoken vp ts vp') (c : CondId) :
    condQueue vp' c = (condQueue vp c).filter (· ∉ ts) := by
  have same : vp'.cond = vp.cond := by rw [awoken.rest]
  unfold StateThreads.condQueue
  rw [same, List.filter_filter]
  apply List.filter_congr
  intro t _
  by_cases member : t ∈ ts
  · simp [member, (awoken.woken t member).1]
  · simp [member, (awoken.others t member).1]

theorem filter_not_mem_take {l : List Tid} (distinct : l.Nodup) (n : Nat) :
    l.filter (· ∉ l.take n) = l.drop n := by
  have split := List.take_append_drop n l
  have apart := List.disjoint_take_drop distinct (Nat.le_refl n)
  conv_lhs => rw [← split, List.filter_append]
  rw [split]
  have front : (l.take n).filter (· ∉ l.take n) = [] := by simp
  have back : (l.drop n).filter (· ∉ l.take n) = l.drop n := by
    rw [List.filter_eq_self]
    intro t member
    simpa using fun h => apart h member
  rw [front, back, List.nil_append]

theorem stCondSignals_run {vp : Vp} {r : Option Tid} (inv : Inv vp r) (c : CondId) (j : Nat) :
    ∃ vp', stCondSignals c j vp = some vp' ∧ Awoken vp ((condQueue vp c).take j) vp' := by
  induction j generalizing vp with
  | zero => exact ⟨vp, rfl, by simpa using Awoken.none inv⟩
  | succ j ih =>
    obtain ⟨mid, run, inv', roused⟩ := stCondSignal_run inv c false
    have first : Awoken vp ((condQueue vp c).take 1) mid :=
      roused.awoken (c := c) inv inv' (List.take_sublist ..)
    obtain ⟨vp', runs, later⟩ := ih inv'
    refine ⟨vp', by simp [stCondSignals, run, runs], ?_⟩
    have rest : condQueue mid c = (condQueue vp c).drop 1 := by
      rw [first.condQueue]
      exact filter_not_mem_take ((inv.waitQ_nodup c).filter _) 1
    rw [rest] at later
    rw [Nat.add_comm, List.take_add]
    exact first.append later

theorem stCondBroadcast_run {vp : Vp} {r : Option Tid} (inv : Inv vp r) (c : CondId) :
    ∃ vp', stCondSignal vp c true = some vp' ∧ Awoken vp (condQueue vp c) vp' := by
  obtain ⟨vp', run, inv', roused⟩ := stCondSignal_run inv c true
  exact ⟨vp', run, roused.awoken (c := c) inv inv' (List.Sublist.refl _)⟩

/- The order of the waiters. -/

theorem Stepped.condWaits (stepped : Stepped e) (other : t ≠ e.actor) (state : (e.post.vp.thr t).state = .condWait) :
    (e.pre.vp.thr t).state = .condWait := by
  obtain ⟨th, touched, picked⟩ := stepped.other t other
  have waits := (picked.state (by decide)).mp state
  cases touched with
  | same => exact waits
  | flagged => exact waits
  | woken | reaped | created => cases waits

theorem Stepped.condJoins (stepped : Stepped e) (queued : e.actor ∈ (e.post.vp.cond c).waitQ)
    (state : (e.post.vp.thr e.actor).state = .condWait) :
    (e.post.vp.cond c).waitQ = (e.pre.vp.cond c).waitQ.erase e.actor ++ [e.actor] := by
  obtain ⟨join, place⟩ := stepped.post.inv.waitQ_context queued
  obtain ⟨th, acted, picked⟩ := stepped.self
  obtain ⟨vp', switch, post, move, -⟩ := stepped.move
  have running : (e.pre.vp.thr e.actor).state = .running := stepped.pre.inv.running.2
  have waits := (picked.state (by decide)).mp state
  rw [picked.context] at place
  rw [post, Vp.after_cond]
  have alone : ∀ op, e.label = .call op → e.actor ∉ (e.pre.vp.cond c).waitQ := by
    intro op cause linked
    obtain ⟨join, there⟩ := stepped.pre.inv.waitQ_context linked
    rw [stepped.user op cause] at there
    cases there
  unfold SysEvent.actor at *
  generalize e.label = l at acted move alone
  generalize e.out = out at acted move
  cases acted with
  | parked where_ flag result =>
    subst result waits place
    cases where_ with
    | cond => cases move with | waits => simp [Vp.waiting, Vp.setCond, List.erase_of_not_mem (alone _ rfl)]
    | join joinable =>
      cases move with
      | joinWaits _ joinable' =>
        rw [joinable] at joinable'
        cases joinable'
        simp [Vp.waiting, Vp.setCond, List.erase_of_not_mem (alone _ rfl)]
  | rejoined cause there signalled alive result =>
    subst cause result
    cases place
    cases move with
    | joinAgain there' =>
      rw [there] at there'
      cases there'
      simp [Vp.waiting, Vp.back, Vp.unlinkCond, Vp.setCond, Vp.setThr, Vp.parked]
    | _ => simp_all
  | died | idled => cases waits
  | _ => simp [running] at waits

theorem Stepped.condQueue_sublist (stepped : Stepped e) {q : List Tid} (fewer : q <+ (e.pre.vp.cond c).waitQ) :
    (q.filter (· ≠ e.actor)).filter (fun t => (e.post.vp.thr t).state = .condWait) <+ condQueue e.pre.vp c := by
  rw [List.filter_filter]
  refine List.Sublist.trans ?_ (fewer.filter _)
  apply List.monotone_filter_right
  intro t h
  simp only [Bool.and_eq_true, decide_eq_true_eq] at h ⊢
  exact stepped.condWaits h.2 h.1

theorem Stepped.condQueue (stepped : Stepped e) (c : CondId) :
    condQueue e.post.vp c <+ condQueue e.pre.vp c ∨
      ∃ q, q <+ condQueue e.pre.vp c ∧ condQueue e.post.vp c = q ++ [e.actor] := by
  have others : ∀ q, q <+ (e.pre.vp.cond c).waitQ → e.actor ∉ q →
      q.filter (fun t => (e.post.vp.thr t).state = .condWait) <+ StateThreads.condQueue e.pre.vp c := by
    intro q fewer outside
    have same : q.filter (· ≠ e.actor) = q := by
      rw [List.filter_eq_self]
      intro t member
      have : t ≠ e.actor := by rintro rfl; exact outside member
      simpa using this
    rw [← same]
    exact stepped.condQueue_sublist fewer
  have gone : e.actor ∉ (e.pre.vp.cond c).waitQ.erase e.actor := (stepped.pre.inv.waitQ_nodup c).not_mem_erase
  by_cases joins : e.actor ∈ StateThreads.condQueue e.post.vp c
  · obtain ⟨queued, state⟩ := mem_condQueue.mp joins
    refine .inr ⟨_, others _ List.erase_sublist gone, ?_⟩
    rw [StateThreads.condQueue, stepped.condJoins queued state, List.filter_append]
    simp [state]
  · left
    have fewer : (e.post.vp.cond c).waitQ.filter (· ≠ e.actor) <+ (e.pre.vp.cond c).waitQ := by
      have touched := stepped.cond c
      generalize e.post.vp.cond c = cv at touched
      cases touched with
      | same | destroyed => exact List.filter_sublist
      | created => exact List.nil_sublist _
      | left => exact List.filter_sublist.trans List.erase_sublist
      | waited | joining => simp [SysEvent.actor, List.filter_append]
      | rejoined =>
        rw [List.filter_append]
        simpa [SysEvent.actor] using List.filter_sublist.trans List.erase_sublist
    have rest := stepped.condQueue_sublist fewer
    rw [List.filter_filter, List.filter_filter] at rest
    refine List.Sublist.trans (Eq.subst ?_ (List.Sublist.refl _)) rest
    apply List.filter_congr
    intro t queued
    by_cases h : t = e.actor
    · subst h
      have awake : ¬ (e.post.vp.thr e.actor).state = .condWait := fun state => joins (mem_condQueue.mpr ⟨queued, state⟩)
      simp [awake]
    · simp [h]

theorem SysRun.condOrder (run : SysRun E hist s) (c : CondId) :
    (condQueue s.vp c).Pairwise fun t u => condWaited hist u < condWaited hist t := by
  refine Run.fifo (fun s => condQueue s.vp c) (fun t s => decide ((s.vp.thr t).state = .condWait)) ?_ ?_ ?_ run
  · intro s started
    refine ⟨by simp [condQueue, started.blank.cond], fun t => ?_⟩
    have state := started.blank.state t
    cases h : (s.vp.thr t).state <;> simp_all [ThreadState.blocked]
  · intro s t queued
    simpa using (mem_condQueue.mp queued).2
  · intro hist e before fired
    have stepped := SysRun.stepped before fired
    obtain fewer | ⟨q, fewer, joined⟩ := stepped.condQueue c
    · exact .inl fewer
    · have running : (e.pre.vp.thr (SysEvent.actor e)).state = .running := stepped.pre.inv.running.2
      exact .inr ⟨q, SysEvent.actor e, fewer, joined, by simp [running]⟩

/-- Whom signals on c reach at the end of a run: a row of signals the longest waiting of
those still in COND_WAIT, a broadcast all of them. The variable is only destroyed when no
thread is linked on it, not even one that was woken and has not run. -/
structure SignalTargets (hist : List (SysEvent σ ω)) (vp : Vp) (c : CondId) : Prop where
  order : (condQueue vp c).Pairwise fun t u => condWaited hist u < condWaited hist t
  signals : ∀ j, ∃ vp', stCondSignals c j vp = some vp' ∧ Awoken vp ((condQueue vp c).take j) vp'
  broadcast : ∃ vp', stCondSignal vp c true = some vp' ∧ Awoken vp (condQueue vp c) vp'
  destroy : (stCondDestroy vp c).2 = .value 0 → ∀ t join, t ∉ (vp.cond c).waitQ ∧ (vp.thr t).context ≠ .cond c join

theorem cond_signal_targets (E : EventSys σ ω) (hist : List (SysEvent σ ω)) (s : System σ) (run : SysRun E hist s)
    (c : CondId) : SignalTargets hist s.vp c where
  order := run.condOrder c
  signals := stCondSignals_run run.settled.inv c
  broadcast := stCondBroadcast_run run.settled.inv c
  destroy destroyed t join := by
    have empty : (s.vp.cond c).waitQ = [] := by
      by_contra linked
      simp [stCondDestroy, linked] at destroyed
    refine ⟨by simp [empty], fun place => ?_⟩
    have linked := run.settled.inv.cond_mem place
    simp [empty] at linked

/-- Threads 2, 3 and 4 wait, and thread 2 was interrupted but has not run: it is still
linked, and no signal is spent on it. -/
theorem cond_signal_targets_interrupted :
    ∃ hist s, SysRun (Poll.eventSys Poll.silent) hist s ∧
      ((s.vp.cond 0).waitQ = [2, 3, 4] ∧ condQueue s.vp 0 = [3, 4] ∧ s.vp.sleepQ.onSleepq 3 = true) ∧
      SignalTargets hist s.vp 0 := by
  obtain ⟨hist, s, run, seen⟩ := Run.found (M := machine (Poll.eventSys Poll.silent))
    [.call (.condNew (some 0)), .call (.threadCreate (some 2) false none),
      .call (.threadCreate (some 3) false none), .call (.threadCreate (some 4) false none), .call (.usleep 5),
      .resume, .call (.condTimedwait 0 500), .resume, .call (.condTimedwait 0 600), .resume,
      .call (.condTimedwait 0 700), .idle 100 0, .resume, .call (.threadInterrupt 2)]
    Poll.started_ok
    (p := fun _ s => decide ((s.vp.cond 0).waitQ = [2, 3, 4] ∧ condQueue s.vp 0 = [3, 4] ∧
      s.vp.sleepQ.onSleepq 3 = true))
    (by decide +kernel)
  exact ⟨hist, s, run, of_decide_eq_true seen, cond_signal_targets _ hist s run 0⟩

/-- Thread 2 waits with a timer due first, thread 3 sleeps and thread 1 has slept until
now. The signal takes thread 2 off the heap, and thread 3 moves up to its place. -/
theorem cond_signal_moves_heap_position :
    ¬ ∀ hist s, SysRun (Poll.eventSys Poll.silent) hist s → ∀ c vp', stCondSignal s.vp c false = some vp' →
      ∀ t, t ∉ (condQueue s.vp c).take 1 → vp'.sleepQ.heapIndex t = s.vp.sleepQ.heapIndex t := by
  intro same
  obtain ⟨hist, s, run, seen⟩ := Run.found (M := machine (Poll.eventSys Poll.silent))
    [.call (.condNew (some 0)), .call (.threadCreate (some 2) false none),
      .call (.threadCreate (some 3) false none), .call (.usleep 5), .resume, .call (.condTimedwait 0 500), .resume,
      .call (.usleep 900), .idle 100 0, .resume]
    Poll.started_ok
    (p := fun _ s => (stCondSignal s.vp 0 false).any fun vp' : Vp =>
      decide (condQueue s.vp 0 = [2] ∧ s.vp.sleepQ.onSleepq 3 = true ∧ s.vp.sleepQ.heapIndex 3 = 2 ∧
        vp'.sleepQ.heapIndex 3 = 1))
    (by decide +kernel)
  obtain ⟨vp', signal, moved⟩ := (Option.any_eq_true _ _).mp seen
  obtain ⟨queue, -, before, after⟩ := of_decide_eq_true moved
  have kept := same hist s run 0 vp' signal 3 (by simp [queue])
  rw [before, after] at kept
  cases kept

end StateThreads
