import StateThreads.Placement.Sync

/-! Waking threads: signals, the clock and the walk over io_q. -/
namespace StateThreads
open HeapTree PointerTree

/-- The threads ts, blocked before, are runnable, in this order at the end of the run
queue and off the heap; nothing else changed. -/
structure Roused (vp : Vp) (ts : List Tid) (flags : Tid → Flags) (vp' : Vp) : Prop where
  blocked : ∀ u ∈ ts, (vp.thr u).context.live = true ∧ (vp.thr u).state.blocked = true
  thr : ∀ u, vp'.thr u = if u ∈ ts then { vp.thr u with state := .runnable, flags := flags u } else vp.thr u
  runQ : vp'.runQ = vp.runQ ++ ts
  off : ∀ u, vp'.sleepQ.onSleepq u = (!ts.contains u && vp.sleepQ.onSleepq u)
  due : vp'.sleepQ.due = vp.sleepQ.due
  rest : vp' = { vp with thr := vp'.thr, runQ := vp'.runQ, sleepQ := vp'.sleepQ }

theorem Roused.current {vp vp' : Vp} {ts : List Tid} {flags : Tid → Flags} (roused : Roused vp ts flags vp') :
    vp'.current = vp.current := by
  have same := congrArg Vp.current roused.rest
  exact same

theorem Roused.context {vp vp' : Vp} {ts : List Tid} {flags : Tid → Flags} (roused : Roused vp ts flags vp')
    (u : Tid) : (vp'.thr u).context = (vp.thr u).context := by
  rw [roused.thr]
  split <;> rfl

theorem Roused.none (vp : Vp) (flags : Tid → Flags) : Roused vp [] flags vp := by
  constructor <;> simp

theorem Roused.cons {vp vp' : Vp} {t : Tid} {q : SleepQ} {ts : List Tid} {flags : Tid → Flags}
    (live : (vp.thr t).context.live = true) (blocked : (vp.thr t).state.blocked = true)
    (without : vp.sleepQ.Without t q) (fresh : t ∉ ts) {flags' : Tid → Flags} (agree : ∀ u ∈ ts, flags' u = flags u)
    (later : Roused (vp.woken t q (flags t)) ts flags' vp') : Roused vp (t :: ts) flags vp' where
  blocked u hu := by
    obtain rfl | later_on := List.mem_cons.mp hu
    · exact ⟨live, blocked⟩
    · have other : u ≠ t := by rintro rfl; exact fresh later_on
      simpa [Vp.woken, other] using later.blocked u later_on
  thr u := by
    rw [later.thr]
    by_cases h : u = t
    · subst h; simp [fresh, Vp.woken]
    · by_cases member : u ∈ ts
      · simp [h, Vp.woken, member, agree u member]
      · simp [h, Vp.woken, member]
  runQ := by rw [later.runQ]; simp [Vp.woken]
  off u := by
    rw [later.off]
    by_cases h : u = t
    · subst h; simp [Vp.woken, without.off]
    · simp [Vp.woken, without.off, h]
  due := later.due.trans without.due
  rest := later.rest

theorem Inv.rouse {vp : Vp} {r : Option Tid} (inv : Inv vp r) {t : Tid}
    (live : (vp.thr t).context.live = true) (blocked : (vp.thr t).state.blocked = true) :
    ∃ q, (vp.offSleepq t).bind (·.makeRunnable t) = some (vp.woken t q (vp.thr t).flags) ∧
      vp.sleepQ.Without t q ∧ Inv (vp.woken t q (vp.thr t).flags) r := by
  obtain ⟨noRun, noZombie⟩ := inv.offQueues blocked
  obtain ⟨q, run, without⟩ := offSleepq_run vp inv.heap t
  refine ⟨q, ?_, without, inv.woken live blocked without rfl fun h => ?_⟩
  · rw [run, Option.bind_some]
    exact makeRunnable_run { vp with sleepQ := q } noRun noZombie
  · exact ((inv.views t).timedout h).1

theorem Inv.waitQ_nodup {vp : Vp} {r : Option Tid} (inv : Inv vp r) (c : CondId) : (vp.cond c).waitQ.Nodup := by
  rw [List.nodup_iff_count_le_one]
  exact fun t => (inv.views t).once.2.2.2.1 c

theorem Inv.waitQ_context {vp : Vp} {r : Option Tid} (inv : Inv vp r) {c : CondId} {t : Tid}
    (waits : t ∈ (vp.cond c).waitQ) : ∃ join, (vp.thr t).context = .cond c join := by
  have count := (inv.views t).cond c
  have positive := List.count_pos_iff.mpr waits
  cases place : (vp.thr t).context with
  | cond d join =>
    simp only [Vp.view, place, Context.waitsCond, decide_eq_true_eq] at count
    by_cases h : d = c
    · exact ⟨join, by rw [h]⟩
    · rw [if_neg h] at count; omega
  | _ => simp [place, Context.waitsCond] at count; omega

def signalled (vp : Vp) (broadcast : Bool) (q : List Tid) : List Tid :=
  if broadcast then q.filter fun t => (vp.thr t).state = .condWait
  else (q.filter fun t => (vp.thr t).state = .condWait).take 1

theorem condSignalLoop_run (broadcast : Bool) (q : List Tid) {vp : Vp} {r : Option Tid} (inv : Inv vp r)
    (distinct : q.Nodup) (live : ∀ t ∈ q, (vp.thr t).context.live = true) :
    ∃ vp', condSignalLoop broadcast q vp = some vp' ∧ Inv vp' r ∧
      Roused vp (signalled vp broadcast q) (fun t => (vp.thr t).flags) vp' := by
  induction q generalizing vp with
  | nil =>
    refine ⟨vp, rfl, inv, ?_⟩
    have none : signalled vp broadcast [] = [] := by simp [signalled]
    rw [none]
    exact .none _ _
  | cons t q ih =>
    obtain ⟨first, distinct⟩ := List.nodup_cons.mp distinct
    unfold condSignalLoop
    by_cases waits : (vp.thr t).state = .condWait
    · rw [if_pos waits]
      have blocked : (vp.thr t).state.blocked = true := by rw [waits]; rfl
      have alive := live t (List.mem_cons_self ..)
      obtain ⟨p, run, without, kept⟩ := inv.rouse alive blocked
      have same : ∀ u ∈ q, (vp.woken t p (vp.thr t).flags).thr u = vp.thr u := by
        intro u hu
        have other : u ≠ t := by rintro rfl; exact first hu
        simp [Vp.woken, other]
      simp only [Option.bind_eq_bind, ← Option.bind_assoc, run, Option.bind_some]
      cases broadcast with
      | false =>
        refine ⟨_, rfl, kept, ?_⟩
        have only : signalled vp false (t :: q) = [t] := by simp [signalled, waits]
        rw [only]
        exact .cons alive blocked without List.not_mem_nil (fun _ _ => rfl) (.none _ _)
      | true =>
        obtain ⟨vp', run', inv', roused⟩ := ih kept distinct
          fun u hu => by rw [same u hu]; exact live u (List.mem_cons_of_mem _ hu)
        refine ⟨vp', run', inv', ?_⟩
        have rest : signalled vp true (t :: q) =
            t :: signalled (vp.woken t p (vp.thr t).flags) true q := by
          simp only [signalled, if_true, List.filter_cons, waits, decide_true]
          congr 1
          apply List.filter_congr
          intro u hu
          rw [same u hu]
        rw [rest]
        have outside : t ∉ signalled (vp.woken t p (vp.thr t).flags) true q := by
          simp only [signalled, if_true]
          exact fun h => first (List.mem_of_mem_filter h)
        refine .cons alive blocked without outside (fun u hu => ?_) roused
        simp only [signalled, if_true] at hu
        rw [same u (List.mem_of_mem_filter hu)]
    · rw [if_neg waits]
      obtain ⟨vp', run', inv', roused⟩ := ih inv distinct fun u hu => live u (List.mem_cons_of_mem _ hu)
      refine ⟨vp', run', inv', ?_⟩
      have same : signalled vp broadcast (t :: q) = signalled vp broadcast q := by
        simp [signalled, waits]
      rw [same]
      exact roused

theorem stCondSignal_run {vp : Vp} {r : Option Tid} (inv : Inv vp r) (cvar : CondId) (broadcast : Bool) :
    ∃ vp', stCondSignal vp cvar broadcast = some vp' ∧ Inv vp' r ∧
      Roused vp (signalled vp broadcast (vp.cond cvar).waitQ) (fun t => (vp.thr t).flags) vp' := by
  apply condSignalLoop_run _ _ inv (inv.waitQ_nodup cvar)
  intro t ht
  obtain ⟨join, place⟩ := inv.waitQ_context ht
  rw [place]
  rfl

theorem Inv.lockQ_context {vp : Vp} {r : Option Tid} (inv : Inv vp r) {m : MutexId} {t : Tid}
    (waits : t ∈ (vp.mutex m).waitQ) : (vp.thr t).context = .lock m := by
  have count := (inv.views t).lock m
  have positive := List.count_pos_iff.mpr waits
  cases place : (vp.thr t).context with
  | lock n =>
    simp only [Vp.view, place, Context.waitsLock, decide_eq_true_eq] at count
    by_cases h : n = m
    · rw [h]
    · rw [if_neg h] at count; omega
  | _ => simp [place, Context.waitsLock] at count; omega

theorem stMutexUnlock_run {vp : Vp} (inv : Inv vp (some vp.current)) {lock : MutexId} {thread : Tid}
    (owner : (vp.mutex lock).owner = some vp.current)
    (waiter : lockWaiter vp (vp.mutex lock).waitQ = some thread) :
    stMutexUnlock vp lock = some ((vp.setOwner lock (some thread)).woken thread vp.sleepQ (vp.thr thread).flags,
        some (.value 0)) ∧
      Inv ((vp.setOwner lock (some thread)).woken thread vp.sleepQ (vp.thr thread).flags) (some vp.current) := by
  have waits : (vp.thr thread).state = .lockWait := by
    simpa using List.find?_some waiter
  have place := inv.lockQ_context (List.mem_of_find?_eq_some waiter)
  have owned := inv.setOwner lock (some thread)
  have off : vp.sleepQ.onSleepq thread = false := by
    have timed := (inv.views thread).timed
    simpa [waits] using timed
  obtain ⟨noRun, noZombie⟩ := inv.offQueues (t := thread) (by rw [waits]; rfl)
  constructor
  · have run := makeRunnable_run (vp.setOwner lock (some thread)) noRun noZombie
    simp only [stMutexUnlock, owner, ne_eq, not_true_eq_false, if_false, waiter, run, Option.bind_eq_bind,
      Option.bind_some]
    rfl
  · apply owned.woken
    · exact (congrArg Context.live place).trans rfl
    · exact (congrArg ThreadState.blocked waits).trans rfl
    · exact inv.heap.without off
    · rfl
    · intro h
      have := ((inv.views thread).timedout h).2
      simp [waits, ThreadState.blocked] at this

theorem stThreadInterrupt_run {vp : Vp} {r : Option Tid} (inv : Inv vp r) {thread : Tid}
    (live : (vp.thr thread).context.live = true) (blocked : (vp.thr thread).state.blocked = true) :
    ∃ q, stThreadInterrupt vp thread = some (vp.woken thread q { (vp.thr thread).flags with interrupt := true }) ∧
      vp.sleepQ.Without thread q ∧
      Inv (vp.woken thread q { (vp.thr thread).flags with interrupt := true }) r := by
  obtain ⟨notRunnable, notRunning, notZombie⟩ := ThreadState.blocked_spec blocked
  obtain ⟨noRun, noZombie⟩ := inv.offQueues blocked
  obtain ⟨q, run, without⟩ := offSleepq_run (vp.setInterrupt thread true) inv.heap thread
  refine ⟨q, ?_, without, inv.woken live blocked without rfl fun h => ((inv.views thread).timedout h).1⟩
  have made := makeRunnable_run { vp.setInterrupt thread true with sleepQ := q } (t := thread) noRun noZombie
  simp only [stThreadInterrupt, notZombie, if_false, run, Option.bind_eq_bind, Option.bind_some, made]
  rw [if_neg]
  · simp [Vp.woken, Vp.setInterrupt, Vp.setThr]
  · simp [Vp.setInterrupt, Vp.setThr, notRunnable, notRunning]

/- The clock. -/

theorem SleepQ.Flagged.root {q : SleepQ} (ok : q.Flagged) {t : Tid} (top : q.link .root = some t) :
    q.onSleepq t = true := by
  obtain ⟨tr, rep, flag⟩ := ok
  rw [← flag]
  have held := rep.held
  cases tr with
  | nil => rw [Holds, top] at held; cases held
  | node a l r =>
    rw [Holds, top] at held
    cases Option.some.inj held.1
    simp [elems]

def Thread.expired (th : Thread) : Flags :=
  if th.state = .condWait then { th.flags with timedout := true } else th.flags

theorem SleepQ.Flagged.least {q : SleepQ} (ok : q.Flagged) {t u : Tid} (top : q.link .root = some t)
    (on : q.onSleepq u = true) : q.due t ≤ q.due u := by
  obtain ⟨tr, rep, flag⟩ := ok
  have member := (flag u).mpr on
  have held := rep.held
  have ordered := rep.ordered
  cases tr with
  | nil => simp at member
  | node a l r =>
    rw [Holds, top] at held
    cases Option.some.inj held.1
    obtain rfl | below := List.mem_cons.mp member
    · exact le_rfl
    · exact ordered.1 u below

theorem SleepQ.Flagged.rootless {q : SleepQ} (ok : q.Flagged) (top : q.link .root = none) (t : Tid) :
    q.onSleepq t = false := by
  obtain ⟨tr, rep, flag⟩ := ok
  have held := rep.held
  cases tr with
  | nil => simpa using (flag t).not.mp
  | node a l r =>
    rw [Holds, top] at held
    cases held.1

structure SleepQ.Expires (q : SleepQ) (now : UTime) (ts : List Tid) : Prop where
  exact : ∀ t, t ∈ ts ↔ q.onSleepq t = true ∧ q.due t ≤ now
  order : ts.Pairwise fun t u => q.due t ≤ q.due u

theorem SleepQ.Expires.none {q : SleepQ} {now : UTime} (early : ∀ t, q.onSleepq t = true → now < q.due t) :
    q.Expires now [] where
  exact t := by
    constructor
    · simp
    · rintro ⟨on, due⟩
      exact absurd due (not_le.mpr (early t on))
  order := List.Pairwise.nil

theorem SleepQ.Expires.cons {q q' : SleepQ} {now : UTime} {thread : Tid} {ts : List Tid} (flagged : q.Flagged)
    (top : q.link .root = some thread) (due : q.due thread ≤ now) (without : q.Without thread q')
    (later : q'.Expires now ts) : q.Expires now (thread :: ts) where
  exact t := by
    rw [List.mem_cons, later.exact, without.off, without.due]
    by_cases h : t = thread
    · subst h
      simp [flagged.root top, due]
    · simp [h]
  order := by
    refine List.pairwise_cons.mpr ⟨fun t member => ?_, by simpa only [without.due] using later.order⟩
    have on := ((later.exact t).mp member).1
    rw [without.off] at on
    by_cases h : t = thread
    · simp [h] at on
    · exact flagged.least top (by simpa [h] using on)

theorem Inv.armed {vp : Vp} {r : Option Tid} (inv : Inv vp r) {t : Tid} (on : vp.sleepQ.onSleepq t = true) :
    (vp.thr t).context.live = true ∧ (vp.thr t).state.blocked = true := by
  obtain ⟨live, waits⟩ := (inv.views t).timed on
  refine ⟨live, ?_⟩
  obtain h | h | h := waits <;> simp only [Vp.view] at h <;> rw [h] <;> rfl

theorem checkClockLoop_turn (now : UTime) (fuel : Nat) {vp : Vp} {r : Option Tid} (inv : Inv vp r) {thread : Tid}
    (top : vp.sleepQ.link .root = some thread) (due : vp.sleepQ.due thread ≤ now) :
    ∃ q, vp.sleepQ.Without thread q ∧ q.sleepqSize + 1 = vp.sleepQ.sleepqSize ∧
      Inv (vp.woken thread q (vp.thr thread).expired) r ∧
      checkClockLoop now (fuel + 1) vp = checkClockLoop now fuel (vp.woken thread q (vp.thr thread).expired) := by
  have on := inv.heap.root top
  obtain ⟨live, blocked⟩ := inv.armed on
  obtain ⟨noRun, noZombie⟩ := inv.offQueues blocked
  obtain ⟨q, run, flagged, off, kept, size⟩ := inv.heap.del on
  have without : vp.sleepQ.Without thread q := ⟨flagged, off, kept⟩
  have notIdle : (vp.thr thread).flags.idleThread = false := by
    obtain ⟨-, other⟩ := Context.fits_blocked live (inv.views thread).fits blocked
    have flag := (inv.views thread).flag
    simpa [show (vp.thr thread).context ≠ .idle from other] using flag
  refine ⟨q, without, size, ?_, ?_⟩
  · apply inv.woken live blocked without
    · unfold Thread.expired; split <;> rfl
    · unfold Thread.expired
      split
      · rename_i h
        intro _
        have fits := (inv.views thread).fits
        simp only [Vp.view, h] at fits
        cases place : (vp.thr thread).context <;> simp_all [Context.fits, Context.live, Context.inCond]
      · exact fun h => ((inv.views thread).timedout h).1
  · have taken : vp.delSleepq thread = some { vp with sleepQ := q } := by simp [Vp.delSleepq, run]
    rw [checkClockLoop]
    simp only [top, on, Bool.true_eq_false, if_false, not_lt.mpr due, taken, Option.bind_eq_bind, Option.bind_some]
    by_cases cond : (vp.thr thread).state = .condWait
    · have made := makeRunnable_run ({ vp with sleepQ := q }.setTimedout thread true) (t := thread) noRun noZombie
      have same : ({ vp with sleepQ := q }.setTimedout thread true).woken thread q
          (({ vp with sleepQ := q }.setTimedout thread true).thr thread).flags =
          vp.woken thread q (vp.thr thread).expired := by
        simp [Vp.woken, Vp.setTimedout, Vp.setThr, Thread.expired, cond]
      simp only [cond, if_true]
      rw [if_neg (by simp [Vp.setTimedout, Vp.setThr, notIdle]), made, Option.bind_some, ← same]
      rfl
    · have made := makeRunnable_run { vp with sleepQ := q } (t := thread) noRun noZombie
      have same : (vp.thr thread).expired = (vp.thr thread).flags := by simp [Thread.expired, cond]
      simp only [cond, if_false, notIdle, Bool.false_eq_true, made, Option.bind_some, same]
      rfl

theorem checkClockLoop_run (now : UTime) (fuel : Nat) {vp : Vp} {r : Option Tid} (inv : Inv vp r)
    (enough : vp.sleepQ.sleepqSize < fuel) :
    ∃ vp' ts, checkClockLoop now fuel vp = some vp' ∧ Inv vp' r ∧
      Roused vp ts (fun t => (vp.thr t).expired) vp' ∧ vp.sleepQ.Expires now ts := by
  induction fuel generalizing vp with
  | zero => omega
  | succ fuel ih =>
    cases top : vp.sleepQ.link .root with
    | none =>
      refine ⟨vp, [], by simp only [checkClockLoop, top], inv, .none _ _, .none fun t on => ?_⟩
      rw [inv.heap.rootless top t] at on
      cases on
    | some thread =>
      have on := inv.heap.root top
      by_cases early : now < vp.sleepQ.due thread
      · refine ⟨vp, [], by simp [checkClockLoop, top, on, early], inv, .none _ _, .none fun t armed => ?_⟩
        exact lt_of_lt_of_le early (inv.heap.least top armed)
      have due := not_lt.mp early
      obtain ⟨q, without, size, kept, next⟩ := checkClockLoop_turn now fuel inv top due
      obtain ⟨vp', ts, run, inv', roused, expires⟩ := ih kept (by simp only [Vp.woken]; omega)
      have outside : thread ∉ ts := by
        intro h
        have armed := ((expires.exact thread).mp h).1
        simp [Vp.woken, without.off] at armed
      obtain ⟨live, blocked⟩ := inv.armed on
      refine ⟨vp', thread :: ts, next.trans run, inv', ?_, .cons inv.heap top due without expires⟩
      refine .cons live blocked without outside (fun u hu => ?_) roused
      have other : u ≠ thread := by rintro rfl; exact outside hu
      simp [Vp.woken, other]

end StateThreads
