import StateThreads.Placement.Reachable

/-! The clock check of the idle thread: which threads it wakes, and in what order. -/
namespace StateThreads
open HeapTree LabelledRun

variable {σ ω : Type}

/-- The state in which a program calls _st_vp_check_clock: one that it reaches, or the one
that a dispatch of the idle thread leaves. -/
def ClockState (E : EventSys σ ω) (s : System σ) (vp : Vp) : Prop :=
  vp = s.vp ∨ (s.vp.thr s.vp.current).context = .idle ∧ ∃ evt, dispatch E s.evt s.vp = some (evt, vp)

/-- The threads ts have been woken by the clock at now. Nothing else happens to the threads
and the queues; the time kept for st_time is not looked at. -/
structure ClockChecked (vp : Vp) (now : UTime) (ts : List Tid) (vp' : Vp) : Prop where
  expired : ∀ t, t ∈ ts ↔ vp.sleepQ.onSleepq t = true ∧ vp.sleepQ.due t ≤ now
  once : ts.Nodup
  order : ts.Pairwise fun t u => vp.sleepQ.due t ≤ vp.sleepQ.due u
  runQ : vp'.runQ = vp.runQ ++ ts
  woken : ∀ t ∈ ts, vp'.sleepQ.onSleepq t = false ∧ vp'.thr t = { vp.thr t with
    state := .runnable, flags := { (vp.thr t).flags with timedout := (vp.thr t).state = .condWait } }
  others : ∀ t, t ∉ ts → vp'.thr t = vp.thr t ∧ vp'.sleepQ.onSleepq t = vp.sleepQ.onSleepq t
  due : vp'.sleepQ.due = vp.sleepQ.due
  heap : ∃ tr tr', vp.sleepQ.Represents tr ∧ vp'.sleepQ.Represents tr' ∧
    (elems tr').Perm ((elems tr).filter fun t => now < vp.sleepQ.due t) ∧
    ∀ t, t ∈ elems tr' ↔ vp'.sleepQ.onSleepq t = true
  rest : vp' = { vp with
    lastClock := now, currTime := vp'.currTime, lastTset := vp'.lastTset
    thr := vp'.thr, runQ := vp'.runQ, sleepQ := vp'.sleepQ }

/-- A thread with a timer has not timed out yet, so the clock sets the flag of those in
COND_WAIT and clears none. -/
theorem Inv.expired_flags {vp : Vp} {r : Option Tid} (inv : Inv vp r) {t : Tid} (on : vp.sleepQ.onSleepq t = true) :
    (vp.thr t).expired = { (vp.thr t).flags with timedout := (vp.thr t).state = .condWait } := by
  have clear : (vp.thr t).flags.timedout = false := by
    obtain ⟨-, blocked⟩ := inv.armed on
    by_contra set
    have awake := ((inv.views t).timedout (by simpa using set)).2
    simp only [Vp.view, blocked] at awake
    cases awake
  unfold Thread.expired
  split
  · rename_i waits
    simp [waits]
  · rename_i waits
    simp [waits, ← clear]

theorem Inv.runQ_nodup {vp : Vp} {r : Option Tid} (inv : Inv vp r) : vp.runQ.Nodup := by
  rw [List.nodup_iff_count_le_one]
  exact fun t => (inv.views t).once.1

theorem SleepQ.Expires.remain {q q' : SleepQ} {now : UTime} {ts : List Tid} (expires : q.Expires now ts)
    (flagged : q.Flagged) (flagged' : q'.Flagged) (off : ∀ t, q'.onSleepq t = (!ts.contains t && q.onSleepq t)) :
    ∃ tr tr', q.Represents tr ∧ q'.Represents tr' ∧ (elems tr').Perm ((elems tr).filter fun t => now < q.due t) ∧
      ∀ t, t ∈ elems tr' ↔ q'.onSleepq t = true := by
  obtain ⟨tr, rep, flag⟩ := flagged
  obtain ⟨tr', rep', flag'⟩ := flagged'
  refine ⟨tr, tr', rep, rep', ?_, flag'⟩
  refine (List.perm_ext_iff_of_nodup rep'.distinct (rep.distinct.filter _)).mpr fun t => ?_
  rw [flag', List.mem_filter, flag, off]
  simp only [Bool.and_eq_true, Bool.not_eq_true', List.contains_eq_mem, decide_eq_false_iff_not, decide_eq_true_eq,
    expires.exact, not_and, not_le]
  constructor
  · rintro ⟨late, on⟩
    exact ⟨on, late on⟩
  · rintro ⟨on, late⟩
    exact ⟨fun _ => late, on⟩

theorem stVpCheckClock_checked {vp : Vp} {r : Option Tid} (inv : Inv vp r) (now : UTime) (time : Nat) :
    ∃ vp' ts, stVpCheckClock vp now time = some vp' ∧ ClockChecked vp now ts vp' := by
  obtain ⟨vp', ts, lastTset, currTime, run, inv', roused, expires⟩ := stVpCheckClock_run inv now time
  have distinct : ts.Nodup := by
    have whole := inv'.runQ_nodup
    rw [roused.runQ] at whole
    exact (List.nodup_append.mp whole).2.1
  refine ⟨vp', ts, run, ?_⟩
  constructor
  case expired => exact expires.exact
  case once => exact distinct
  case order => exact expires.order
  case runQ => exact roused.runQ
  case woken =>
    intro t member
    have on := ((expires.exact t).mp member).1
    rw [roused.off, roused.thr, if_pos member, inv.expired_flags on]
    simp [member]
  case others =>
    intro t away
    rw [roused.off, roused.thr, if_neg away]
    simp [away]
  case due => exact roused.due
  case heap => exact expires.remain inv.heap inv'.heap roused.off
  case rest =>
    have tset := congrArg Vp.lastTset roused.rest
    have curr := congrArg Vp.currTime roused.rest
    dsimp only at tset curr
    rw [tset, curr]
    exact roused.rest

/-- At any reading of the clock the check ends. It wakes the threads whose timers have
expired, in the order of the timers, and no other. -/
theorem check_clock_exact (E : EventSys σ ω) (hist : List (SysEvent σ ω)) (s : System σ) (run : SysRun E hist s) (vp : Vp)
    (reached : ClockState E s vp) (now : UTime) (time : Nat) :
    ∃ vp' ts, stVpCheckClock vp now time = some vp' ∧ ClockChecked vp now ts vp' := by
  have settled := run.settled
  obtain rfl | ⟨idle, evt, dispatched⟩ := reached
  · exact stVpCheckClock_checked settled.inv now time
  · have answers : (E.wait s.evt (minTimeout s.vp) (s.vp.ioQ.map fun t => (s.vp.pollq t).pds)).isSome = true := by
      simp only [dispatch, Option.bind_eq_bind, Option.bind_eq_some_iff] at dispatched
      obtain ⟨answer, waited, -⟩ := dispatched
      rw [waited]
      rfl
    obtain ⟨evt', vp₁, -, run₁, inv, -⟩ := dispatch_run E settled.inv idle (settled.empty idle) answers
    obtain ⟨-, rfl⟩ := Prod.mk.inj (Option.some.inj (dispatched.symm.trans run₁))
    exact stVpCheckClock_checked inv now time

/-- Threads 2, 3 and 4 wait with time limits that end in the order 4, 3, 2. At 950 those of
3 and 4 are over; only 3 waits on a condition variable. -/
theorem check_clock_exact_two_of_three :
    ∃ hist s vp' ts, SysRun (Poll.eventSys Poll.silent) hist s ∧
      (ts = [4, 3] ∧ (vp'.thr 3).flags.timedout = true ∧ (vp'.thr 4).flags.timedout = false) ∧
      stVpCheckClock s.vp 950 0 = some vp' ∧ ClockChecked s.vp 950 ts vp' := by
  obtain ⟨hist, s, run, seen⟩ := Run.found (M := machine (Poll.eventSys Poll.silent))
    [.call (.condNew (some 0)), .call (.threadCreate (some 2) false none), .call (.threadCreate (some 3) false none),
      .call (.threadCreate (some 4) false none), .call (.usleep 9000), .resume, .call (.poll [⟨5, pollIn, 0⟩] 990), .resume,
      .call (.condTimedwait 0 940), .resume, .call (.usleep 930)]
    Poll.started_ok
    (p := fun _ s => decide ((stVpCheckClock s.vp 950 0).any fun vp =>
      vp.runQ = [4, 3] && (vp.thr 3).flags.timedout && !(vp.thr 4).flags.timedout && s.vp.runQ = []))
    (by decide +kernel)
  obtain ⟨vp', ts, checked, done⟩ := check_clock_exact _ hist s run s.vp (.inl rfl) 950 0
  rw [checked] at seen
  simp only [Option.any_some, decide_eq_true_eq, Bool.and_eq_true, Bool.not_eq_true'] at seen
  obtain ⟨⟨⟨queue, third⟩, fourth⟩, empty⟩ := seen
  have woken := done.runQ
  rw [queue, empty] at woken
  exact ⟨hist, s, vp', ts, run, ⟨woken.symm, third, fourth⟩, checked, done⟩

end StateThreads
