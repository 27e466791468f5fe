import StateThreads.Contract.Results

/-! Timers over whole runs: which call set a timer, to what time, and when it expires. -/
namespace StateThreads
open LabelledRun

variable {σ ω : Type}

/-- The timeout a call is given; only these calls set a timer. -/
def Op.timeout : Op → Option UTime
  | .usleep usecs => some usecs
  | .condTimedwait _ timeout | .poll _ timeout => some timeout
  | _ => none

/-- The timer of t is set to timeout microseconds after lastClock, unless there is no
timeout. -/
def SleepQ.Timed (q : SleepQ) (t : Tid) (lastClock timeout : UTime) (q' : SleepQ) : Prop :=
  if timeout = utimeNoTimeout then q' = q
  else q'.onSleepq = Function.update q.onSleepq t true ∧ q'.due = Function.update q.due t (lastClock + timeout)

structure SleepQ.Fewer (q q' : SleepQ) : Prop where
  on : ∀ t, q'.onSleepq t = true → q.onSleepq t = true
  due : q'.due = q.due

structure TimerSet (hist : List (SysEvent σ ω)) (vp : Vp) (t : Tid) (b : SysEvent σ ω) (timeout : UTime) : Prop where
  last : lastCall hist t = some b
  call : ∃ op, b.label = .call op ∧ op.timeout = some timeout
  finite : timeout ≠ utimeNoTimeout
  due : vp.sleepQ.due t = b.pre.vp.lastClock + timeout

variable {E : EventSys σ ω} {hist older : List (SysEvent σ ω)} {s : System σ} {e : SysEvent σ ω} {t : Tid}

theorem SleepQ.Fewer.refl (q : SleepQ) : q.Fewer q := ⟨fun _ h => h, rfl⟩

theorem SleepQ.Fewer.trans {q₁ q₂ q₃ : SleepQ} (first : q₁.Fewer q₂) (second : q₂.Fewer q₃) : q₁.Fewer q₃ :=
  ⟨fun t on => first.on t (second.on t on), second.due.trans first.due⟩

theorem Roused.fewer {vp vp' : Vp} {ts : List Tid} {flags : Tid → Flags} (roused : Roused vp ts flags vp') :
    vp.sleepQ.Fewer vp'.sleepQ where
  on t on := by
    rw [roused.off, Bool.and_eq_true] at on
    exact on.2
  due := roused.due

theorem Dispatched.fewer {vp vp' : Vp} {ts : List Tid} (dispatched : Dispatched vp ts vp') :
    vp.sleepQ.Fewer vp'.sleepQ where
  on t on := by
    rw [dispatched.off, Bool.and_eq_true] at on
    exact on.2
  due := dispatched.due

theorem SleepQ.Without.fewer {q q' : SleepQ} (without : q.Without t q') : q.Fewer q' where
  on u on := by
    rw [without.off] at on
    by_cases h : u = t
    · simp [h] at on
    · simpa [h] using on
  due := without.due

theorem Vp.after_sleepQ (vp : Vp) (switch : Bool) : (vp.after switch).sleepQ = vp.sleepQ := by
  cases switch <;> rfl

theorem switchContext_sleepQ {vp vp' : Vp} {context : Context} {out : Option Ret}
    (run : switchContext vp context = some (vp', out)) : vp'.sleepQ = vp.sleepQ := by
  simp only [switchContext, stVpSchedule, Option.bind_eq_bind, Option.bind_eq_some_iff, Option.some.injEq] at run
  obtain ⟨vp₁, chosen, same⟩ := run
  obtain ⟨rfl, -⟩ := Prod.mk.inj same
  split at chosen
  · cases chosen
    rfl
  · cases chosen

theorem armSleepq_timed {vp vp' : Vp} (heap : vp.sleepQ.Flagged) (off : vp.sleepQ.onSleepq t = false) {timeout : UTime}
    (run : vp.armSleepq t timeout = some vp') : vp.sleepQ.Timed t vp.lastClock timeout vp'.sleepQ := by
  unfold Vp.armSleepq at run
  unfold SleepQ.Timed
  by_cases none : timeout = utimeNoTimeout
  · simp only [none, ne_eq, not_true_eq_false, if_false, Option.some.injEq] at run
    rw [if_pos none, run]
  · obtain ⟨q, added, -, on, due⟩ := heap.add off vp.lastClock timeout
    simp only [none, ne_eq, not_false_eq_true, if_true, Vp.addSleepq, added, Option.bind_eq_bind, Option.bind_some,
      Option.some.injEq] at run
    rw [if_neg none, ← run]
    exact ⟨on, due⟩

/- The calls that set timers. -/

section
variable {vp vp' : Vp} {out : Option Ret} (heap : vp.sleepQ.Flagged) (off : vp.sleepQ.onSleepq vp.current = false)
include heap off

theorem stUsleep_timed {usecs : UTime} (run : stUsleep vp usecs = some (vp', out)) :
    vp'.sleepQ = vp.sleepQ ∨ vp.sleepQ.Timed vp.current vp.lastClock usecs vp'.sleepQ := by
  unfold stUsleep at run
  by_cases flag : (vp.thr vp.current).flags.interrupt = true
  · simp only [flag, if_true, Vp.eintr, Option.some.injEq, Prod.mk.injEq] at run
    rw [← run.1]
    exact .inl rfl
  · right
    by_cases none : usecs = utimeNoTimeout
    · simp only [flag, none, ne_eq, not_true_eq_false, Bool.false_eq_true, if_false, Option.bind_eq_bind,
        Option.bind_some] at run
      rw [switchContext_sleepQ run, SleepQ.Timed, if_pos none]
      rfl
    · simp only [flag, none, ne_eq, not_false_eq_true, Bool.false_eq_true, if_false, if_true, Option.bind_eq_bind,
        Option.bind_eq_some_iff] at run
      obtain ⟨vp₁, armed, run⟩ := run
      rw [switchContext_sleepQ run]
      have same : (vp.setState vp.current .sleeping).armSleepq vp.current usecs = some vp₁ := by
        simpa [Vp.armSleepq, none] using armed
      have heap' : (vp.setState vp.current .sleeping).sleepQ.Flagged := heap
      exact armSleepq_timed heap' off same

theorem stCondTimedwait_timed {cvar : CondId} {timeout : UTime} {join : Option Tid}
    (run : stCondTimedwait vp cvar timeout join = some (vp', out)) :
    vp'.sleepQ = vp.sleepQ ∨ vp.sleepQ.Timed vp.current vp.lastClock timeout vp'.sleepQ := by
  unfold stCondTimedwait at run
  by_cases flag : (vp.thr vp.current).flags.interrupt = true
  · simp only [flag, if_true, Vp.eintr, Option.some.injEq, Prod.mk.injEq] at run
    rw [← run.1]
    exact .inl rfl
  · right
    simp only [flag, Bool.false_eq_true, if_false, Option.bind_eq_bind, Option.bind_eq_some_iff] at run
    obtain ⟨vp₁, linked, vp₂, armed, run⟩ := run
    rw [switchContext_sleepQ run]
    have same : vp₁.sleepQ = vp.sleepQ ∧ vp₁.lastClock = vp.lastClock := by
      unfold Vp.appendCondLink at linked
      split at linked
      · cases linked
      · cases linked
        exact ⟨rfl, rfl⟩
    rw [← same.1] at heap off
    rw [← same.1, ← same.2]
    exact armSleepq_timed heap off armed

theorem stPoll_timed {evt : σ} {s' : System σ} {pds : List PollFd} {timeout : UTime}
    (run : stPoll E ⟨vp, evt⟩ pds timeout = some (s', out)) :
    s'.vp.sleepQ = vp.sleepQ ∨ vp.sleepQ.Timed vp.current vp.lastClock timeout s'.vp.sleepQ := by
  unfold stPoll at run
  by_cases flag : (vp.thr vp.current).flags.interrupt = true
  · simp only [flag, if_true, Vp.eintr, Option.map_some, Option.some.injEq, Prod.mk.injEq] at run
    rw [← run.1]
    exact .inl rfl
  · simp only [flag, Bool.false_eq_true, if_false, Option.bind_eq_bind, Option.bind_eq_some_iff] at run
    obtain ⟨⟨evt', err⟩, -, run⟩ := run
    cases err with
    | some error =>
      simp only [Option.some.injEq, Prod.mk.injEq] at run
      rw [← run.1]
      exact .inl rfl
    | none =>
      right
      simp only [Option.bind_eq_some_iff] at run
      obtain ⟨vp₁, queued, vp₂, armed, ⟨vp₃, out'⟩, switched, run⟩ := run
      simp only [Option.some.injEq, Prod.mk.injEq] at run
      rw [← run.1]
      have same : vp₁.sleepQ = vp.sleepQ ∧ vp₁.lastClock = vp.lastClock := by
        unfold Vp.addIoq at queued
        split at queued
        · cases queued
        · cases queued
          exact ⟨rfl, rfl⟩
      show vp.sleepQ.Timed vp.current vp.lastClock timeout vp₃.sleepQ
      rw [switchContext_sleepQ switched]
      rw [← same.1] at heap off
      rw [← same.1, ← same.2]
      show vp₁.sleepQ.Timed vp.current vp₁.lastClock timeout vp₂.sleepQ
      exact armSleepq_timed heap off armed

theorem joinLoop_timed {thread : Tid} {term : CondId} (run : joinLoop vp thread term = some (vp', out)) :
    vp'.sleepQ = vp.sleepQ := by
  unfold joinLoop at run
  split at run
  · obtain same | timed := stCondTimedwait_timed heap off run
    · exact same
    · simpa [SleepQ.Timed] using timed
  · simp only [Vp.delZombieq, Vp.addRunq, Option.bind_eq_bind, Option.bind_eq_some_iff] at run
    obtain ⟨vp₁, left, vp₂, queued, run⟩ := run
    split at left
    · cases left
      split at queued
      · cases queued
      · cases queued
        cases run
        rfl
    · cases left

theorem stThreadJoin_timed {thread : Tid} (run : stThreadJoin vp thread = some (vp', out)) :
    vp'.sleepQ = vp.sleepQ := by
  unfold stThreadJoin at run
  split at run
  · cases run
    rfl
  · split at run
    · cases run
      rfl
    · split at run
      · cases run
        rfl
      · exact joinLoop_timed heap off run

end

section
variable (stepped : Stepped e) (fired : e.Fired (machine E))
include stepped fired

theorem Stepped.timedCall {op : Op} {timeout : UTime} (cause : e.label = .call op) (given : op.timeout = some timeout) :
    e.post.vp.sleepQ = e.pre.vp.sleepQ ∨
      e.pre.vp.sleepQ.Timed e.actor e.pre.vp.lastClock timeout e.post.vp.sleepQ := by
  have heap := stepped.pre.inv.heap
  have off := (stepped.pre.inv.current_free (stepped.user op cause)).onSleepq
  have run := fired.step
  simp only [machine, cause, StateThreads.step] at run
  cases op with
  | usleep =>
    cases given
    exact stUsleep_timed heap off (System.lift_some run)
  | condTimedwait =>
    cases given
    exact stCondTimedwait_timed heap off (System.lift_some run)
  | poll =>
    cases given
    exact stPoll_timed heap off run
  | _ => cases given

theorem Stepped.joinTimers {thread : Tid} (cause : e.label = .call (.threadJoin thread)) :
    e.post.vp.sleepQ = e.pre.vp.sleepQ := by
  have heap := stepped.pre.inv.heap
  have off := (stepped.pre.inv.current_free (stepped.user _ cause)).onSleepq
  have run := fired.step
  simp only [machine, cause, StateThreads.step, call] at run
  exact stThreadJoin_timed heap off (System.lift_some run)

theorem Stepped.rejoinTimers {c : CondId} {thread : Tid} (cause : e.label = .resume)
    (place : (e.pre.vp.thr e.actor).context = .cond c (some thread)) : e.post.vp.sleepQ = e.pre.vp.sleepQ := by
  have heap := stepped.pre.inv.heap
  have off : e.pre.vp.sleepQ.onSleepq e.actor = false := by
    by_contra on
    have blocked := (stepped.pre.inv.armed (by simpa using on)).2
    rw [stepped.running] at blocked
    cases blocked
  have run := fired.step
  unfold SysEvent.actor at place off
  simp only [machine, cause, StateThreads.step, resume, place] at run
  have run := System.lift_some run
  obtain ⟨waited, -⟩ := stCondTimedwaitResume_run stepped.pre.inv place
  simp only [stThreadJoinResume, waited, Option.bind_eq_bind, Option.bind_some] at run
  generalize e.post.vp = vp' at run
  generalize e.out = out at run
  split at run
  · cases run
    rfl
  · apply joinLoop_timed _ _ run
    · exact heap
    · exact off

theorem Stepped.timers : e.pre.vp.sleepQ.Fewer e.post.vp.sleepQ ∨
    ∃ op timeout, e.label = .call op ∧ op.timeout = some timeout ∧ timeout ≠ utimeNoTimeout ∧
      e.post.vp.sleepQ.onSleepq = Function.update e.pre.vp.sleepQ.onSleepq e.actor true ∧
      e.post.vp.sleepQ.due = Function.update e.pre.vp.sleepQ.due e.actor (e.pre.vp.lastClock + timeout) := by
  have kept : e.post.vp.sleepQ = e.pre.vp.sleepQ → e.pre.vp.sleepQ.Fewer e.post.vp.sleepQ := fun same => by
    rw [same]
    exact .refl _
  by_cases call : ∃ op timeout, e.label = .call op ∧ op.timeout = some timeout
  · obtain ⟨op, timeout, cause, given⟩ := call
    obtain same | timed := stepped.timedCall fired cause given
    · exact .inl (kept same)
    · unfold SleepQ.Timed at timed
      split at timed
      · exact .inl (kept timed)
      · rename_i finite
        exact .inr ⟨op, timeout, cause, given, finite, timed⟩
  · left
    have join : ∀ thread, e.label = .call (.threadJoin thread) → e.post.vp.sleepQ = e.pre.vp.sleepQ :=
      fun thread cause => stepped.joinTimers fired cause
    have again : ∀ c thread, e.label = .resume → (e.pre.vp.thr e.actor).context = .cond c (some thread) →
        e.post.vp.sleepQ = e.pre.vp.sleepQ := fun c thread cause place => stepped.rejoinTimers fired cause place
    obtain ⟨vp', switch, post, move, -⟩ := stepped.move
    have after : e.post.vp.sleepQ = vp'.sleepQ := by rw [post, Vp.after_sleepQ]
    unfold SysEvent.actor at again
    generalize e.label = l at move call join again
    generalize e.out = out at move
    cases move with
    | sleeps | waits | polls | pollFails => exact absurd ⟨_, _, rfl, rfl⟩ call
    | joinWaits => exact kept (join _ rfl)
    | joinAgain place => exact kept (again _ _ rfl place)
    | signals _ roused | broadcasts _ roused =>
      rw [after]
      exact roused.fewer
    | dies _ roused =>
      rw [after]
      exact (show (e.pre.vp.dying _).sleepQ.Fewer _ from roused.fewer)
    | interruptsBlocked _ _ without =>
      rw [after]
      exact without.fewer
    | idles _ _ dispatched expired =>
      rw [after]
      exact dispatched.fewer.trans expired.fewer
    | @condNew cvar => cases cvar <;> exact kept after
    | @mutexNew lock => cases lock <;> exact kept after
    | @cleansUp term =>
      refine kept (after.trans ?_)
      show (stCondDestroy e.pre.vp term).1.sleepQ = _
      unfold stCondDestroy
      split <;> rfl
    | _ => exact kept after

end

theorem SysRun.timerSet (run : SysRun E hist s) (on : s.vp.sleepQ.onSleepq t = true) :
    ∃ b timeout, TimerSet hist s.vp t b timeout := by
  refine run.induct (P := fun hist s => s.vp.sleepQ.onSleepq t = true → ∃ b timeout, TimerSet hist s.vp t b timeout)
    ?_ ?_ on
  · intro s started on
    have settled := SysRun.settled (Run.begin started)
    have blocked := (settled.inv.armed on).2
    rw [started.blank.state t] at blocked
    cases blocked
  · intro hist e before kept fired on
    have stepped := SysRun.stepped before fired
    obtain fewer | ⟨op, timeout, cause, given, finite, flags, due⟩ := stepped.timers fired
    · have held := fewer.on t on
      obtain ⟨b, timeout, last, call, finite, due⟩ := kept held
      refine ⟨b, timeout, ?_, call, finite, by rw [fewer.due, due]⟩
      rw [← last]
      -- a thread with a timer is blocked, so it does not take the step
      have other : t ≠ SysEvent.actor e := by
        rintro rfl
        have blocked := (stepped.pre.inv.armed held).2
        rw [stepped.running] at blocked
        cases blocked
      exact lastCall_other other
    · by_cases acts : t = SysEvent.actor e
      · subst acts
        refine ⟨e, timeout, lastCall_call cause, ⟨op, cause, given⟩, finite, ?_⟩
        rw [due, Function.update_self]
      · rw [flags, Function.update_of_ne acts] at on
        obtain ⟨b, timeout, last, call, finite, held⟩ := kept on
        exact ⟨b, timeout, (lastCall_other acts).trans last, call, finite, by rw [due, Function.update_of_ne acts, held]⟩

theorem UTime.add_le_iff {l timeout now : UTime} (expired : l + timeout ≤ now) :
    l.val + timeout.val ≤ now.val ↔ l.val + timeout.val < 2 ^ 64 := by
  constructor
  · intro late
    have bound := now.isLt
    omega
  · intro fits
    have sum : (l + timeout).val = l.val + timeout.val := by
      rw [Fin.val_add, Nat.mod_eq_of_lt fits]
    rw [← sum]
    exact expired

theorem SysRun.expiredSet {now : UTime} {time : Nat} (run : SysRun E older e.pre) (fired : e.Fired (machine E))
    (cause : e.label = .idle now time) (expired : ExpiredIn E e t) :
    ∃ b timeout, TimerSet older e.pre.vp t b timeout ∧ b.pre.vp.lastClock + timeout ≤ now := by
  have stepped := SysRun.stepped run fired
  obtain ⟨now', time', evt, vp, vp', cause', dispatched, -, on, due, -⟩ := expired
  rw [cause] at cause'
  cases cause'
  obtain ⟨-, -, -, -, idle, -⟩ := stepped.idleParts fired cause
  obtain ⟨f, visited⟩ := dispatch_visited stepped.pre idle dispatched
  have fewer := visited.dispatched.fewer
  obtain ⟨b, timeout, set⟩ := SysRun.timerSet run (fewer.on t on)
  refine ⟨b, timeout, set, ?_⟩
  rw [← set.due, ← fewer.due]
  exact due

/-- An expiry comes no earlier than the timeout after the call, counted without wrapping
around, exactly when their sum fits in 64 bits. -/
theorem expiry_in_time_iff (E : EventSys σ ω) (hist : List (SysEvent σ ω)) (s : System σ) (run : SysRun E hist s)
    (newer : List (SysEvent σ ω)) (e : SysEvent σ ω) (older : List (SysEvent σ ω)) (split : hist = newer ++ e :: older)
    (t : Tid) (now : UTime) (time : Nat) (cause : e.label = .idle now time) (expired : ExpiredIn E e t) :
    ∃ b timeout, TimerSet older e.pre.vp t b timeout ∧
      (b.pre.vp.lastClock.val + timeout.val ≤ now.val ↔ b.pre.vp.lastClock.val + timeout.val < 2 ^ 64) := by
  subst split
  obtain ⟨before, fired, -⟩ := Run.split run
  obtain ⟨b, timeout, set, reached⟩ := SysRun.expiredSet before fired cause expired
  exact ⟨b, timeout, set, UTime.add_le_iff reached⟩

/-- The last step of a run is a turn of the idle thread at now in which the timer of t
expires. -/
def expiresLast (E : EventSys σ ω) (hist : List (SysEvent σ ω)) (t : Tid) (now : UTime) : Bool :=
  match hist with
  | ⟨pre, .idle now' time, _, _⟩ :: _ => now' = now && (dispatch E pre.evt pre.vp).any fun r =>
      (stVpCheckClock r.2 now time).any fun vp =>
        r.2.sleepQ.onSleepq t && r.2.sleepQ.due t ≤ now && !vp.sleepQ.onSleepq t
  | _ => false

theorem expiresLast_spec {now : UTime} (last : expiresLast E hist t now = true) :
    ∃ e older time, hist = e :: older ∧ e.label = .idle now time ∧ ExpiredIn E e t := by
  unfold expiresLast at last
  split at last
  · rename_i pre now' time out post older
    simp only [Bool.and_eq_true, decide_eq_true_eq, Option.any_eq_true, Bool.not_eq_true'] at last
    obtain ⟨rfl, ⟨evt, vp⟩, dispatched, vp', clock, ⟨on, due⟩, off⟩ := last
    exact ⟨_, older, time, rfl, rfl, now', time, evt, vp, vp', rfl, dispatched, clock, on, due, off⟩
  · cases last

/-- The primordial thread sleeps for 500 microseconds and wakes at 600. -/
theorem expiry_in_time_iff_usleep :
    ∃ hist s e older b timeout, SysRun (Poll.eventSys Poll.silent) hist s ∧ hist = e :: older ∧
      e.label = .idle 600 0 ∧ ExpiredIn (Poll.eventSys Poll.silent) e 1 ∧ TimerSet older e.pre.vp 1 b timeout ∧
      (b.pre.vp.lastClock.val + timeout.val ≤ (600 : UTime).val ↔ b.pre.vp.lastClock.val + timeout.val < 2 ^ 64) := by
  obtain ⟨hist, s, run, seen⟩ := Run.found (M := machine (Poll.eventSys Poll.silent))
    [.call (.usleep 500), .idle 600 0] Poll.started_ok
    (p := fun hist _ => expiresLast (Poll.eventSys Poll.silent) hist 1 600 && hist.head?.any fun e =>
      match e.label with | .idle _ time => time = 0 | _ => false)
    (by decide +kernel)
  obtain ⟨last, zero⟩ := Bool.and_eq_true_iff.mp seen
  obtain ⟨e, older, time, rfl, cause, expired⟩ := expiresLast_spec last
  simp only [List.head?_cons, Option.any_some, cause, decide_eq_true_eq] at zero
  subst zero
  obtain ⟨b, timeout, set, exact_⟩ := expiry_in_time_iff _ _ s run [] e older rfl 1 600 0 cause expired
  exact ⟨_, s, e, older, b, timeout, run, rfl, cause, expired, set, exact_⟩

def Label.sleeps : Label ω → UTime → Bool
  | .call (.usleep usecs), u => usecs = u
  | _, _ => false

/-- At clock 1000 the primordial thread sleeps for all but the longest time; the sum wraps
around to 998, and the thread wakes at 1001. -/
theorem expiry_too_early :
    ¬ ∀ hist s, SysRun (Poll.eventSys Poll.silent) hist s → ∀ newer e older, hist = newer ++ e :: older →
      ∀ t now time, e.label = .idle now time → ExpiredIn (Poll.eventSys Poll.silent) e t →
      ∀ b timeout, TimerSet older e.pre.vp t b timeout → b.pre.vp.lastClock.val + timeout.val ≤ now.val := by
  intro inTime
  obtain ⟨hist, s, run, seen⟩ := Run.found (M := machine (Poll.eventSys Poll.silent))
    [.call (.usleep 5), .idle 1000 0, .resume, .call (.usleep (utimeNoTimeout - 1)), .idle 1001 0] Poll.started_ok
    (p := fun hist _ => expiresLast (Poll.eventSys Poll.silent) hist 1 1001 && (lastCall hist 1).any fun b =>
      b.label.sleeps (utimeNoTimeout - 1) && b.pre.vp.lastClock = 1000)
    (by decide +kernel)
  obtain ⟨last, called⟩ := Bool.and_eq_true_iff.mp seen
  obtain ⟨e, older, time, rfl, cause, expired⟩ := expiresLast_spec last
  have run' : SysRun (Poll.eventSys Poll.silent) ([] ++ e :: older) s := run
  obtain ⟨before, fired, -⟩ := Run.split run'
  obtain ⟨b, timeout, set, -⟩ := SysRun.expiredSet before fired cause expired
  have late := inTime _ s run [] e older rfl 1 1001 time cause expired b timeout set
  rw [lastCall_quiet (by rw [cause]; rfl), set.last, Option.any_some] at called
  obtain ⟨op, call, given⟩ := set.call
  rw [call] at called
  cases op with
  | usleep usecs =>
    simp only [Label.sleeps, Bool.and_eq_true, decide_eq_true_eq] at called
    simp only [Op.timeout, Option.some.injEq] at given
    rw [← given, called.1, called.2] at late
    revert late
    decide
  | _ => simp [Label.sleeps] at called

end StateThreads
