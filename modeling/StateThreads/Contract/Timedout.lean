import StateThreads.Contract.Cond
import StateThreads.Contract.Interrupt
import StateThreads.Contract.Timers

/-! The flag _ST_FL_TIMEDOUT over whole runs: who sets it, when it is clear, and which
waits report ETIME. -/
namespace StateThreads
open LabelledRun

variable {σ ω : Type}

/-- The clock check of the step e found t in COND_WAIT with its time over. -/
def CondExpiredIn (E : EventSys σ ω) (e : SysEvent σ ω) (t : Tid) : Prop :=
  ExpiredIn E e t ∧ (e.pre.vp.thr t).state = .condWait

structure WaitStory (E : EventSys σ ω) (hist : List (SysEvent σ ω)) (vp : Vp) (t : Tid) : Prop where
  timedout : (vp.thr t).flags.timedout = true ↔ ∃ n ∈ sinceCall hist t, CondExpiredIn E n t
  interrupt : (vp.thr t).flags.interrupt = true ↔ ∃ n ∈ sinceCall hist t, n.label = .call (.threadInterrupt t)

variable {E : EventSys σ ω} {hist older : List (SysEvent σ ω)} {s : System σ} {e : SysEvent σ ω} {c : CondId}
  {t : Tid}

theorem Stepped.clear (stepped : Stepped e) {op : Op} (cause : e.label = .call op) :
    (e.pre.vp.thr e.actor).flags.timedout = false :=
  (stepped.pre.inv.current_free (stepped.user op cause)).timedout

theorem Stepped.entersFlags (stepped : Stepped e) {op : Op} {join : Option Tid} (cause : e.label = .call op)
    (place : (e.post.vp.thr e.actor).context = .cond c join) :
    (e.post.vp.thr e.actor).flags = (e.pre.vp.thr e.actor).flags := by
  have user := stepped.user op cause
  obtain ⟨th, acted, picked⟩ := stepped.self
  rw [picked.context] at place
  rw [picked.flags]
  unfold SysEvent.actor at *
  cases acted with
  | parked => rfl
  | same | cleared | flagged | idled => simp [user] at place
  | rejoined cause' =>
    rw [cause] at cause'
    cases cause'
  | _ => cases place

section
variable (stepped : Stepped e) (fired : e.Fired (machine E)) {join : Option Tid}
  (held : (e.pre.vp.thr t).context = .cond c join)
include stepped held

theorem Stepped.waitsQuiet (acts : e.actor = t) : e.label.isCall = false := by
  cases cause : e.label with
  | call op =>
    rw [← acts, stepped.user op cause] at held
    cases held
  | _ => rfl

theorem Stepped.interruptFlag (other : t ≠ e.actor) :
    (e.post.vp.thr t).flags.interrupt = true ↔
      (e.pre.vp.thr t).flags.interrupt = true ∨ e.label = .call (.threadInterrupt t) := by
  obtain ⟨th, touched, picked⟩ := stepped.other t other
  have fits := (stepped.pre.inv.views t).fits
  have alive : (e.pre.vp.thr t).state ≠ .zombie := by
    intro zombie
    simp [Vp.view, held, zombie, Context.fits] at fits
  by_cases cause : e.label = .call (.threadInterrupt t)
  · simp only [cause, or_true, iff_true]
    obtain ⟨-, ⟨zombie, -⟩ | ⟨-, post⟩ | ⟨-, q, -, post⟩⟩ := stepped.interrupts cause
    · exact absurd zombie alive
    · simp [post, Vp.setInterrupt, Vp.setThr]
    · simp [post, Vp.woken]
  · simp only [cause, or_false]
    rw [picked.flags]
    cases touched with
    | same | reaped => rfl
    | flagged cause' => exact absurd cause' cause
    | created _ unborn => rw [held] at unborn; cases unborn
    | woken _ _ why =>
      cases why with
      | signal | handOver | ready => rfl
      | interrupt cause' => exact absurd cause' cause
      | timer =>
        unfold Thread.expired
        split <;> rfl

include fired

theorem Stepped.waitsStill (acts : e.actor = t) (still : (e.post.vp.thr t).context = .cond c none) :
    (e.post.vp.thr t).flags = (e.pre.vp.thr t).flags ∧ ∃ change, e.label = .outside change := by
  subst acts
  have quiet := stepped.waitsQuiet held rfl
  obtain ⟨th, acted, picked⟩ := stepped.self
  rw [picked.context] at still
  rw [picked.flags]
  unfold SysEvent.actor at *
  cases acted with
  | same _ returned notResume =>
    refine ⟨rfl, ?_⟩
    cases cause : e.label with
    | outside change => exact ⟨change, rfl⟩
    | idle now time =>
      obtain ⟨-, -, -, -, idle, -⟩ := stepped.idleParts fired cause
      cases idle.symm.trans held
    | call op =>
      rw [cause] at quiet
      cases quiet
    | resume => exact absurd cause notResume
  | cleared cause | flagged cause | died cause | left cause =>
    rw [cause] at quiet
    cases quiet
  | parked where_ =>
    obtain ⟨op, cause, -⟩ := where_.waitsAt
    rw [cause] at quiet
    cases quiet
  | idled _ place =>
    rw [held] at place
    cases place
  | _ => cases still

theorem Stepped.timedoutFlag (other : t ≠ e.actor) :
    (e.post.vp.thr t).flags.timedout = true ↔ (e.pre.vp.thr t).flags.timedout = true ∨ CondExpiredIn E e t := by
  have fits := (stepped.pre.inv.views t).fits
  by_cases idles : ∃ now time, e.label = .idle now time
  · obtain ⟨now, time, cause⟩ := idles
    obtain ⟨evt, vp, vp', ts, idle, dispatched, clock, checked, -, picked⟩ := stepped.idleParts fired cause
    obtain ⟨f, visited⟩ := dispatch_visited stepped.pre idle dispatched
    have still : vp.thr t = e.pre.vp.thr t := by
      rw [visited.dispatched.thr, if_neg]
      intro hit
      have there := (visited.dispatched.polls t hit).1
      rw [held] at there
      cases there
    rw [(picked t other).flags]
    by_cases expired : t ∈ ts
    · obtain ⟨on, due⟩ := (checked.expired t).mp expired
      have waits : (e.pre.vp.thr t).state = .condWait := by
        have timed := (stepped.pre.inv.views t).timed (visited.dispatched.fewer.on t on)
        simp only [Vp.view, held] at fits timed
        obtain state | state | state := timed.2 <;> simp_all [Context.fits]
      rw [(checked.woken t expired).2, still]
      simp only [waits, decide_true, true_iff]
      exact .inr ⟨⟨now, time, evt, vp, vp', cause, dispatched, clock, on, due, (checked.woken t expired).1⟩, waits⟩
    · rw [(checked.others t expired).1, still]
      refine ⟨.inl, fun h => h.resolve_right ?_⟩
      rintro ⟨⟨now', time', evt', vp₁, vp₂, cause', dispatched', clock', on, due, off⟩, -⟩
      rw [cause] at cause'
      cases cause'
      obtain ⟨-, rfl⟩ := Prod.mk.inj (Option.some.inj (dispatched.symm.trans dispatched'))
      exact expired ((checked.expired t).mpr ⟨on, due⟩)
  · obtain ⟨th, touched, picked⟩ := stepped.other t other
    have notExpired : ¬ CondExpiredIn E e t := by
      rintro ⟨⟨now, time, -, -, -, cause, -⟩, -⟩
      exact idles ⟨now, time, cause⟩
    rw [picked.flags]
    simp only [notExpired, or_false]
    cases touched with
    | same | flagged | reaped => rfl
    | created _ unborn => rw [held] at unborn; cases unborn
    | woken _ _ why =>
      cases why with
      | signal | handOver | interrupt => rfl
      | ready cause | timer cause => exact absurd ⟨_, _, cause⟩ idles

end

theorem CondExpiredIn.idle (expired : CondExpiredIn E e t) : ∃ now time, e.label = .idle now time := by
  obtain ⟨⟨now, time, -, -, -, cause, -⟩, -⟩ := expired
  exact ⟨now, time, cause⟩

theorem WaitStory.step (stepped : Stepped e) (fired : e.Fired (machine E))
    (before : (e.pre.vp.thr t).context = .cond c none → WaitStory E hist e.pre.vp t)
    (place : (e.post.vp.thr t).context = .cond c none) : WaitStory E (e :: hist) e.post.vp t := by
  obtain held | ⟨rfl, -, flag, parks⟩ := stepped.condPlace place
  · obtain ⟨timedout, interrupt⟩ := before held
    have window : sinceCall (e :: hist) t = e :: sinceCall hist t := sinceCall_cons (stepped.waitsQuiet held)
    by_cases acts : e.actor = t
    · obtain ⟨flags, change, cause⟩ := stepped.waitsStill fired held acts place
      have notExpired : ¬ CondExpiredIn E e t := fun expired => by
        obtain ⟨now, time, idle⟩ := expired.idle
        rw [cause] at idle
        cases idle
      constructor
      · rw [window, flags, timedout]
        simp [notExpired]
      · rw [window, flags, interrupt]
        simp [cause]
    · have other : t ≠ e.actor := fun h => acts h.symm
      constructor
      · rw [window, stepped.timedoutFlag fired held other, timedout]
        simp [or_comm]
      · rw [window, stepped.interruptFlag held other, interrupt]
        simp [or_comm]
  · obtain ⟨op, cause, -⟩ := parks.waitsAt
    have window : sinceCall (e :: hist) e.actor = [] := sinceCall_call rfl (by rw [cause]; rfl)
    have flags := stepped.entersFlags cause place
    constructor
    · rw [window, flags, stepped.clear cause]
      simp
    · rw [window, flags, flag]
      simp

theorem SysRun.waitStory (run : SysRun E hist s) (place : (s.vp.thr t).context = .cond c none) :
    WaitStory E hist s.vp t := by
  refine run.induct (P := fun hist s => (s.vp.thr t).context = .cond c none → WaitStory E hist s.vp t) ?_ ?_ place
  · intro s started place
    have outside := started.blank.place t
    rw [place] at outside
    cases outside
  · intro hist e before kept fired
    exact WaitStory.step (SysRun.stepped before fired) fired kept

theorem SysRun.joinUntimed (run : SysRun E hist s) {thread : Tid} (place : (s.vp.thr t).context = .cond c (some thread))
    {b : SysEvent σ ω} {timeout : UTime} : ¬ TimerSet hist s.vp t b timeout := by
  rintro ⟨last, ⟨op, call, given⟩, -, -⟩
  obtain ⟨b', op', last', call', waits⟩ := run.inside t (by rw [place]; rfl) (by rw [place]; simp)
  rw [last] at last'
  obtain rfl := Option.some.inj last'
  rw [call] at call'
  cases call'
  rw [place] at waits
  cases op <;> simp [Op.waitsAt, Op.timeout] at waits given

theorem SysRun.joinClear (run : SysRun E hist s) {thread : Tid} (place : (s.vp.thr t).context = .cond c (some thread)) :
    (s.vp.thr t).flags.timedout = false := by
  refine run.induct (P := fun _ s => (s.vp.thr t).context = .cond c (some thread) → (s.vp.thr t).flags.timedout = false)
    ?_ ?_ place
  · intro s started _
    exact (started.blank.flags t).2
  · intro hist e before kept fired place
    have stepped := SysRun.stepped before fired
    by_cases acts : t = SysEvent.actor e
    · subst acts
      obtain ⟨th, acted, picked⟩ := stepped.self
      rw [picked.context] at place
      rw [picked.flags]
      cases acted with
      | same => exact kept place
      | parked where_ =>
        obtain ⟨op, cause, -⟩ := where_.waitsAt
        exact stepped.clear cause
      | cleared cause | flagged cause => exact stepped.clear cause
      | idled _ idle => exact kept place
      | rejoined => rfl
      | _ => cases place
    · obtain held | ⟨acts', -⟩ := stepped.condPlace place
      · by_contra late
        obtain late | expired := (stepped.timedoutFlag fired held acts).mp (by simpa using late)
        · rw [kept held] at late
          cases late
        · obtain ⟨now, time, cause⟩ := expired.idle
          obtain ⟨b, timeout, set, -⟩ := SysRun.expiredSet before fired cause expired.1
          exact SysRun.joinUntimed before held set
      · exact absurd acts' acts

theorem waitResult_etime {flags : Flags} :
    waitResult flags = .fail .etime ↔ flags.timedout = true ∧ ¬ flags.interrupt = true := by
  unfold waitResult
  split
  · simp_all
  · split <;> simp_all

theorem mem_sinceCall {n : SysEvent σ ω} (member : n ∈ sinceCall hist t) :
    ∃ newer older, hist = newer ++ n :: older ∧ lastCall older t = lastCall hist t := by
  induction hist with
  | nil => cases member
  | cons e hist ih =>
    by_cases call : (e.actor = t && e.label.isCall) = true
    · obtain ⟨acts, call⟩ := Bool.and_eq_true_iff.mp call
      rw [sinceCall_call (by simpa using acts) call] at member
      cases member
    · have still : lastCall (e :: hist) t = lastCall hist t := List.find?_cons_of_neg call
      rw [sinceCall_cons (by simpa using call)] at member
      obtain rfl | member := List.mem_cons.mp member
      · exact ⟨[], hist, rfl, still.symm⟩
      · obtain ⟨newer, older, rfl, last⟩ := ih member
        exact ⟨e :: newer, older, rfl, last.trans still.symm⟩

section
variable {r : Ret} {b : SysEvent σ ω} {timeout : UTime} (run : SysRun E older e.pre) (fired : e.Fired (machine E))
include run fired

theorem SysRun.etime_iff (done : Completes older e (.condTimedwait c timeout) r b) :
    r = .fail .etime ↔ (∃ n ∈ sinceCall (e :: older) e.actor, CondExpiredIn E n e.actor) ∧
      ∀ n ∈ sinceCall (e :: older) e.actor, n.label ≠ .call (.threadInterrupt e.actor) := by
  have stepped := SysRun.stepped run fired
  obtain ⟨cause, -⟩ | ⟨cause, waits, -⟩ := done.cases run fired
  · rw [sinceCall_call rfl (by rw [cause]; rfl)]
    obtain ⟨vp', switch, post, move, -⟩ := stepped.move
    rw [cause, done.out] at move
    cases move
    simp
  · have place := Op.waitsAt_cond waits
    have story := SysRun.waitStory run place
    have result := stepped.waitReturns cause place
    rw [done.out] at result
    obtain rfl := Option.some.inj result
    have notExpired : ¬ CondExpiredIn E e e.actor := fun expired => by
      obtain ⟨now, time, idle⟩ := expired.idle
      rw [cause] at idle
      cases idle
    rw [waitResult_etime, story.timedout, story.interrupt, sinceCall_cons fun _ => by rw [cause]; rfl]
    simp [notExpired, cause]

theorem SysRun.etime_finite {op : Op} (done : Completes older e op r b) {n : SysEvent σ ω}
    (member : n ∈ sinceCall (e :: older) e.actor) (expired : CondExpiredIn E n e.actor) :
    ∃ timeout, op.timeout = some timeout ∧ timeout ≠ utimeNoTimeout := by
  obtain ⟨newer, before, split, last⟩ := mem_sinceCall member
  have whole : SysRun E (newer ++ n :: before) e.post := split ▸ Run.next run fired
  obtain ⟨run', fired', -⟩ := Run.split whole
  obtain ⟨now, time, cause⟩ := expired.idle
  obtain ⟨b', timeout, set, -⟩ := SysRun.expiredSet run' fired' cause expired.1
  have same := set.last
  rw [last, done.begun] at same
  obtain rfl := Option.some.inj same
  obtain ⟨op', call, given⟩ := set.call
  rw [done.op] at call
  cases call
  exact ⟨timeout, given, set.finite⟩

theorem SysRun.join_etime {thread : Tid} (done : Completes older e (.threadJoin thread) r b) : r ≠ .fail .etime := by
  have stepped := SysRun.stepped run fired
  have result := done.out
  rintro rfl
  obtain ⟨vp', switch, post, move, -⟩ := stepped.move
  obtain ⟨cause, -⟩ | ⟨cause, waits, -⟩ := done.cases run fired
  · rw [cause, result] at move
    cases move with
    | joinRejected error => simp at error
  · rw [cause, result] at move
    cases place : (e.pre.vp.thr e.actor).context with
    | cond d join =>
      cases join with
      | none => simp [place, Op.waitsAt] at waits
      | some u =>
        have clear := SysRun.joinClear run place
        have late : waitResult (e.pre.vp.thr e.actor).flags = .fail .etime := by
          unfold SysEvent.actor at place ⊢
          generalize failed : Ret.fail .etime = r at move
          cases move <;> simp_all
        rw [(waitResult_etime.mp late).1] at clear
        cases clear
    | _ => simp [place, Op.waitsAt] at waits

end

structure TimedoutDiscipline (E : EventSys σ ω) (hist : List (SysEvent σ ω)) (s : System σ) : Prop where
  set : ∀ t, (s.vp.thr t).flags.timedout = true → (∃ c, (s.vp.thr t).context = .cond c none) ∧
    ((s.vp.thr t).state = .runnable ∨ (s.vp.thr t).state = .running) ∧ ∃ n ∈ sinceCall hist t, CondExpiredIn E n t
  enters : ∀ e ∈ hist, ∀ op, e.label = .call op → (e.pre.vp.thr (SysEvent.actor e)).flags.timedout = false
  again : ∀ c vp' rv, stCondTimedwaitResume s.vp c = some (vp', rv) → (vp'.thr vp'.current).flags.timedout = false
  etime : ∀ e older c timeout r b, (e :: older) <:+ hist → Completes older e (.condTimedwait c timeout) r b →
    (r = .fail .etime ↔ (∃ n ∈ sinceCall (e :: older) e.actor, CondExpiredIn E n e.actor) ∧
      ∀ n ∈ sinceCall (e :: older) e.actor, n.label ≠ .call (.threadInterrupt e.actor))
  never : ∀ e older c b, (e :: older) <:+ hist → ¬ Completes older e (.condTimedwait c utimeNoTimeout) (.fail .etime) b
  joins : ∀ e older thread b, (e :: older) <:+ hist → ¬ Completes older e (.threadJoin thread) (.fail .etime) b

theorem timedout_discipline (E : EventSys σ ω) (hist : List (SysEvent σ ω)) (s : System σ) (run : SysRun E hist s) :
    TimedoutDiscipline E hist s where
  set t late := by
    obtain ⟨inside, awake⟩ := (run.settled.inv.views t).timedout late
    simp only [Vp.view] at inside awake
    cases place : (s.vp.thr t).context with
    | cond c join =>
      cases join with
      | none =>
        refine ⟨⟨c, rfl⟩, ?_, (run.waitStory place).timedout.mp late⟩
        have fits := (run.settled.inv.views t).fits
        simp only [Vp.view, place] at fits
        cases state : (s.vp.thr t).state <;> simp_all [Context.fits, ThreadState.blocked]
      | some thread =>
        rw [run.joinClear place] at late
        cases late
    | _ => simp [place, Context.inCond] at inside
  enters e member op cause := by
    obtain ⟨newer, older, rfl⟩ := List.append_of_mem member
    obtain ⟨before, fired, -⟩ := Run.split run
    exact (SysRun.stepped before fired).clear cause
  again c vp' rv resumed := by
    simp only [stCondTimedwaitResume, Option.bind_eq_bind, Option.bind_eq_some_iff, Option.some.injEq,
      Prod.mk.injEq] at resumed
    obtain ⟨vp₁, unlinked, rfl, -⟩ := resumed
    have same : vp₁.current = s.vp.current := by
      unfold Vp.removeCondLink at unlinked
      split at unlinked
      · cases unlinked
        rfl
      · cases unlinked
    simp [Vp.setContext, Vp.setInterrupt, Vp.setTimedout, Vp.setThr, same]
  etime e older c timeout r b past done := by
    obtain ⟨before, fired⟩ := SysRun.before run past
    exact SysRun.etime_iff before fired done
  never e older c b past done := by
    obtain ⟨before, fired⟩ := SysRun.before run past
    obtain ⟨⟨n, member, expired⟩, -⟩ := (SysRun.etime_iff before fired done).mp rfl
    obtain ⟨timeout, given, finite⟩ := SysRun.etime_finite before fired done member expired
    exact finite (Option.some.inj given).symm
  joins e older thread b past done := by
    obtain ⟨before, fired⟩ := SysRun.before run past
    exact SysRun.join_etime before fired done rfl

/-- Thread 1 waits for 500 microseconds and is not signalled; its wait returns ETIME. -/
theorem timedout_discipline_expired :
    ∃ hist s, SysRun (Poll.eventSys Poll.silent) hist s ∧
      (hist.head?.bind (·.out) = some (.fail .etime) ∧ (s.vp.thr 1).flags.timedout = false) ∧
      TimedoutDiscipline (Poll.eventSys Poll.silent) hist s := by
  obtain ⟨hist, s, run, seen⟩ := Run.found (M := machine (Poll.eventSys Poll.silent))
    [.call (.condNew (some 0)), .call (.condTimedwait 0 500), .idle 1000 0, .resume] Poll.started_ok
    (p := fun hist s => decide (hist.head?.bind (·.out) = some (.fail .etime) ∧ (s.vp.thr 1).flags.timedout = false))
    (by decide +kernel)
  exact ⟨hist, s, run, of_decide_eq_true seen, timedout_discipline _ hist s run⟩

end StateThreads
