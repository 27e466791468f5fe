import StateThreads.Placement.Step
import StateThreads.Heap.History
import StateThreads.Event.Poll

/-! Every thread has one place in every state the library can reach, and no step that
a program may take faults. -/
namespace StateThreads
open LabelledRun HeapTree

variable {σ ω : Type}

inductive Place where
  | processor | runQ | io | cond (c : CondId) | lock (m : MutexId) | timer | suspended | zombieQ
deriving DecidableEq, Repr

/-- On neither of the two queues that share a link field. -/
def Vp.Unlinked (vp : Vp) (t : Tid) : Prop := t ∉ vp.runQ ∧ t ∉ vp.zombieQ

/-- The thread is linked exactly once into the wait queue of one object. -/
def Vp.OnCond (vp : Vp) (t : Tid) (c : CondId) : Prop :=
  (vp.cond c).waitQ.count t = 1 ∧ (∀ d, d ≠ c → t ∉ (vp.cond d).waitQ) ∧ ∀ m, t ∉ (vp.mutex m).waitQ

def Vp.OnLock (vp : Vp) (t : Tid) (m : MutexId) : Prop :=
  (vp.mutex m).waitQ.count t = 1 ∧ (∀ n, n ≠ m → t ∉ (vp.mutex n).waitQ) ∧ ∀ c, t ∉ (vp.cond c).waitQ

def Vp.At (vp : Vp) (t : Tid) : Place → Prop
  | .processor => vp.current = t ∧ (vp.thr t).state = .running ∧ vp.Unlinked t
  | .runQ => vp.runQ.count t = 1 ∧ (vp.thr t).state = .runnable ∧ t ∉ vp.zombieQ ∧ vp.current ≠ t
  | .io => (vp.thr t).state = .ioWait ∧ vp.ioQ.count t = 1 ∧ (vp.pollq t).onIoq = true ∧ vp.Unlinked t
  | .cond c => (vp.thr t).state = .condWait ∧ vp.OnCond t c ∧ vp.Unlinked t
  | .lock m => (vp.thr t).state = .lockWait ∧ vp.OnLock t m ∧ vp.Unlinked t
  | .timer => (vp.thr t).state = .sleeping ∧ vp.sleepQ.onSleepq t = true ∧ vp.Unlinked t
  | .suspended => (vp.thr t).state = .suspended ∧ vp.Unlinked t
  | .zombieQ => vp.zombieQ.count t = 1 ∧ (vp.thr t).state = .zombie ∧ t ∉ vp.runQ

/-- The thread object is on no queue, in no heap and not on the processor. -/
def Vp.Nowhere (vp : Vp) (t : Tid) : Prop :=
  vp.Unlinked t ∧ t ∉ vp.ioQ ∧ (∀ c, t ∉ (vp.cond c).waitQ) ∧ (∀ m, t ∉ (vp.mutex m).waitQ) ∧
    vp.sleepQ.onSleepq t = false ∧ vp.current ≠ t

structure Placed (vp : Vp) : Prop where
  place : ∀ t, (vp.thr t).context.live = true → t ≠ vp.idleThread → ∃! p, vp.At t p
  dead : ∀ t, (vp.thr t).context.live = false → vp.Nowhere t
  heap : ∃ tr, vp.sleepQ.Represents tr ∧ ∀ t, t ∈ elems tr ↔ vp.sleepQ.onSleepq t = true
  timed : ∀ t, vp.sleepQ.onSleepq t = true →
    (vp.thr t).state = .ioWait ∨ (vp.thr t).state = .condWait ∨ (vp.thr t).state = .sleeping
  idle_off : vp.idleThread ∉ vp.runQ
  idle_ready : vp.current ≠ vp.idleThread → (vp.thr vp.idleThread).state = .runnable
  runs_once : vp.runQ.Nodup ∧ vp.zombieQ.Nodup ∧ vp.ioQ.Nodup

section
variable {vp : Vp} (inv : Inv vp (some vp.current)) {t : Tid}
include inv

theorem Inv.on_cond {c : CondId} {join : Option Tid} (place : (vp.thr t).context = .cond c join) :
    vp.OnCond t c := by
  have ok := inv.views t
  refine ⟨?_, fun d hd => ?_, fun m => ?_⟩
  · simpa [place, Context.waitsCond] using ok.cond c
  · apply List.count_eq_zero.mp
    simpa [place, Context.waitsCond, Ne.symm hd] using ok.cond d
  · apply List.count_eq_zero.mp
    simpa [place, Context.waitsLock] using ok.lock m

theorem Inv.on_lock {m : MutexId} (place : (vp.thr t).context = .lock m) : vp.OnLock t m := by
  have ok := inv.views t
  refine ⟨?_, fun n hn => ?_, fun c => ?_⟩
  · simpa [place, Context.waitsLock] using ok.lock m
  · apply List.count_eq_zero.mp
    simpa [place, Context.waitsLock, Ne.symm hn] using ok.lock n
  · apply List.count_eq_zero.mp
    simpa [place, Context.waitsCond] using ok.cond c

theorem Inv.unlinked (notRunnable : (vp.thr t).state ≠ .runnable) (notZombie : (vp.thr t).state ≠ .zombie) :
    vp.Unlinked t := by
  have ok := inv.views t
  constructor <;> apply List.count_eq_zero.mp
  · simpa [notRunnable] using ok.run
  · simpa [notZombie] using ok.zombie

theorem Inv.somewhere (live : (vp.thr t).context.live = true) (other : t ≠ vp.idleThread) : ∃ p, vp.At t p := by
  have ok := inv.views t
  have fits := ok.fits
  have running := ok.running
  have notIdle : (vp.thr t).context ≠ .idle := by
    intro h
    exact other (by simpa [h] using ok.idle)
  cases state : (vp.thr t).state with
  | running =>
    refine ⟨.processor, ?_, state, inv.unlinked (by simp [state]) (by simp [state])⟩
    simpa [state, live] using running
  | runnable =>
    refine ⟨.runQ, ?_, state, ?_, ?_⟩
    · simpa [state, live, notIdle] using ok.run
    · apply List.count_eq_zero.mp
      simpa [state] using ok.zombie
    · simpa [state] using running
  | ioWait =>
    have polling : (vp.thr t).context = .poll := by
      simp only [Vp.view, state] at fits
      cases h : (vp.thr t).context <;> simp_all [Context.fits]
    obtain ⟨on, count⟩ := inv.linked_poll ⟨polling, state⟩
    exact ⟨.io, state, count, on, inv.unlinked (by simp [state]) (by simp [state])⟩
  | condWait =>
    cases place : (vp.thr t).context with
    | cond c join => exact ⟨.cond c, state, inv.on_cond place, inv.unlinked (by simp [state]) (by simp [state])⟩
    | _ => simp [state, place, Context.fits] at fits
  | lockWait =>
    cases place : (vp.thr t).context with
    | lock m => exact ⟨.lock m, state, inv.on_lock place, inv.unlinked (by simp [state]) (by simp [state])⟩
    | _ => simp [state, place, Context.fits] at fits
  | sleeping => exact ⟨.timer, state, ok.asleep live state, inv.unlinked (by simp [state]) (by simp [state])⟩
  | suspended => exact ⟨.suspended, state, inv.unlinked (by simp [state]) (by simp [state])⟩
  | zombie =>
    refine ⟨.zombieQ, ?_, state, ?_⟩
    · simpa [state, live] using ok.zombie
    · apply List.count_eq_zero.mp
      simpa [state] using ok.run

omit inv in
theorem Vp.At.unique {p q : Place} (hp : vp.At t p) (hq : vp.At t q) : p = q := by
  cases p <;> cases q <;> simp only [Vp.At] at hp hq <;> try simp_all
  case cond.cond c d =>
    by_contra h
    exact hp.2.1 d (fun e => h (by rw [e])) (List.count_pos_iff.mp (by rw [hq.2.1.1]; decide))
  case lock.lock m n =>
    by_contra h
    exact hp.2.1 n (fun e => h (by rw [e])) (List.count_pos_iff.mp (by rw [hq.2.1.1]; decide))

theorem Inv.nowhere (dead : (vp.thr t).context.live = false) : vp.Nowhere t := by
  have ok := inv.views t
  have running := ok.running
  have timed := ok.timed
  have away : (vp.thr t).context ≠ .poll ∧ (∀ c, (vp.thr t).context.waitsCond c = false) ∧
      ∀ m, (vp.thr t).context.waitsLock m = false := by
    cases h : (vp.thr t).context <;> simp_all [Context.live, Context.waitsCond, Context.waitsLock]
  refine ⟨⟨?_, ?_⟩, ?_, fun c => ?_, fun m => ?_, ?_, ?_⟩
  · apply List.count_eq_zero.mp; simpa [dead] using ok.run
  · apply List.count_eq_zero.mp; simpa [dead] using ok.zombie
  · apply List.count_eq_zero.mp; simpa [away.1] using ok.io
  · apply List.count_eq_zero.mp; simpa [away.2.1 c] using ok.cond c
  · apply List.count_eq_zero.mp; simpa [away.2.2 m] using ok.lock m
  · simpa [dead] using timed
  · simpa [dead] using running

end

theorem Inv.placed {vp : Vp} (inv : Inv vp (some vp.current)) : Placed vp where
  place t live other := by
    obtain ⟨p, at_p⟩ := inv.somewhere live other
    exact ⟨p, at_p, fun q at_q => at_q.unique at_p⟩
  dead _ dead := inv.nowhere dead
  heap := inv.heap
  timed t on := ((inv.views t).timed on).2
  idle_off := by
    have idle := (inv.views vp.idleThread).idle.mp (by simp)
    simp only [Vp.view] at idle
    apply List.count_eq_zero.mp
    simpa [idle] using (inv.views vp.idleThread).run
  idle_ready other := by
    have idle := (inv.views vp.idleThread).idle.mp (by simp)
    have running := (inv.views vp.idleThread).running
    have fits := (inv.views vp.idleThread).fits
    simp only [Vp.view] at idle
    have notRunning : (vp.thr vp.idleThread).state ≠ .running := by
      simpa [idle, Context.live, other] using running
    simpa [idle, Context.fits, notRunning] using fits
  runs_once := by
    refine ⟨?_, ?_, inv.ioQ_nodup⟩ <;> rw [List.nodup_iff_count_le_one]
    · exact fun t => (inv.views t).once.1
    · exact fun t => (inv.views t).once.2.1

/- The start. -/

theorem stInit_settled {answers : InitAnswers} {vp : Vp} (ok : stInit Vp.boot answers = some vp)
    (distinct : answers.stack ≠ answers.object) : Settled vp := by
  obtain ⟨ioInit, eventInit, now, stack, object⟩ := answers
  cases ioInit with
  | false => simp [stInit, Vp.boot] at ok
  | true =>
    cases eventInit with
    | false => simp [stInit, Vp.boot] at ok
    | true =>
      cases stack with
      | none => simp [stInit, Vp.boot] at ok
      | some i =>
        cases object with
        | none => simp [stInit, Vp.boot, startThread, Vp.addRunq, Vp.setThr] at ok
        | some p =>
          have other : p ≠ i := by rintro rfl; exact distinct rfl
          simp [stInit, Vp.boot, startThread, Vp.addRunq, Vp.setThr] at ok
          subst ok
          refine ⟨⟨fun t => ?_, ?_, ?_⟩, ?_⟩
          · by_cases hp : t = p
            · subst hp
              constructor <;> simp [Vp.view, other, Context.live, Context.fits, Context.waitsCond,
                Context.waitsLock, ThreadState.blocked]
            · by_cases hi : t = i
              · subst hi
                constructor <;> simp [Vp.view, hp, Ne.symm hp, Context.live, Context.fits, Context.waitsCond,
                  Context.waitsLock, ThreadState.blocked]
              · constructor <;> simp [Vp.view, hp, hi, Ne.symm hp, Context.live, Context.fits,
                  Context.waitsCond, Context.waitsLock]
          · exact ⟨.nil, empty_represents (by simp) rfl, by simp [elems]⟩
          · constructor <;> simp
            all_goals intro t
            all_goals by_cases hp : t = p <;> by_cases hi : t = i <;> simp_all
          · simp

theorem Started.settled {E : EventSys σ ω} {s : System σ} (started : Started E s) : Settled s.vp := by
  obtain ⟨-, answers, ok, distinct⟩ := started
  exact stInit_settled ok distinct

/-- One step: the invariant is kept and the step is one of the moves. -/
theorem Settled.step {E : EventSys σ ω} {e : SysEvent σ ω} (settled : Settled e.pre.vp) (fired : e.Fired (machine E)) :
    ∃ vp' switch, e.post.vp = vp'.after switch ∧ Move e.pre.vp e.label vp' e.out switch ∧
      vp'.current = e.pre.vp.current ∧ Inv vp' (if switch then none else some e.pre.vp.current) ∧
      Settled e.post.vp := by
  obtain ⟨s', vp', out, switch, run, post, move, current, kept, empty⟩ := step_moves E settled fired.enabled
  have same := fired.step
  simp only [machine] at same
  rw [run] at same
  obtain ⟨rfl, rfl⟩ := Prod.mk.inj (Option.some.inj same)
  refine ⟨vp', switch, post, move, current, kept, ?_⟩
  rw [post]
  exact .after current kept empty

theorem SysRun.settled {E : EventSys σ ω} {hist : List (SysEvent σ ω)} {s : System σ} (run : SysRun E hist s) :
    Settled s.vp := by
  refine run.induct (P := fun _ s => Settled s.vp) (fun _ started => started.settled) ?_
  intro hist e _ settled fired
  obtain ⟨_, _, _, _, _, _, after⟩ := settled.step fired
  exact after

/-- In every state that a program reaches from a successful st_init, each thread has
its one place, and whatever step is possible next is taken without linking a thread
twice, unlinking one that is not linked, or failing an assertion. -/
theorem reachable_placed (E : EventSys σ ω) (hist : List (SysEvent σ ω)) (s : System σ) (run : SysRun E hist s) :
    Placed s.vp ∧ ∀ l, enabled E s l = true → (step E s l).isSome = true := by
  have settled := run.settled
  refine ⟨settled.inv.placed, fun l ok => ?_⟩
  obtain ⟨s', _, out, _, taken, _⟩ := step_moves E settled ok
  simp [taken]

/-- A kernel on which nothing ever becomes ready. -/
def Poll.silent : Poll.Kernel Unit Unit where
  poll _ _ _ := ((), 0, [])
  malloc _ _ := ((), true)
  outside _ _ := ()

/-- The primordial thread is 1 and the idle thread 0. -/
def Poll.started : System (Poll.State Unit) where
  vp := (stInit Vp.boot ⟨true, true, 0, some 0, some 1⟩).getD Vp.boot
  evt := ⟨[], 64, 0, 0, ()⟩

theorem Poll.started_ok : Started (Poll.eventSys Poll.silent) Poll.started :=
  ⟨⟨rfl, rfl, rfl⟩, ⟨true, true, 0, some 0, some 1⟩, rfl, by decide⟩

/-- A joinable thread polls with a time limit while its creator sleeps; the clock wakes
both, and the thread exits. -/
theorem reachable_placed_after_timeouts :
    ∃ hist s, SysRun (Poll.eventSys Poll.silent) hist s ∧
      ((s.vp.thr 2).state = .zombie ∧ s.vp.zombieQ = [2] ∧ s.vp.current = 1) ∧
      Placed s.vp ∧ ∀ l, enabled (Poll.eventSys Poll.silent) s l = true →
        (step (Poll.eventSys Poll.silent) s l).isSome = true := by
  obtain ⟨hist, s, run, seen⟩ := Run.found (M := machine (Poll.eventSys Poll.silent))
    [.call (.threadCreate (some 2) true (some 0)), .call (.usleep 900), .resume,
      .call (.poll [⟨5, pollIn, 0⟩] 300), .idle 1000 0, .resume, .call (.threadExit 7)]
    Poll.started_ok
    (p := fun _ s => decide ((s.vp.thr 2).state = .zombie ∧ s.vp.zombieQ = [2] ∧ s.vp.current = 1))
    (by decide +kernel)
  exact ⟨hist, s, run, of_decide_eq_true seen, reachable_placed _ hist s run⟩

end StateThreads
