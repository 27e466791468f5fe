import StateThreads.Heap.Soundness
import StateThreads.System
import Mathlib.Tactic.Simps.Basic

/-! The place of every thread. A view collects what the queues, the heap and the
thread object say about one thread; a step of the library changes the view of few
threads, and a thread is well placed when its view is consistent. -/
namespace StateThreads
open HeapTree

/-- The heap is well formed and _ST_FL_ON_SLEEPQ is set exactly for its threads. -/
def SleepQ.Flagged (q : SleepQ) : Prop :=
  ∃ tr, q.Represents tr ∧ ∀ t, t ∈ elems tr ↔ q.onSleepq t = true

theorem SleepQ.Flagged.add {q : SleepQ} (ok : q.Flagged) {t : Tid} (off : q.onSleepq t = false)
    (lastClock timeout : UTime) :
    ∃ q', stAddSleepQ q lastClock t timeout = some q' ∧ q'.Flagged ∧
      q'.onSleepq = Function.update q.onSleepq t true ∧
      q'.due = Function.update q.due t (lastClock + timeout) := by
  obtain ⟨tr, rep, flag⟩ := ok
  have fresh : t ∉ elems tr := by rw [flag, off]; decide
  obtain ⟨q', tr', run, rep', perm, due, on⟩ := stAddSleepQ_spec rep fresh lastClock timeout
  refine ⟨q', run, ⟨tr', rep', fun u => ?_⟩, on, due⟩
  rw [perm.mem_iff, List.mem_cons, flag, on]
  by_cases h : u = t <;> simp [h]

theorem SleepQ.Flagged.del {q : SleepQ} (ok : q.Flagged) {t : Tid} (on : q.onSleepq t = true) :
    ∃ q', stDelSleepQ q t = some q' ∧ q'.Flagged ∧ q'.onSleepq = Function.update q.onSleepq t false ∧
      q'.due = q.due ∧ q'.sleepqSize + 1 = q.sleepqSize := by
  obtain ⟨tr, rep, flag⟩ := ok
  have member : t ∈ elems tr := (flag t).mpr on
  obtain ⟨q', tr', run, rep', perm, due, off⟩ := stDelSleepQ_spec rep member
  have distinct : (t :: elems tr').Nodup := perm.nodup_iff.mpr rep.distinct
  refine ⟨q', run, ⟨tr', rep', fun u => ?_⟩, off, due, ?_⟩
  · have same := perm.mem_iff (a := u)
    rw [flag, List.mem_cons] at same
    rw [off]
    by_cases h : u = t
    · subst h; simpa using (List.nodup_cons.mp distinct).1
    · rw [Function.update_of_ne h, ← same]; simp [h]
  · rw [← rep'.count, ← rep.count, ← perm.length_eq, List.length_cons]

/- Blocked: off the run queue until some other thread or the clock acts. -/
def ThreadState.blocked : ThreadState → Bool
  | .ioWait | .lockWait | .condWait | .sleeping | .suspended => true
  | .running | .runnable | .zombie => false

def Context.fits : Context → ThreadState → Bool
  | .unborn, s | .gone, s => s = .running
  | .fresh, s | .idle, s => s = .runnable || s = .running
  | .user, s => s = .running
  | .usleep, s => s = .sleeping || s = .suspended || s = .runnable || s = .running
  | .poll, s => s = .ioWait || s = .runnable || s = .running
  | .cond _ _, s => s = .condWait || s = .runnable || s = .running
  | .lock _, s => s = .lockWait || s = .runnable || s = .running
  | .exiting, s => s = .zombie || s = .runnable || s = .running

def Context.live (c : Context) : Bool := c ≠ .unborn && c ≠ .gone

def Context.waitsCond : Context → CondId → Bool
  | .cond c _, d => c = d
  | _, _ => false

def Context.waitsLock : Context → MutexId → Bool
  | .lock m, n => m = n
  | _, _ => false

def Context.inCond : Context → Bool
  | .cond _ _ => true
  | _ => false

structure View where
  thread : Thread
  onSleepq : Bool
  onIoq : Bool
  run : Nat
  zombie : Nat
  io : Nat
  cond : CondId → Nat
  lock : MutexId → Nat
  running : Bool
  idle : Bool

/-- The view of t when r is the thread that runs, none between a context switch away
from one thread and the choice of the next. -/
@[simps]
def Vp.view (vp : Vp) (r : Option Tid) (t : Tid) : View where
  thread := vp.thr t
  onSleepq := vp.sleepQ.onSleepq t
  onIoq := (vp.pollq t).onIoq
  run := vp.runQ.count t
  zombie := vp.zombieQ.count t
  io := vp.ioQ.count t
  cond c := (vp.cond c).waitQ.count t
  lock m := (vp.mutex m).waitQ.count t
  running := r == some t
  idle := t == vp.idleThread

structure View.Ok (v : View) : Prop where
  run : v.run = if v.thread.context.live ∧ v.thread.state = .runnable ∧ v.thread.context ≠ .idle then 1 else 0
  zombie : v.zombie = if v.thread.context.live ∧ v.thread.state = .zombie then 1 else 0
  io : v.io = if v.thread.context = .poll ∧ v.onIoq then 1 else 0
  cond : ∀ c, v.cond c = if v.thread.context.waitsCond c then 1 else 0
  lock : ∀ m, v.lock m = if v.thread.context.waitsLock m then 1 else 0
  fits : v.thread.context.fits v.thread.state = true
  running : v.running = true ↔ v.thread.context.live ∧ v.thread.state = .running
  polled : v.thread.context.live → v.thread.state = .ioWait → v.onIoq = true
  timed : v.onSleepq = true → v.thread.context.live ∧
    (v.thread.state = .ioWait ∨ v.thread.state = .condWait ∨ v.thread.state = .sleeping)
  asleep : v.thread.context.live → v.thread.state = .sleeping → v.onSleepq = true
  timedout : v.thread.flags.timedout = true → v.thread.context.inCond = true ∧ v.thread.state.blocked = false
  interrupt : v.thread.context.live → v.thread.state.blocked = true → v.thread.flags.interrupt = false
  idle : v.idle = true ↔ v.thread.context = .idle
  flag : v.thread.flags.idleThread = true ↔ v.thread.context = .idle
  term : v.thread.context = .exiting → v.thread.term ≠ none

theorem View.Ok.once {v : View} (ok : v.Ok) :
    v.run ≤ 1 ∧ v.zombie ≤ 1 ∧ v.io ≤ 1 ∧ (∀ c, v.cond c ≤ 1) ∧ ∀ m, v.lock m ≤ 1 := by
  refine ⟨?_, ?_, ?_, fun c => ?_, fun m => ?_⟩
  · rw [ok.run]; split <;> omega
  · rw [ok.zombie]; split <;> omega
  · rw [ok.io]; split <;> omega
  · rw [ok.cond]; split <;> omega
  · rw [ok.lock]; split <;> omega

/-- What the threads and the synchronisation objects know of each other: only an
allocated object has waiters, and a termination variable belongs to one thread. -/
structure Objects (vp : Vp) : Prop where
  conds : ∀ c, (vp.cond c).waitQ ≠ [] → (vp.cond c).life = .allocated
  mutexes : ∀ m, (vp.mutex m).waitQ ≠ [] → (vp.mutex m).life = .allocated
  terms : ∀ t c, (vp.thr t).term = some c → (vp.cond c).life = .allocated ∧ (vp.cond c).termination = true
  owners : ∀ t u c, (vp.thr t).term = some c → (vp.thr u).term = some c → t = u

structure Inv (vp : Vp) (r : Option Tid) : Prop where
  views : ∀ t, (vp.view r t).Ok
  heap : vp.sleepQ.Flagged
  objects : Objects vp

theorem Objects.same {vp vp' : Vp} (obj : Objects vp) (conds : vp'.cond = vp.cond)
    (mutexes : vp'.mutex = vp.mutex) (terms : ∀ t, (vp'.thr t).term = (vp.thr t).term) : Objects vp' where
  conds := by rw [conds]; exact obj.conds
  mutexes := by rw [mutexes]; exact obj.mutexes
  terms t c h := by rw [terms] at h; rw [conds]; exact obj.terms t c h
  owners t u c ht hu := by rw [terms] at ht hu; exact obj.owners t u c ht hu

theorem Objects.setThr {vp : Vp} (obj : Objects vp) {t : Tid} (th : Thread)
    (term : th.term = (vp.thr t).term) : Objects (vp.setThr t th) := by
  refine obj.same rfl rfl fun u => ?_
  by_cases h : u = t
  · subst h; simpa [Vp.setThr] using term
  · simp [Vp.setThr, h]

theorem Objects.setWaitQ {vp : Vp} (obj : Objects vp) {c : CondId} {q : List Tid}
    (held : q ≠ [] → (vp.cond c).life = .allocated) :
    Objects (vp.setCond c { vp.cond c with waitQ := q }) where
  conds d h := by
    by_cases hd : d = c
    · subst hd
      simp only [Vp.setCond, Function.update_self] at h ⊢
      exact held h
    · simp only [Vp.setCond, Function.update_of_ne hd] at h ⊢
      exact obj.conds d h
  mutexes := obj.mutexes
  terms t d h := by
    have known := obj.terms t d h
    by_cases hd : d = c
    · subst hd; simpa [Vp.setCond] using known
    · simpa [Vp.setCond, hd] using known
  owners := obj.owners

theorem Objects.setMutex {vp : Vp} (obj : Objects vp) {m : MutexId} {mx : Mutex}
    (held : mx.waitQ ≠ [] → mx.life = .allocated) : Objects (vp.setMutex m mx) where
  conds := obj.conds
  mutexes n h := by
    by_cases hn : n = m
    · subst hn
      simp only [Vp.setMutex, Function.update_self] at h ⊢
      exact held h
    · simp only [Vp.setMutex, Function.update_of_ne hn] at h ⊢
      exact obj.mutexes n h
  terms := obj.terms
  owners := obj.owners

theorem Inv.change {vp vp' : Vp} {r r' : Option Tid} (inv : Inv vp r) (t : Tid)
    (others : ∀ u, u ≠ t → vp'.view r' u = vp.view r u) (self : (vp'.view r' t).Ok)
    (heap : vp'.sleepQ.Flagged) (objects : Objects vp') : Inv vp' r' where
  views u := by
    by_cases h : u = t
    · subst h; exact self
    · rw [others u h]; exact inv.views u
  heap := heap
  objects := objects

/- Views of a thread before and after it moves. -/

theorem ThreadState.blocked_spec {s : ThreadState} (h : s.blocked = true) :
    s ≠ .runnable ∧ s ≠ .running ∧ s ≠ .zombie := by
  cases s <;> simp_all [ThreadState.blocked]

theorem Context.fits_blocked {c : Context} {s : ThreadState} (live : c.live = true) (fits : c.fits s = true)
    (blocked : s.blocked = true) : c.fits .runnable = true ∧ c ≠ .idle := by
  cases c <;> cases s <;> simp_all [ThreadState.blocked, Context.fits, Context.live]

theorem View.Ok.wake {v : View} (ok : v.Ok) (flags : Flags) (live : v.thread.context.live = true)
    (blocked : v.thread.state.blocked = true) (idle : flags.idleThread = v.thread.flags.idleThread)
    (timedout : flags.timedout = true → v.thread.context.inCond = true) :
    View.Ok { v with
      thread := { v.thread with state := .runnable, flags := flags }, run := v.run + 1, onSleepq := false } := by
  obtain ⟨notRunnable, notRunning, notZombie⟩ := ThreadState.blocked_spec blocked
  obtain ⟨fits, notIdle⟩ := Context.fits_blocked live ok.fits blocked
  have run := ok.run
  have zombie := ok.zombie
  have running := ok.running
  simp only [notRunnable, notRunning, notZombie, false_and, and_false, if_false] at run zombie running
  constructor
  case io => exact ok.io
  case cond => exact ok.cond
  case lock => exact ok.lock
  case idle => exact ok.idle
  case flag => simpa only [idle] using ok.flag
  case term => exact ok.term
  case fits => exact fits
  case timedout => exact fun h => ⟨timedout h, rfl⟩
  all_goals simp_all [ThreadState.blocked]

theorem Context.fits_running {c : Context} (fits : c.fits .runnable = true) : c.fits .running = true := by
  cases c <;> simp_all [Context.fits]

theorem View.Ok.pick {v : View} (ok : v.Ok) (live : v.thread.context.live = true)
    (runnable : v.thread.state = .runnable) :
    View.Ok { v with
      thread := { v.thread with state := .running }
      run := if v.thread.context = .idle then v.run else v.run - 1
      running := true } := by
  have run := ok.run
  have zombie := ok.zombie
  simp only [runnable, live, true_and] at run zombie
  constructor
  case io => exact ok.io
  case cond => exact ok.cond
  case lock => exact ok.lock
  case idle => exact ok.idle
  case flag => exact ok.flag
  case term => exact ok.term
  case fits => exact Context.fits_running (runnable ▸ ok.fits)
  case timed => intro h; have := ok.timed h; simp_all
  case timedout => exact fun h => ⟨(ok.timedout h).1, rfl⟩
  all_goals simp_all [ThreadState.blocked]

structure View.Free (v : View) : Prop where
  run : v.run = 0
  zombie : v.zombie = 0
  io : v.io = 0
  cond : ∀ c, v.cond c = 0
  lock : ∀ m, v.lock m = 0
  onSleepq : v.onSleepq = false
  timedout : v.thread.flags.timedout = false
  running : v.thread.state = .running
  idle : v.idle = false
  flag : v.thread.flags.idleThread = false

theorem View.Ok.free {v : View} (ok : v.Ok) (user : v.thread.context = .user) : v.Free := by
  have running : v.thread.state = .running := by simpa [Context.fits, user] using ok.fits
  constructor
  case run => simpa [user, running] using ok.run
  case zombie => simpa [user, running] using ok.zombie
  case io => simpa [user] using ok.io
  case cond => intro c; simpa [user, Context.waitsCond] using ok.cond c
  case lock => intro m; simpa [user, Context.waitsLock] using ok.lock m
  case onSleepq => have := ok.timed; simpa [running] using this
  case timedout => have := ok.timedout; simpa [user, Context.inCond] using this
  case running => exact running
  case idle => have := ok.idle; simpa [user] using this
  case flag => have := ok.flag; simpa [user] using this

theorem View.Free.park {v : View} (free : v.Free) {state : ThreadState} {context : Context} {onSleepq onIoq : Bool}
    {io : Nat} {cond : CondId → Nat} {lock : MutexId → Nat}
    (fits : context.fits state = true) (blocked : state.blocked = true) (live : context.live = true)
    (interrupt : v.thread.flags.interrupt = false)
    (inIo : io = if context = .poll ∧ onIoq then 1 else 0)
    (inCond : ∀ c, cond c = if context.waitsCond c then 1 else 0)
    (inLock : ∀ m, lock m = if context.waitsLock m then 1 else 0)
    (polled : state = .ioWait → onIoq = true)
    (timed : onSleepq = true → state = .ioWait ∨ state = .condWait ∨ state = .sleeping)
    (asleep : state = .sleeping → onSleepq = true) :
    View.Ok { v with
      thread := { v.thread with state := state, context := context }
      onSleepq := onSleepq, onIoq := onIoq, io := io, cond := cond, lock := lock, running := false } := by
  obtain ⟨notRunnable, notRunning, notZombie⟩ := ThreadState.blocked_spec blocked
  obtain ⟨-, notIdle⟩ := Context.fits_blocked live fits blocked
  have notExiting : context ≠ .exiting := by
    rintro rfl
    cases state <;> simp_all [Context.fits, ThreadState.blocked]
  constructor
  case io => exact inIo
  case cond => exact inCond
  case lock => exact inLock
  case fits => exact fits
  case polled => exact fun _ => polled
  case timed => exact fun h => ⟨live, timed h⟩
  case asleep => exact fun _ => asleep
  case run => simp [notRunnable, free.run]
  case zombie => simp [notZombie, free.zombie]
  case running => simp [notRunning]
  case timedout => simp [free.timedout]
  case interrupt => simp [interrupt]
  case idle => simp [notIdle, free.idle]
  case flag => simp [notIdle, free.flag]
  case term => exact fun h => absurd h notExiting

theorem View.Ok.unpark {v : View} (ok : v.Ok) (running : v.running = true)
    (resumes : v.thread.context.resumes = true) {flags : Flags} {onIoq : Bool} {io : Nat}
    {cond : CondId → Nat} {lock : MutexId → Nat}
    (idle : flags.idleThread = v.thread.flags.idleThread) (timedout : flags.timedout = false)
    (noIo : io = 0) (noCond : ∀ c, cond c = 0) (noLock : ∀ m, lock m = 0) :
    View.Ok { v with
      thread := { v.thread with context := .user, flags := flags }
      onIoq := onIoq, io := io, cond := cond, lock := lock } := by
  obtain ⟨live, state⟩ := ok.running.mp running
  have notIdle : v.thread.context ≠ .idle := by rintro h; simp [h, Context.resumes] at resumes
  have run := ok.run
  have zombie := ok.zombie
  have timed := ok.timed
  have noted := ok.idle
  have flag := ok.flag
  simp only [state, live, reduceCtorEq, false_and, and_false, if_false, or_self, imp_false] at run zombie timed
  simp only [notIdle, iff_false, Bool.not_eq_true] at noted flag
  constructor
  case io => simpa using noIo
  case cond => simpa [Context.waitsCond] using noCond
  case lock => simpa [Context.waitsLock] using noLock
  case running => simp [running, state, Context.live]
  all_goals simp_all [Context.fits, ThreadState.blocked]

theorem View.Ok.finish {v : View} (ok : v.Ok) (running : v.running = true)
    (last : v.thread.context = .user ∨ v.thread.context = .exiting) (term : Option CondId) :
    View.Ok { v with thread := { v.thread with context := .gone, term := term }, running := false } := by
  obtain ⟨live, state⟩ := ok.running.mp running
  have run := ok.run
  have zombie := ok.zombie
  have io := ok.io
  have cond := ok.cond
  have lock := ok.lock
  have timed := ok.timed
  have timedout := ok.timedout
  have noted := ok.idle
  have flag := ok.flag
  constructor
  all_goals obtain h | h := last <;>
    simp_all [Context.fits, Context.live, Context.waitsCond, Context.waitsLock, Context.inCond]

theorem View.Free.die {v : View} (free : v.Free) (retval : Nat) (joinable : v.thread.term ≠ none) :
    View.Ok { v with
      thread := { v.thread with state := .zombie, context := .exiting, retval := retval }
      zombie := v.zombie + 1, running := false } := by
  constructor
  case run => simp [free.run]
  case zombie => simp [free.zombie, Context.live]
  case io => simp [free.io]
  case cond => simp [free.cond, Context.waitsCond]
  case lock => simp [free.lock, Context.waitsLock]
  case timedout => simp [free.timedout]
  case timed => simp [free.onSleepq]
  case idle => simp [free.idle]
  case flag => simp [free.flag]
  case term => exact fun _ => joinable
  all_goals simp [Context.fits, ThreadState.blocked]

theorem View.Ok.reap {v : View} (ok : v.Ok) (live : v.thread.context.live = true)
    (zombie : v.thread.state = .zombie) :
    v.thread.context = .exiting ∧ v.run = 0 ∧ v.zombie = 1 ∧ View.Ok { v with
      thread := { v.thread with state := .runnable }, run := v.run + 1, zombie := v.zombie - 1 } := by
  have exiting : v.thread.context = .exiting := by
    have fits := ok.fits
    rw [zombie] at fits
    cases h : v.thread.context <;> simp_all [Context.fits, Context.live]
  have run : v.run = 0 := by simpa [zombie] using ok.run
  have reaped : v.zombie = 1 := by simpa [zombie, live] using ok.zombie
  refine ⟨exiting, run, reaped, ?_⟩
  have running := ok.running
  have timed := ok.timed
  constructor
  case io => exact ok.io
  case cond => exact ok.cond
  case lock => exact ok.lock
  case idle => exact ok.idle
  case flag => exact ok.flag
  case term => exact ok.term
  case timedout => exact fun h => ⟨(ok.timedout h).1, rfl⟩
  all_goals simp_all [Context.fits, ThreadState.blocked, Context.live]

theorem View.Ok.create {v : View} (ok : v.Ok) (unborn : v.thread.context = .unborn) (term : Option CondId) :
    v.run = 0 ∧ v.zombie = 0 ∧ View.Ok { v with
      thread := ⟨.runnable, ⟨false, false, false, false⟩, 0, term, .fresh⟩, run := v.run + 1 } := by
  have run : v.run = 0 := by simpa [unborn, Context.live] using ok.run
  have zombie : v.zombie = 0 := by simpa [unborn, Context.live] using ok.zombie
  refine ⟨run, zombie, ?_⟩
  have io := ok.io
  have cond := ok.cond
  have lock := ok.lock
  have running := ok.running
  have timed := ok.timed
  have noted := ok.idle
  constructor
  all_goals simp_all [Context.fits, Context.live, ThreadState.blocked, Context.waitsCond, Context.waitsLock]

theorem View.Ok.notified {v : View} (ok : v.Ok) (runnable : v.thread.state = .runnable) :
    View.Ok { v with onIoq := false, io := 0 } where
  run := ok.run
  zombie := ok.zombie
  io := by simp
  cond := ok.cond
  lock := ok.lock
  fits := ok.fits
  running := ok.running
  polled _ h := by simp [runnable] at h
  timed := ok.timed
  asleep := ok.asleep
  timedout := ok.timedout
  interrupt := ok.interrupt
  idle := ok.idle
  flag := ok.flag
  term := ok.term

theorem View.Ok.rest {v : View} (ok : v.Ok) (idle : v.thread.context = .idle) (running : v.running = true) :
    View.Ok { v with thread := { v.thread with state := .runnable }, running := false } := by
  obtain ⟨live, state⟩ := ok.running.mp running
  have run := ok.run
  have zombie := ok.zombie
  have timed := ok.timed
  constructor
  case io => exact ok.io
  case cond => exact ok.cond
  case lock => exact ok.lock
  case idle => exact ok.idle
  case flag => exact ok.flag
  case term => exact ok.term
  case timedout => exact fun h => ⟨(ok.timedout h).1, rfl⟩
  all_goals simp_all [Context.fits, ThreadState.blocked, Context.live]

theorem View.Ok.flags {v : View} (ok : v.Ok) (flags : Flags) (awake : v.thread.state.blocked = false)
    (idle : flags.idleThread = v.thread.flags.idleThread)
    (timedout : flags.timedout = true → v.thread.flags.timedout = true) :
    View.Ok { v with thread := { v.thread with flags := flags } } where
  run := ok.run
  zombie := ok.zombie
  io := ok.io
  cond := ok.cond
  lock := ok.lock
  fits := ok.fits
  running := ok.running
  polled := ok.polled
  timed := ok.timed
  asleep := ok.asleep
  timedout h := ok.timedout (timedout h)
  interrupt _ h := by simp [awake] at h
  idle := ok.idle
  flag := by simpa only [idle] using ok.flag
  term := ok.term

end StateThreads
