import StateThreads.Contract.Calls

/-! Mutexes over whole runs: who owns one, how ownership moves, and what the lock calls
report. -/
namespace StateThreads
open LabelledRun
open scoped List

variable {σ ω : Type}

def Vp.owner (vp : Vp) (m : MutexId) : Option Tid := (vp.mutex m).owner

def Vp.LockWaits (vp : Vp) (m : MutexId) (t : Tid) : Prop :=
  t ∈ (vp.mutex m).waitQ ∧ (vp.thr t).state = .lockWait

/-- The number of latest steps through which t has been in LOCK_WAIT. -/
def lockWaited (hist : List (SysEvent σ ω)) (t : Tid) : Nat :=
  (hist.takeWhile fun e => (e.post.vp.thr t).state = .lockWait).length

def SysEvent.Unlocks (e : SysEvent σ ω) (m : MutexId) (t : Tid) : Prop :=
  e.actor = t ∧ e.label = .call (.mutexUnlock m) ∧ e.out = some (.value 0)

/-- The mutex was handed to u, whose lock call has yet to go on. -/
structure Vp.Handed (vp : Vp) (m : MutexId) (u : Tid) : Prop where
  owner : vp.owner m = some u
  place : (vp.thr u).context = .lock m
  awake : (vp.thr u).state = .runnable ∨ (vp.thr u).state = .running

variable {E : EventSys σ ω} {hist older : List (SysEvent σ ω)} {s : System σ} {e : SysEvent σ ω} {m : MutexId}

theorem Stepped.unlock (stepped : Stepped e) (cause : e.label = .call (.mutexUnlock m)) :
    (e.pre.vp.owner m ≠ some e.actor ∧ e.out = some (.fail .eperm)) ∨
    e.pre.vp.owner m = some e.actor ∧ e.out = some (.value 0) ∧
      ((∃ u, lockWaiter e.pre.vp (e.pre.vp.mutex m).waitQ = some u ∧ e.post.vp.owner m = some u ∧
          (e.post.vp.thr u).context = (e.pre.vp.thr u).context ∧
          ((e.post.vp.thr u).state = .runnable ∨ (e.post.vp.thr u).state = .running)) ∨
        (lockWaiter e.pre.vp (e.pre.vp.mutex m).waitQ = none ∧ e.post.vp.owner m = none)) := by
  obtain ⟨vp', switch, post, move, -⟩ := stepped.move
  rw [cause] at move
  generalize result : e.out = out at move
  cases move with
  | notOwner owner => exact .inl ⟨owner, rfl⟩
  | interrupted blocks flag => cases blocks
  | @handsOver lock u owner waiter =>
    refine .inr ⟨owner, rfl, .inl ⟨u, waiter, ?_, ?_, ?_⟩⟩ <;>
      simp [post, Vp.owner, Vp.after, Vp.woken, Vp.setOwner, Vp.setMutex]
  | releases owner waiter =>
    refine .inr ⟨owner, rfl, .inr ⟨waiter, ?_⟩⟩
    simp [post, Vp.owner, Vp.after, Vp.setOwner, Vp.setMutex]

theorem Stepped.owner (stepped : Stepped e) (m : MutexId) :
    (e.post.vp.owner m = e.pre.vp.owner m ∧ (∀ t, ¬ e.Unlocks m t)) ∨
    ((e.pre.vp.mutex m).life = .unborn ∧ e.post.vp.owner m = none) ∨
    (e.pre.vp.owner m = none ∧ e.post.vp.owner m = some e.actor ∧ e.out = some (.value 0) ∧
      (e.label = .call (.mutexLock m) ∨ e.label = .call (.mutexTrylock m))) ∨
    e.Unlocks m e.actor := by
  by_cases unlocks : e.label = .call (.mutexUnlock m) ∧ e.out = some (.value 0)
  · exact .inr (.inr (.inr ⟨rfl, unlocks⟩))
  · have quiet : ∀ t, ¬ e.Unlocks m t := fun t h => unlocks h.2
    have touched := stepped.mutex m
    unfold Vp.owner
    generalize e.post.vp.mutex m = mx at touched
    cases touched with
    | same => exact .inl ⟨rfl, quiet⟩
    | created cause fresh => exact .inr (.inl ⟨fresh, rfl⟩)
    | destroyed cause owner empty => exact .inl ⟨rfl, quiet⟩
    | acquired cause owner result => exact .inr (.inr (.inl ⟨owner, rfl, result, cause⟩))
    | queued cause held other result => exact .inl ⟨rfl, quiet⟩
    | handed cause owner waiter result => exact absurd ⟨cause, result⟩ unlocks
    | released cause owner waiter result => exact absurd ⟨cause, result⟩ unlocks
    | left cause place => exact .inl ⟨rfl, quiet⟩

structure LockInv (vp : Vp) : Prop where
  waits : ∀ t m, (vp.thr t).context = .lock m → (vp.thr t).state = .lockWait →
    vp.owner m ≠ none ∧ vp.owner m ≠ some t
  awake : ∀ t m, (vp.thr t).context = .lock m → (vp.thr t).state ≠ .lockWait →
    (vp.thr t).flags.interrupt = true ∨ vp.owner m = some t
  unborn : ∀ m, (vp.mutex m).life = .unborn → vp.owner m = none

theorem Inv.lock_mem {vp : Vp} {r : Option Tid} (inv : Inv vp r) {t : Tid}
    (place : (vp.thr t).context = .lock m) : t ∈ (vp.mutex m).waitQ := by
  have count := (inv.views t).lock m
  simp only [Vp.view, place, Context.waitsLock, decide_true, if_true] at count
  exact List.count_pos_iff.mp (by omega)

theorem lockWaiter_none {vp : Vp} {q : List Tid} (none : lockWaiter vp q = none) {t : Tid} (ht : t ∈ q) :
    (vp.thr t).state ≠ .lockWait := by
  simpa using List.find?_eq_none.mp none t ht

theorem Stepped.lockPlace (stepped : Stepped e) {t : Tid} (place : (e.post.vp.thr t).context = .lock m) :
    (e.pre.vp.thr t).context = .lock m ∨
      t = e.actor ∧ e.label = .call (.mutexLock m) ∧ (e.post.vp.thr t).state = .lockWait ∧
        e.pre.vp.owner m ≠ none ∧ e.pre.vp.owner m ≠ some t := by
  by_cases h : t = e.actor
  · subst h
    obtain ⟨th, acted, picked⟩ := stepped.self
    rw [picked.context] at place
    cases acted with
    | @parked state context where_ flag result =>
      simp only at place
      subst place
      generalize cause : e.label = l at where_
      cases where_ with
      | lock held other =>
        refine .inr ⟨rfl, rfl, ?_, held, other⟩
        rw [picked.state (by simp)]
    | same | cleared | flagged | idled => exact .inl place
    | _ => cases place
  · obtain ⟨th, touched, picked⟩ := stepped.other t h
    rw [picked.context] at place
    obtain same | ⟨-, fresh⟩ := touched.context
    · exact .inl (same ▸ place)
    · rw [fresh] at place
      cases place

theorem Stepped.lockState (stepped : Stepped e) {t : Tid} (place : (e.pre.vp.thr t).context = .lock m)
    (stays : (e.post.vp.thr t).context = .lock m) :
    ((e.post.vp.thr t).flags = (e.pre.vp.thr t).flags ∧
      ((e.post.vp.thr t).state = .lockWait ↔ (e.pre.vp.thr t).state = .lockWait)) ∨
    ((e.post.vp.thr t).flags.interrupt = true ∧ (e.post.vp.thr t).state ≠ .lockWait) ∨
    (e.label = .call (.mutexUnlock m) ∧ lockWaiter e.pre.vp (e.pre.vp.mutex m).waitQ = some t ∧
      e.pre.vp.owner m = some e.actor ∧ (e.post.vp.thr t).state ≠ .lockWait) := by
  have waits : ThreadState.lockWait ≠ .running ∧ ThreadState.lockWait ≠ .runnable := by decide
  by_cases h : t = e.actor
  · subst h
    obtain ⟨th, acted, picked⟩ := stepped.self
    have called : ∀ op, e.label ≠ .call op := fun op cause => by
      have user := stepped.user op cause
      rw [place] at user
      cases user
    rw [picked.context] at stays
    rw [picked.flags, picked.state waits]
    cases acted with
    | same quiet returned call => exact .inl ⟨rfl, Iff.rfl⟩
    | cleared cause => exact absurd cause (called _)
    | flagged cause => exact absurd cause (called _)
    | parked where_ =>
      obtain ⟨op, cause, -⟩ := where_.waitsAt
      exact absurd cause (called _)
    | idled cause idle => cases idle.symm.trans place
    | _ => cases stays
  · obtain ⟨th, touched, picked⟩ := stepped.other t h
    rw [picked.context] at stays
    rw [picked.flags, Ne, picked.state waits]
    have ok := stepped.pre.inv.views t
    cases touched with
    | same => exact .inl ⟨rfl, Iff.rfl⟩
    | flagged => exact .inr (.inl ⟨rfl, by rename_i awake; obtain a | a := awake <;> simp [a]⟩)
    | reaped zombie =>
      have fits := ok.fits
      simp [Vp.view, place, zombie, Context.fits] at fits
    | created => cases stays
    | woken live blocked why =>
      cases why with
      | interrupt cause => exact .inr (.inl ⟨rfl, by simp⟩)
      | signal state waiting => rw [place] at waiting; cases waiting
      | ready cause polls =>
        have polling := polls.1
        rw [place] at polling
        cases polling
      | @handOver n cause waiting state first owner =>
        rw [place] at waiting
        cases waiting
        exact .inr (.inr ⟨cause, first, owner, by simp⟩)
      | timer cause on =>
        have timed := (ok.timed on).2
        have fits := ok.fits
        simp only [Vp.view, place] at timed fits
        obtain state | state | state := timed <;> simp [state, Context.fits] at fits

section
variable (before : LockInv e.pre.vp) (stepped : Stepped e)
include before stepped

theorem LockInv.waits_step {t : Tid} {m : MutexId} (place : (e.post.vp.thr t).context = .lock m)
    (state : (e.post.vp.thr t).state = .lockWait) : e.post.vp.owner m ≠ none ∧ e.post.vp.owner m ≠ some t := by
  obtain held | ⟨rfl, cause, -, held, other⟩ := stepped.lockPlace place
  · obtain ⟨-, same⟩ | ⟨-, awake⟩ | ⟨-, -, -, awake⟩ := stepped.lockState held place
    · have waiting := same.mp state
      obtain ⟨owned, other⟩ := before.waits t m held waiting
      obtain ⟨keeps, -⟩ | ⟨life, -⟩ | ⟨free, -⟩ | unlocks := stepped.owner m
      · rw [keeps]; exact ⟨owned, other⟩
      · exact absurd (before.unborn m life) owned
      · exact absurd free owned
      · obtain ⟨-, result⟩ | ⟨-, -, ⟨u, -, owner, -, awake⟩ | ⟨none, -⟩⟩ := stepped.unlock unlocks.2.1
        · rw [unlocks.2.2] at result
          cases result
        · rw [owner]
          refine ⟨by simp, ?_⟩
          rintro ⟨rfl⟩
          rw [state] at awake
          obtain h | h := awake <;> cases h
        · exact absurd waiting (lockWaiter_none none (stepped.pre.inv.lock_mem held))
    · exact absurd state awake
    · exact absurd state awake
  · obtain ⟨keeps, -⟩ | ⟨life, -⟩ | ⟨free, -⟩ | ⟨-, unlocks, -⟩ := stepped.owner m
    · rw [keeps]; exact ⟨held, other⟩
    · exact absurd (before.unborn m life) held
    · exact absurd free held
    · rw [cause] at unlocks
      cases unlocks

theorem LockInv.awake_step {t : Tid} {m : MutexId} (place : (e.post.vp.thr t).context = .lock m)
    (state : (e.post.vp.thr t).state ≠ .lockWait) :
    (e.post.vp.thr t).flags.interrupt = true ∨ e.post.vp.owner m = some t := by
  obtain held | ⟨-, -, waiting, -⟩ := stepped.lockPlace place
  · obtain ⟨flags, same⟩ | ⟨flag, -⟩ | ⟨cause, first, owner, -⟩ := stepped.lockState held place
    · rw [flags]
      obtain flag | mine := before.awake t m held fun h => state (same.mpr h)
      · exact .inl flag
      · right
        obtain ⟨keeps, -⟩ | ⟨life, -⟩ | ⟨free, -⟩ | unlocks := stepped.owner m
        · rw [keeps]; exact mine
        · rw [before.unborn m life] at mine; cases mine
        · rw [free] at mine; cases mine
        · -- only the owner unlocks, and it is inside st_mutex_lock
          obtain ⟨-, result⟩ | ⟨owner, -⟩ := stepped.unlock unlocks.2.1
          · rw [unlocks.2.2] at result
            cases result
          · rw [mine] at owner
            obtain rfl := Option.some.inj owner
            have user := stepped.user _ unlocks.2.1
            rw [held] at user
            cases user
    · exact .inl flag
    · right
      obtain ⟨other, -⟩ | ⟨-, -, ⟨u, waiter, owner, -⟩ | ⟨none, -⟩⟩ := stepped.unlock cause
      · exact absurd owner other
      · rw [first] at waiter
        rw [owner, Option.some.inj waiter]
      · rw [first] at none
        cases none
  · exact absurd waiting state

theorem LockInv.unborn_step (fired : e.Fired (machine E)) {m : MutexId} (life : (e.post.vp.mutex m).life = .unborn) :
    e.post.vp.owner m = none := by
  have touched := stepped.mutex m
  unfold Vp.owner
  generalize e.post.vp.mutex m = mx at touched life
  cases touched with
  | same => exact before.unborn m life
  | created | released => rfl
  | destroyed => cases life
  | acquired cause owner result =>
    obtain cause | cause := cause <;>
    · have ok := SysRun.callable fired cause
      simp only [callable, decide_eq_true_eq] at ok
      rw [ok] at life
      cases life
  | queued => exact before.unborn m life
  | handed cause owner =>
    have none : (e.pre.vp.mutex m).owner = none := before.unborn m life
    rw [none] at owner
    cases owner
  | left => exact before.unborn m life

theorem LockInv.step (fired : e.Fired (machine E)) : LockInv e.post.vp where
  waits _ _ place state := before.waits_step stepped place state
  awake _ _ place state := before.awake_step stepped place state
  unborn _ life := before.unborn_step stepped fired life

end

theorem SysRun.lockInv (run : SysRun E hist s) : LockInv s.vp := by
  refine run.induct (P := fun _ s => LockInv s.vp) ?_ ?_
  · intro s started
    have blank := started.blank
    refine ⟨fun t m place => ?_, fun t m place => ?_, fun m _ => by rw [Vp.owner, blank.mutex]⟩ <;>
    · have outside := blank.place t
      rw [place] at outside
      cases outside
  · intro hist e before kept fired
    exact kept.step (SysRun.stepped before fired) fired

theorem LockInv.keeps (before : LockInv e.pre.vp) (stepped : Stepped e) {t : Tid}
    (mine : e.pre.vp.owner m = some t) : e.post.vp.owner m = some t ∨ e.Unlocks m t := by
  obtain ⟨keeps, -⟩ | ⟨life, -⟩ | ⟨free, -⟩ | ⟨actor, cause, result⟩ := stepped.owner m
  · exact .inl (keeps.trans mine)
  · rw [before.unborn m life] at mine; cases mine
  · rw [free] at mine; cases mine
  · obtain ⟨-, refused⟩ | ⟨owner, -⟩ := stepped.unlock cause
    · rw [result] at refused
      cases refused
    · rw [mine] at owner
      exact .inr ⟨(Option.some.inj owner).symm, cause, result⟩

theorem SysRun.lockCall (run : SysRun E hist s) {t : Tid} (place : (s.vp.thr t).context = .lock m) :
    ∃ b, lastCall hist t = some b ∧ b.pre.vp.owner m ≠ some t := by
  refine run.induct (P := fun hist s => ∀ t, (s.vp.thr t).context = .lock m →
    ∃ b, lastCall hist t = some b ∧ b.pre.vp.owner m ≠ some t) ?_ ?_ t place
  · intro s started t place
    have outside := started.blank.place t
    rw [place] at outside
    cases outside
  · intro hist e before kept fired t place
    have stepped := SysRun.stepped before fired
    obtain held | ⟨rfl, cause, -, -, other⟩ := stepped.lockPlace place
    · obtain ⟨b, call, other⟩ := kept t held
      refine ⟨b, ?_, other⟩
      by_cases h : t = SysEvent.actor e
      · subst h
        rw [lastCall_quiet, call]
        cases cause : e.label with
        | call op =>
          have user := stepped.user op cause
          rw [held] at user
          cases user
        | _ => rfl
      · rw [lastCall_other h, call]
    · exact ⟨e, lastCall_call cause, other⟩

/- The order of the waiters. -/

def lockQueue (vp : Vp) (m : MutexId) : List Tid :=
  (vp.mutex m).waitQ.filter fun t => (vp.thr t).state = .lockWait

theorem Stepped.lockWaits (stepped : Stepped e) {t : Tid} (queued : t ∈ (e.pre.vp.mutex m).waitQ)
    (state : (e.post.vp.thr t).state = .lockWait) : (e.pre.vp.thr t).state = .lockWait := by
  have held := stepped.pre.inv.lockQ_context queued
  have fits := (stepped.post.inv.views t).fits
  simp only [Vp.view, state] at fits
  have place : (e.post.vp.thr t).context = .lock m := by
    cases place : (e.post.vp.thr t).context with
    | lock n =>
      obtain same | ⟨rfl, cause, -⟩ := stepped.lockPlace place
      · exact same.symm.trans held
      · have user := stepped.user _ cause
        rw [held] at user
        cases user
    | _ => simp [place, Context.fits] at fits
  obtain ⟨-, same⟩ | ⟨-, awake⟩ | ⟨-, -, -, awake⟩ := stepped.lockState held place
  · exact same.mp state
  · exact absurd state awake
  · exact absurd state awake

theorem Stepped.lockQueue_sublist (stepped : Stepped e) {q : List Tid} (fewer : q <+ (e.pre.vp.mutex m).waitQ) :
    q.filter (fun t => (e.post.vp.thr t).state = .lockWait) <+ lockQueue e.pre.vp m := by
  refine (fewer.filter _).trans ?_
  have narrow : (e.pre.vp.mutex m).waitQ.filter (fun t => (e.post.vp.thr t).state = .lockWait) =
      (lockQueue e.pre.vp m).filter fun t => (e.post.vp.thr t).state = .lockWait := by
    rw [lockQueue, List.filter_filter]
    apply List.filter_congr
    intro t queued
    by_cases state : (e.post.vp.thr t).state = .lockWait
    · simp [state, stepped.lockWaits queued state]
    · simp [state]
  rw [narrow]
  exact List.filter_sublist

theorem Stepped.lockQueue (stepped : Stepped e) (m : MutexId) :
    lockQueue e.post.vp m <+ lockQueue e.pre.vp m ∨
      ∃ q, q <+ lockQueue e.pre.vp m ∧ lockQueue e.post.vp m = q ++ [e.actor] := by
  have touched := stepped.mutex m
  unfold StateThreads.lockQueue
  generalize e.post.vp.mutex m = mx at touched
  cases touched with
  | same | destroyed | acquired | handed | released => exact .inl (stepped.lockQueue_sublist (List.Sublist.refl _))
  | created => exact .inl (List.nil_sublist _)
  | left => exact .inl (stepped.lockQueue_sublist List.erase_sublist)
  | queued cause held other result =>
    have rest := stepped.lockQueue_sublist (m := m) (List.Sublist.refl _)
    by_cases state : (e.post.vp.thr e.actor).state = .lockWait
    · refine .inr ⟨_, rest, ?_⟩
      rw [List.filter_append]
      simp [state, show e.pre.vp.current = e.actor from rfl]
    · refine .inl ?_
      rw [List.filter_append]
      simpa [StateThreads.lockQueue, state, show e.pre.vp.current = e.actor from rfl] using rest

def LockOrder (hist : List (SysEvent σ ω)) (vp : Vp) (m : MutexId) : Prop :=
  (lockQueue vp m).Pairwise fun t u => lockWaited hist u < lockWaited hist t

theorem mem_lockQueue {vp : Vp} {t : Tid} : t ∈ lockQueue vp m ↔ vp.LockWaits m t := by
  simp [lockQueue, Vp.LockWaits]

theorem SysRun.lockOrder (run : SysRun E hist s) (m : MutexId) : LockOrder hist s.vp m := by
  refine Run.fifo (fun s => lockQueue s.vp m) (fun t s => decide ((s.vp.thr t).state = .lockWait)) ?_ ?_ ?_ run
  · intro s started
    refine ⟨by simp [lockQueue, started.blank.mutex], fun t => ?_⟩
    have state := started.blank.state t
    cases h : (s.vp.thr t).state <;> simp_all [ThreadState.blocked]
  · intro s t queued
    simpa using (mem_lockQueue.mp queued).2
  · intro hist e before fired
    have stepped := SysRun.stepped before fired
    obtain fewer | ⟨q, fewer, joined⟩ := stepped.lockQueue m
    · exact .inl fewer
    · have running : (e.pre.vp.thr (SysEvent.actor e)).state = .running := stepped.pre.inv.running.2
      exact .inr ⟨q, SysEvent.actor e, fewer, joined, by simp [running]⟩

/- The lock calls. -/

def Op.locks (op : Op) (m : MutexId) : Prop := op = .mutexLock m ∨ op = .mutexTrylock m

theorem Stepped.lockReturns (stepped : Stepped e) {op : Op} (locks : op.locks m) (cause : e.label = .call op)
    {r : Ret} (result : e.out = some r) :
    (r = .value 0 ∧ e.pre.vp.owner m = none ∧ e.post.vp.owner m = some e.actor) ∨
      (r ≠ .value 0 ∧ e.post.vp.owner m = e.pre.vp.owner m) := by
  obtain ⟨vp', switch, post, move, -⟩ := stepped.move
  rw [post]
  unfold Vp.owner
  rw [Vp.after_mutex]
  rw [cause, result] at move
  obtain rfl | rfl := locks
  · cases move with
    | interrupted => exact .inr ⟨by simp, rfl⟩
    | acquires flag owner => exact .inl ⟨rfl, owner, by simp [Vp.setOwner, Vp.setMutex, SysEvent.actor]⟩
    | deadlock => exact .inr ⟨by simp, rfl⟩
  · cases move with
    | interrupted blocks => cases blocks
    | lockBusy => exact .inr ⟨by simp, rfl⟩
    | tryAcquires owner => exact .inl ⟨rfl, owner, by simp [Vp.setOwner, Vp.setMutex, SysEvent.actor]⟩

theorem Stepped.lockResumes (stepped : Stepped e) (inv : LockInv e.pre.vp) (cause : e.label = .resume)
    (place : (e.pre.vp.thr e.actor).context = .lock m) :
    e.post.vp.owner m = e.pre.vp.owner m ∧
      (e.out = some (.value 0) ∧ e.pre.vp.owner m = some e.actor ∨
        e.out = some (.fail .eintr) ∧ e.pre.vp.owner m ≠ some e.actor) := by
  constructor
  · obtain ⟨keeps, -⟩ | ⟨life, post⟩ | ⟨-, -, -, lock | lock⟩ | ⟨-, unlock, -⟩ := stepped.owner m
    · exact keeps
    · rw [post, inv.unborn m life]
    all_goals simp_all
  · have running : (e.pre.vp.thr e.actor).state ≠ .lockWait := by
      rw [stepped.actor_running]
      decide
    have known := inv.awake _ _ place running
    obtain ⟨th, acted, -⟩ := stepped.self
    unfold SysEvent.actor at place known ⊢
    generalize e.out = out at acted
    cases acted with
    | returned _ back =>
      rw [place] at back
      cases back
      by_cases mine : e.pre.vp.owner m = some e.pre.vp.current
      · left
        simp [mine, show (e.pre.vp.mutex m).owner = _ from mine]
      · right
        obtain flag | owner := known
        · simp [flag, mine, show ¬ (e.pre.vp.mutex m).owner = _ from mine]
        · exact absurd owner mine
    | parked where_ =>
      obtain ⟨op, call, -⟩ := where_.waitsAt
      simp [cause] at call
    | _ => simp_all

structure MutexSafe (m : MutexId) (hist : List (SysEvent σ ω)) (s : System σ) : Prop where
  acquires : ∀ e older op b, (e :: older) <:+ hist → op.locks m → Completes older e op (.value 0) b →
    b.pre.vp.owner m ≠ some e.actor ∧ e.post.vp.owner m = some e.actor
  fails : ∀ e older op b error, (e :: older) <:+ hist → op.locks m → Completes older e op (.fail error) b →
    e.post.vp.owner m = some e.actor → b.pre.vp.owner m = some e.actor
  keeps : ∀ e ∈ hist, ∀ t, e.pre.vp.owner m = some t → e.post.vp.owner m ≠ some t → SysEvent.Unlocks e m t
  excludes : ∀ e' between e older op op' b b', (e' :: (between ++ e :: older)) <:+ hist → op.locks m → op'.locks m →
    Completes older e op (.value 0) b → Completes (between ++ e :: older) e' op' (.value 0) b' →
    e'.actor ≠ e.actor → ∃ n ∈ between, SysEvent.Unlocks n m e.actor
  free : s.vp.owner m = none → ∀ t, ¬ s.vp.LockWaits m t
  longest : ∀ e older t, (e :: older) <:+ hist → e.Unlocks m t →
    match e.post.vp.owner m with
    | some u => e.pre.vp.LockWaits m u ∧
        ∀ v, e.pre.vp.LockWaits m v → v ≠ u → lockWaited older v < lockWaited older u
    | none => ∀ v, ¬ e.pre.vp.LockWaits m v
  interrupted : ∀ e older b, (e :: older) <:+ hist → e.label = .resume →
    Completes older e (.mutexLock m) (.fail .eintr) b → e.post.vp.owner m ≠ some e.actor
  delivers : ∀ newer e older t u, hist = newer ++ e :: older → e.Unlocks m t → e.post.vp.owner m = some u →
    s.vp.Handed m u ∨ ∃ n ∈ newer, SysEvent.actor n = u ∧ n.label = .resume ∧ n.out = some (.value 0) ∧
      n.post.vp.owner m = some u

theorem SysRun.completes_lock (run : SysRun E older e.pre) (fired : e.Fired (machine E)) {op : Op}
    (locks : op.locks m) {r : Ret} {b : SysEvent σ ω} (done : Completes older e op r b) :
    (r = .value 0 ∧ b.pre.vp.owner m ≠ some e.actor ∧ e.post.vp.owner m = some e.actor) ∨
      (r ≠ .value 0 ∧ (e.post.vp.owner m = some e.actor → e.label ≠ .resume ∧ b.pre.vp.owner m = some e.actor)) := by
  have stepped := SysRun.stepped run fired
  obtain ⟨cause, rfl⟩ | ⟨cause, place, call⟩ := done.cases run fired
  · obtain ⟨rfl, free, mine⟩ | ⟨failed, same⟩ := stepped.lockReturns locks cause done.out
    · exact .inl ⟨rfl, by simp [free], mine⟩
    · exact .inr ⟨failed, fun mine => ⟨by simp [cause], same ▸ mine⟩⟩
  · have waits : (e.pre.vp.thr e.actor).context = .lock m := by
      obtain rfl | rfl := locks
      · cases h : (e.pre.vp.thr e.actor).context <;> simp [h, Op.waitsAt] at place
        rw [place]
      · simp [Op.waitsAt] at place
    obtain ⟨b', call', other⟩ := SysRun.lockCall run waits
    rw [call] at call'
    obtain rfl := Option.some.inj call'
    obtain ⟨same, ⟨out, mine⟩ | ⟨out, notMine⟩⟩ := stepped.lockResumes run.lockInv cause waits
    · rw [done.out] at out
      obtain rfl := Option.some.inj out
      exact .inl ⟨rfl, other, same.trans mine⟩
    · rw [done.out] at out
      obtain rfl := Option.some.inj out
      exact .inr ⟨by simp, fun mine => absurd (same ▸ mine) notMine⟩

theorem LockInv.handed (before : LockInv e.pre.vp) (stepped : Stepped e) {u : Tid} (handed : e.pre.vp.Handed m u) :
    e.post.vp.Handed m u ∨
      (e.actor = u ∧ e.label = .resume ∧ e.out = some (.value 0) ∧ e.post.vp.owner m = some u) := by
  obtain ⟨owner, place, awake⟩ := handed
  have called : u = e.actor → ∀ op, e.label ≠ .call op := by
    rintro rfl op cause
    have user := stepped.user op cause
    rw [place] at user
    cases user
  have kept : e.post.vp.owner m = some u := by
    obtain kept | ⟨mine, cause, -⟩ := before.keeps stepped owner
    · exact kept
    · exact absurd cause (called mine.symm _)
  by_cases resumes : u = e.actor ∧ e.label = .resume
  · obtain ⟨rfl, cause⟩ := resumes
    obtain ⟨same, ⟨out, -⟩ | ⟨-, other⟩⟩ := stepped.lockResumes before cause place
    · exact .inr ⟨rfl, cause, out, kept⟩
    · exact absurd owner other
  · obtain ⟨context, state, -⟩ := stepped.stays awake (by rw [place]; rfl) fun h cause => resumes ⟨h, cause⟩
    exact .inl ⟨kept, context.trans place, state⟩

theorem SysRun.longest (run : SysRun E older e.pre) (fired : e.Fired (machine E)) {t : Tid} (unlocks : e.Unlocks m t) :
    match e.post.vp.owner m with
    | some u => e.pre.vp.LockWaits m u ∧
        ∀ v, e.pre.vp.LockWaits m v → v ≠ u → lockWaited older v < lockWaited older u
    | none => ∀ v, ¬ e.pre.vp.LockWaits m v := by
  obtain ⟨-, cause, result⟩ := unlocks
  obtain ⟨-, refused⟩ | ⟨-, -, ⟨u, waiter, owner, -⟩ | ⟨none, owner⟩⟩ := (SysRun.stepped run fired).unlock cause
  · rw [result] at refused
    cases refused
  · rw [owner]
    obtain ⟨state, front, back, split, skipped⟩ := List.find?_eq_some_iff_append.mp waiter
    have queue : lockQueue e.pre.vp m = u :: back.filter fun t => (e.pre.vp.thr t).state = .lockWait := by
      have empty : front.filter (fun t => (e.pre.vp.thr t).state = .lockWait) = [] := by
        simpa using skipped
      rw [lockQueue, split, List.filter_append, empty, List.filter_cons, if_pos state, List.nil_append]
    have order := SysRun.lockOrder run m
    rw [LockOrder, queue, List.pairwise_cons] at order
    refine ⟨⟨List.mem_of_find?_eq_some waiter, by simpa using state⟩, fun v waits other => ?_⟩
    have member := mem_lockQueue.mpr waits
    rw [queue, List.mem_cons] at member
    exact order.1 v (member.resolve_left other)
  · rw [owner]
    exact fun v waits => lockWaiter_none none waits.1 waits.2

theorem SysRun.delivers {newer : List (SysEvent σ ω)} {u : Tid} (run : SysRun E (newer ++ e :: older) s)
    (handed : e.post.vp.Handed m u) :
    s.vp.Handed m u ∨ ∃ n ∈ newer, SysEvent.actor n = u ∧ n.label = .resume ∧ n.out = some (.value 0) ∧
      n.post.vp.owner m = some u := by
  induction newer generalizing s with
  | nil => cases run; exact .inl handed
  | cons n newer ih =>
    cases run with
    | next before fired =>
      obtain still | ⟨n', member, done⟩ := ih before
      · obtain still | done := (SysRun.lockInv before).handed (SysRun.stepped before fired) still
        · exact .inl still
        · exact .inr ⟨n, List.mem_cons_self .., done⟩
      · exact .inr ⟨n', List.mem_cons_of_mem _ member, done⟩

/-- Mutex safety over every run, whatever the interleaving of the calls. -/
theorem mutex_safety (E : EventSys σ ω) (m : MutexId) (hist : List (SysEvent σ ω)) (s : System σ)
    (run : SysRun E hist s) : MutexSafe m hist s where
  acquires e older op b past locks done := by
    obtain ⟨before, fired⟩ := SysRun.before run past
    obtain ⟨-, other, mine⟩ | ⟨failed, -⟩ := SysRun.completes_lock before fired locks done
    · exact ⟨other, mine⟩
    · exact absurd rfl failed
  fails e older op b error past locks done mine := by
    obtain ⟨before, fired⟩ := SysRun.before run past
    obtain ⟨ok, -⟩ | ⟨-, kept⟩ := SysRun.completes_lock before fired locks done
    · cases ok
    · exact (kept mine).2
  keeps e member t mine lost := by
    obtain ⟨newer, older, rfl⟩ := List.append_of_mem member
    obtain ⟨before, fired, -⟩ := Run.split run
    exact ((SysRun.lockInv before).keeps (SysRun.stepped before fired) mine).resolve_left lost
  excludes e' between e older op op' b b' past locks locks' done done' other := by
    obtain ⟨before', fired'⟩ := SysRun.before run past
    obtain ⟨before, fired, -⟩ := Run.split before'
    obtain ⟨-, -, mine⟩ | ⟨failed, -⟩ := SysRun.completes_lock before fired locks done
    · obtain ⟨-, -, theirs⟩ | ⟨failed, -⟩ := SysRun.completes_lock before' fired' locks' done'
      · by_contra unlocked
        -- without an unlock the first owner would still be there at the second return
        have kept : e'.pre.vp.owner m = some e.actor := by
          refine Run.carry (P := fun s => s.vp.owner m = some e.actor) before' mine ?_
          intro n member hist run mine fired
          obtain kept | unlocks := (SysRun.lockInv run).keeps (SysRun.stepped run fired) mine
          · exact kept
          · exact absurd ⟨n, member, unlocks⟩ unlocked
        obtain still | ⟨mine, -⟩ := (SysRun.lockInv before').keeps (SysRun.stepped before' fired') kept
        · rw [still] at theirs
          exact other (Option.some.inj theirs).symm
        · exact other mine
      · exact absurd rfl failed
    · exact absurd rfl failed
  free none t waits := by
    have place := run.settled.inv.lockQ_context waits.1
    exact (run.lockInv.waits t m place waits.2).1 none
  longest e older t past unlocks := by
    obtain ⟨before, fired⟩ := SysRun.before run past
    exact SysRun.longest before fired unlocks
  interrupted e older b past cause done := by
    obtain ⟨before, fired⟩ := SysRun.before run past
    obtain ⟨ok, -⟩ | ⟨-, kept⟩ := SysRun.completes_lock before fired (.inl rfl) done
    · cases ok
    · exact fun mine => (kept mine).1 cause
  delivers newer e older t u split unlocks owner := by
    subst split
    obtain ⟨before, fired, -⟩ := Run.split run
    have stepped := SysRun.stepped before fired
    refine SysRun.delivers run ?_
    obtain ⟨-, refused⟩ | ⟨-, -, ⟨v, waiter, owner', context, awake⟩ | ⟨-, free⟩⟩ := stepped.unlock unlocks.2.1
    · rw [unlocks.2.2] at refused
      cases refused
    · rw [owner] at owner'
      obtain rfl := Option.some.inj owner'
      have place := stepped.pre.inv.lockQ_context (List.mem_of_find?_eq_some waiter)
      exact ⟨owner, context.trans place, awake⟩
    · rw [free] at owner
      cases owner

/-- Thread 2 blocks on a mutex of thread 1, is handed it, and is interrupted before it
runs: its call returns 0 and the interrupt is kept. -/
theorem mutex_safety_interrupted_hand_off :
    ∃ hist s, SysRun (Poll.eventSys Poll.silent) hist s ∧
      (s.vp.owner 0 = some 2 ∧ s.vp.current = 2 ∧ (s.vp.thr 2).flags.interrupt = true ∧
        hist.head?.bind (·.out) = some (.value 0)) ∧
      MutexSafe 0 hist s := by
  obtain ⟨hist, s, run, seen⟩ := Run.found (M := machine (Poll.eventSys Poll.silent))
    [.call (.mutexNew (some 0)), .call (.mutexLock 0), .call (.threadCreate (some 2) false none),
      .call (.usleep 500), .resume, .call (.mutexLock 0), .idle 1000 0, .resume, .call (.mutexUnlock 0),
      .call (.threadInterrupt 2), .call (.usleep 500), .resume]
    Poll.started_ok
    (p := fun hist s => decide (s.vp.owner 0 = some 2 ∧ s.vp.current = 2 ∧ (s.vp.thr 2).flags.interrupt = true ∧
      hist.head?.bind (·.out) = some (.value 0)))
    (by decide +kernel)
  exact ⟨hist, s, run, of_decide_eq_true seen, mutex_safety _ 0 hist s run⟩

end StateThreads
