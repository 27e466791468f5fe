import StateThreads.Placement.Sched

/-! Everything one step of the library can do to the virtual processor. -/
namespace StateThreads
open LabelledRun

variable {σ ω : Type}

/-- The calls that test _ST_FL_INTERRUPT on entry. -/
def Op.blocks : Op → Bool
  | .usleep _ | .condTimedwait _ _ | .mutexLock _ | .poll _ _ | .threadJoin _ => true
  | _ => false

/-- What a step does up to a context switch, if it ends in one: the label, the state
then, the result, and whether the processor is given up. -/
inductive Move (vp : Vp) : Label ω → Vp → Option Ret → Bool → Prop
  | outside {change : ω} : Move vp (.outside change) vp none false
  | descriptor {fd : Int} {r : Ret} (quiet : r ≠ .fail .eintr) : Move vp (.call (.fdNew fd)) vp (some r) false
  | interrupted {op : Op} (blocks : op.blocks = true) (flag : (vp.thr vp.current).flags.interrupt = true) :
    Move vp (.call op) (vp.setInterrupt vp.current false) (some (.fail .eintr)) false
  | sleeps {usecs : UTime} {state : ThreadState} {q : SleepQ}
    (flag : (vp.thr vp.current).flags.interrupt = false) (kind : state = .sleeping ∨ state = .suspended) :
    Move vp (.call (.usleep usecs)) (vp.parked state .usleep q) none true
  | condNew {cvar : Option CondId} (fresh : ∀ c, cvar = some c → (vp.cond c).life = .unborn) :
    Move vp (.call (.condNew cvar)) (stCondNew vp cvar false) (some (.value 0)) false
  | condBusy {cvar : CondId} (busy : (vp.cond cvar).waitQ ≠ []) :
    Move vp (.call (.condDestroy cvar)) vp (some (.fail .ebusy)) false
  | condDestroy {cvar : CondId} (free : (vp.cond cvar).waitQ = []) (kind : (vp.cond cvar).termination = false) :
    Move vp (.call (.condDestroy cvar)) (vp.setCond cvar { vp.cond cvar with life := .freed })
      (some (.value 0)) false
  | waits {cvar : CondId} {timeout : UTime} {q : SleepQ} (flag : (vp.thr vp.current).flags.interrupt = false)
    (kind : (vp.cond cvar).termination = false) :
    Move vp (.call (.condTimedwait cvar timeout)) (vp.waiting cvar none q) none true
  | signals {cvar : CondId} {vp' : Vp} (kind : (vp.cond cvar).termination = false)
    (roused : Roused vp (signalled vp false (vp.cond cvar).waitQ) (fun t => (vp.thr t).flags) vp') :
    Move vp (.call (.condSignal cvar)) vp' (some (.value 0)) false
  | broadcasts {cvar : CondId} {vp' : Vp} (kind : (vp.cond cvar).termination = false)
    (roused : Roused vp (signalled vp true (vp.cond cvar).waitQ) (fun t => (vp.thr t).flags) vp') :
    Move vp (.call (.condBroadcast cvar)) vp' (some (.value 0)) false
  | mutexNew {lock : Option MutexId} (fresh : ∀ m, lock = some m → (vp.mutex m).life = .unborn) :
    Move vp (.call (.mutexNew lock)) (stMutexNew vp lock) (some (.value 0)) false
  | mutexBusy {lock : MutexId} (busy : (vp.mutex lock).owner ≠ none ∨ (vp.mutex lock).waitQ ≠ []) :
    Move vp (.call (.mutexDestroy lock)) vp (some (.fail .ebusy)) false
  | mutexDestroy {lock : MutexId} (owner : (vp.mutex lock).owner = none) (free : (vp.mutex lock).waitQ = []) :
    Move vp (.call (.mutexDestroy lock)) (vp.setMutex lock { vp.mutex lock with life := .freed })
      (some (.value 0)) false
  | acquires {lock : MutexId} (flag : (vp.thr vp.current).flags.interrupt = false)
    (owner : (vp.mutex lock).owner = none) :
    Move vp (.call (.mutexLock lock)) (vp.setOwner lock (some vp.current)) (some (.value 0)) false
  | deadlock {lock : MutexId} (flag : (vp.thr vp.current).flags.interrupt = false)
    (owner : (vp.mutex lock).owner = some vp.current) :
    Move vp (.call (.mutexLock lock)) vp (some (.fail .edeadlk)) false
  | locks {lock : MutexId} (flag : (vp.thr vp.current).flags.interrupt = false)
    (held : (vp.mutex lock).owner ≠ none) (other : (vp.mutex lock).owner ≠ some vp.current) :
    Move vp (.call (.mutexLock lock)) (vp.locking lock) none true
  | notOwner {lock : MutexId} (owner : (vp.mutex lock).owner ≠ some vp.current) :
    Move vp (.call (.mutexUnlock lock)) vp (some (.fail .eperm)) false
  | handsOver {lock : MutexId} {thread : Tid} (owner : (vp.mutex lock).owner = some vp.current)
    (waiter : lockWaiter vp (vp.mutex lock).waitQ = some thread) :
    Move vp (.call (.mutexUnlock lock))
      ((vp.setOwner lock (some thread)).woken thread vp.sleepQ (vp.thr thread).flags) (some (.value 0)) false
  | releases {lock : MutexId} (owner : (vp.mutex lock).owner = some vp.current)
    (waiter : lockWaiter vp (vp.mutex lock).waitQ = none) :
    Move vp (.call (.mutexUnlock lock)) (vp.setOwner lock none) (some (.value 0)) false
  | lockBusy {lock : MutexId} (owner : (vp.mutex lock).owner ≠ none) :
    Move vp (.call (.mutexTrylock lock)) vp (some (.fail .ebusy)) false
  | tryAcquires {lock : MutexId} (owner : (vp.mutex lock).owner = none) :
    Move vp (.call (.mutexTrylock lock)) (vp.setOwner lock (some vp.current)) (some (.value 0)) false
  | pollFails {pds : List PollFd} {timeout : UTime} (flag : (vp.thr vp.current).flags.interrupt = false)
    (error : AddError) : Move vp (.call (.poll pds timeout)) vp (some (.fail error.errno)) false
  | polls {pds : List PollFd} {timeout : UTime} {q : SleepQ} (flag : (vp.thr vp.current).flags.interrupt = false) :
    Move vp (.call (.poll pds timeout)) (vp.polling pds q) none true
  | createFails {stack : Option Tid} {joinable : Bool} {cvar : Option CondId} :
    Move vp (.call (.threadCreate stack joinable cvar)) vp (some (.thread none)) false
  | creates {t : Tid} {cvar : Option CondId} (unborn : (vp.thr t).context = .unborn) :
    Move vp (.call (.threadCreate (some t) false cvar)) (vp.started t none) (some (.thread (some t))) false
  | createsJoinable {t : Tid} {c : CondId} (unborn : (vp.thr t).context = .unborn)
    (fresh : (vp.cond c).life = .unborn) :
    Move vp (.call (.threadCreate (some t) true (some c))) ((stCondNew vp (some c) true).started t (some c))
      (some (.thread (some t))) false
  | exits {retval : Nat} (term : (vp.thr vp.current).term = none) :
    Move vp (.call (.threadExit retval)) ((vp.leaving retval).finished none) none true
  | dies {retval : Nat} {term : CondId} {vp' : Vp} (joinable : (vp.thr vp.current).term = some term)
    (roused : Roused (vp.dying retval) (signalled (vp.dying retval) false (vp.cond term).waitQ)
      (fun t => (vp.thr t).flags) vp') :
    Move vp (.call (.threadExit retval)) vp' none true
  | joinRejected {thread : Tid} {e : Errno} (error : e = .einval ∨ e = .edeadlk) :
    Move vp (.call (.threadJoin thread)) vp (some (.fail e)) false
  | joinWaits {thread : Tid} {term : CondId} {q : SleepQ} (flag : (vp.thr vp.current).flags.interrupt = false)
    (joinable : (vp.thr thread).term = some term) (other : vp.current ≠ thread)
    (alone : (vp.cond term).waitQ = []) (alive : (vp.thr thread).state ≠ .zombie)
    (live : (vp.thr thread).context.live = true) :
    Move vp (.call (.threadJoin thread)) (vp.waiting term (some thread) q) none true
  | joins {thread : Tid} {term : CondId} (joinable : (vp.thr thread).term = some term)
    (other : vp.current ≠ thread) (alone : (vp.cond term).waitQ = []) (zombie : (vp.thr thread).state = .zombie)
    (live : (vp.thr thread).context.live = true) :
    Move vp (.call (.threadJoin thread)) (vp.reaped thread) (some (.joined (vp.thr thread).retval)) false
  | interruptsZombie {thread : Tid} (zombie : (vp.thr thread).state = .zombie) :
    Move vp (.call (.threadInterrupt thread)) vp (some (.value 0)) false
  | interruptsAwake {thread : Tid} (live : (vp.thr thread).context.live = true)
    (awake : (vp.thr thread).state = .running ∨ (vp.thr thread).state = .runnable) :
    Move vp (.call (.threadInterrupt thread)) (vp.setInterrupt thread true) (some (.value 0)) false
  | interruptsBlocked {thread : Tid} {q : SleepQ} (live : (vp.thr thread).context.live = true)
    (blocked : (vp.thr thread).state.blocked = true) (without : vp.sleepQ.Without thread q) :
    Move vp (.call (.threadInterrupt thread))
      (vp.woken thread q { (vp.thr thread).flags with interrupt := true }) (some (.value 0)) false
  | begins (place : (vp.thr vp.current).context = .fresh) :
    Move vp .resume (vp.back (vp.thr vp.current).flags) none false
  | slept (place : (vp.thr vp.current).context = .usleep) :
    Move vp .resume (vp.back { (vp.thr vp.current).flags with interrupt := false })
      (some (if (vp.thr vp.current).flags.interrupt then .fail .eintr else .value 0)) false
  | polled {n : Nat} (place : (vp.thr vp.current).context = .poll) :
    Move vp .resume (vp.unlinkPoll.back { (vp.thr vp.current).flags with interrupt := false })
      (some (if (vp.thr vp.current).flags.interrupt then .fail .eintr else .value n)) false
  | waited {cvar : CondId} (place : (vp.thr vp.current).context = .cond cvar none) :
    Move vp .resume ((vp.unlinkCond cvar).back (vp.thr vp.current).flags.read)
      (some (waitResult (vp.thr vp.current).flags)) false
  | joinFailed {cvar : CondId} {thread : Tid} (place : (vp.thr vp.current).context = .cond cvar (some thread))
    (failed : waitResult (vp.thr vp.current).flags ≠ .value 0) :
    Move vp .resume ((vp.unlinkCond cvar).back (vp.thr vp.current).flags.read)
      (some (waitResult (vp.thr vp.current).flags)) false
  | joinAgain {cvar : CondId} {thread : Tid} {q : SleepQ}
    (place : (vp.thr vp.current).context = .cond cvar (some thread))
    (signalled : waitResult (vp.thr vp.current).flags = .value 0) (alive : (vp.thr thread).state ≠ .zombie) :
    Move vp .resume (((vp.unlinkCond cvar).back (vp.thr vp.current).flags.read).waiting cvar (some thread) q)
      none true
  | joined {cvar : CondId} {thread : Tid} (place : (vp.thr vp.current).context = .cond cvar (some thread))
    (signalled : waitResult (vp.thr vp.current).flags = .value 0) (zombie : (vp.thr thread).state = .zombie)
    (live : (vp.thr thread).context.live = true) :
    Move vp .resume (((vp.unlinkCond cvar).back (vp.thr vp.current).flags.read).reaped thread)
      (some (.joined (vp.thr thread).retval)) false
  | locked {lock : MutexId} (place : (vp.thr vp.current).context = .lock lock) :
    Move vp .resume ((vp.unlinkLock lock).back (vp.lockFlags lock))
      (some (if (vp.thr vp.current).flags.interrupt ∧ (vp.mutex lock).owner ≠ some vp.current then .fail .eintr
        else .value 0)) false
  | cleansUp {term : CondId} (place : (vp.thr vp.current).context = .exiting)
    (joinable : (vp.thr vp.current).term = some term) :
    Move vp .resume ((stCondDestroy vp term).1.finished none) none true
  | idles {now lastTset : UTime} {time currTime : Nat} {vp₁ vp₂ : Vp} {ts₁ ts₂ : List Tid}
    (place : (vp.thr vp.current).context = .idle) (empty : vp.runQ = []) (dispatched : Dispatched vp ts₁ vp₁)
    (expired : Roused { vp₁ with lastClock := now, lastTset := lastTset, currTime := currTime } ts₂
      (fun t => (vp₁.thr t).expired) vp₂)
    (timers : ∀ t ∈ ts₂, vp₁.sleepQ.onSleepq t = true) :
    Move vp (.idle now time) (vp₂.setState vp.current .runnable) none true

def Vp.after (vp : Vp) (switch : Bool) : Vp := if switch then vp.yielded else vp

/-- The invariant at a step boundary: the current thread runs, and it is the idle
thread only while nothing else can. -/
structure Settled (vp : Vp) : Prop where
  inv : Inv vp (some vp.current)
  empty : (vp.thr vp.current).context = .idle → vp.runQ = []

def Moves (vp : Vp) (l : Label ω) (result : Outcome) : Prop :=
  ∃ vp' out switch, result = some (vp'.after switch, out) ∧ Move vp l vp' out switch ∧
    vp'.current = vp.current ∧ Inv vp' (if switch then none else some vp.current) ∧
    (switch = false → (vp'.thr vp.current).context = .idle → vp'.runQ = [])

theorem Moves.returns {vp vp' : Vp} {l : Label ω} {out : Option Ret} (move : Move vp l vp' out false)
    (current : vp'.current = vp.current) (kept : Inv vp' (some vp.current))
    (context : (vp'.thr vp.current).context = .user) : Moves vp l (some (vp', out)) :=
  ⟨vp', out, false, rfl, move, current, kept, by simp [context]⟩

theorem Moves.switches {vp vp' : Vp} {l : Label ω} (move : Move vp l vp' none true)
    (current : vp'.current = vp.current) (kept : Inv vp' none) : Moves vp l (some (vp'.yielded, none)) :=
  ⟨vp', none, true, rfl, move, current, kept, by simp⟩

section
variable {vp : Vp} (inv : Inv vp (some vp.current)) (user : (vp.thr vp.current).context = .user)
include inv user

theorem Moves.interrupted {op : Op} (blocks : op.blocks = true)
    (flag : (vp.thr vp.current).flags.interrupt = true) : Moves vp (.call op : Label ω) vp.eintr :=
  ⟨_, _, false, rfl, .interrupted blocks flag, rfl, inv.eintr, by simp [user]⟩

theorem stUsleep_moves (usecs : UTime) : Moves vp (.call (.usleep usecs) : Label ω) (stUsleep vp usecs) := by
  cases flag : (vp.thr vp.current).flags.interrupt with
  | true =>
    rw [stUsleep, if_pos flag]
    exact .interrupted inv user rfl flag
  | false =>
    obtain ⟨state, q, run, kind, kept⟩ := stUsleep_run inv user flag usecs
    rw [run]
    exact .switches (.sleeps flag kind) rfl kept

theorem stCondTimedwait_moves {cvar : CondId} (allocated : (vp.cond cvar).life = .allocated)
    (kind : (vp.cond cvar).termination = false) (timeout : UTime) :
    Moves vp (.call (.condTimedwait cvar timeout) : Label ω) (stCondTimedwait vp cvar timeout none) := by
  cases flag : (vp.thr vp.current).flags.interrupt with
  | true =>
    rw [stCondTimedwait, if_pos flag]
    exact .interrupted inv user rfl flag
  | false =>
    obtain ⟨q, run, kept⟩ := stCondTimedwait_run inv user flag allocated timeout none
    rw [run]
    exact .switches (.waits flag kind) rfl kept

theorem stMutexLock_moves {lock : MutexId} (allocated : (vp.mutex lock).life = .allocated) :
    Moves vp (.call (.mutexLock lock) : Label ω) (stMutexLock vp lock) := by
  cases flag : (vp.thr vp.current).flags.interrupt with
  | true =>
    rw [stMutexLock, if_pos flag]
    exact .interrupted inv user rfl flag
  | false =>
    by_cases free : (vp.mutex lock).owner = none
    · rw [stMutexLock, if_neg (by simp [flag]), if_pos free]
      exact .returns (.acquires flag free) rfl (inv.setOwner lock _) user
    · by_cases mine : (vp.mutex lock).owner = some vp.current
      · rw [stMutexLock, if_neg (by simp [flag]), if_neg free, if_pos mine]
        exact .returns (.deadlock flag mine) rfl inv user
      · obtain ⟨run, kept⟩ := stMutexLock_run inv user flag allocated free mine
        rw [run]
        exact .switches (.locks flag free mine) rfl kept

theorem stMutexUnlock_moves (lock : MutexId) :
    Moves vp (.call (.mutexUnlock lock) : Label ω) (stMutexUnlock vp lock) := by
  by_cases mine : (vp.mutex lock).owner = some vp.current
  · cases waiter : lockWaiter vp (vp.mutex lock).waitQ with
    | some thread =>
      obtain ⟨run, kept⟩ := stMutexUnlock_run inv mine waiter
      rw [run]
      have other : vp.current ≠ thread := by
        rintro rfl
        have waits : (vp.thr vp.current).state = .lockWait := by simpa using List.find?_some waiter
        rw [inv.running.2] at waits
        cases waits
      refine .returns (.handsOver mine waiter) rfl kept ?_
      simpa [Vp.woken, Vp.setOwner, Vp.setMutex, other] using user
    | none =>
      have run : stMutexUnlock vp lock = some (vp.setOwner lock none, some (.value 0)) := by
        simp [stMutexUnlock, mine, waiter]
      rw [run]
      exact .returns (.releases mine waiter) rfl (inv.setOwner lock none) user
  · rw [stMutexUnlock, if_pos mine]
    exact .returns (.notOwner mine) rfl inv user

theorem stMutexTrylock_moves (lock : MutexId) :
    Moves vp (.call (.mutexTrylock lock) : Label ω) (stMutexTrylock vp lock) := by
  by_cases free : (vp.mutex lock).owner = none
  · rw [stMutexTrylock, if_neg (by simp [free])]
    exact .returns (.tryAcquires free) rfl (inv.setOwner lock _) user
  · rw [stMutexTrylock, if_pos free]
    exact .returns (.lockBusy free) rfl inv user

theorem stCondSignal_moves (cvar : CondId) (kind : (vp.cond cvar).termination = false) :
    Moves vp (.call (.condSignal cvar) : Label ω)
      ((stCondSignal vp cvar false).map fun vp => (vp, some (.value 0))) := by
  obtain ⟨vp', run, kept, roused⟩ := stCondSignal_run inv cvar false
  rw [run]
  exact .returns (.signals kind roused) roused.current kept ((roused.context _).trans user)

theorem stCondBroadcast_moves (cvar : CondId) (kind : (vp.cond cvar).termination = false) :
    Moves vp (.call (.condBroadcast cvar) : Label ω)
      ((stCondSignal vp cvar true).map fun vp => (vp, some (.value 0))) := by
  obtain ⟨vp', run, kept, roused⟩ := stCondSignal_run inv cvar true
  rw [run]
  exact .returns (.broadcasts kind roused) roused.current kept ((roused.context _).trans user)

theorem stCondNew_moves {cvar : Option CondId} (fresh : ∀ c, cvar = some c → (vp.cond c).life = .unborn) :
    Moves vp (.call (.condNew cvar) : Label ω) (some (stCondNew vp cvar false, some (.value 0))) := by
  cases cvar with
  | none => exact .returns (.condNew fresh) rfl inv user
  | some c => exact .returns (.condNew fresh) rfl (inv.condNew (fresh c rfl)) user

theorem stCondDestroy_moves {cvar : CondId} (kind : (vp.cond cvar).termination = false) :
    Moves vp (.call (.condDestroy cvar) : Label ω) (some ((stCondDestroy vp cvar).map id some)) := by
  by_cases empty : (vp.cond cvar).waitQ = []
  · rw [stCondDestroy, if_neg (by simp [empty])]
    exact .returns (.condDestroy empty kind) rfl (inv.condFree empty kind) user
  · rw [stCondDestroy, if_pos empty]
    exact .returns (.condBusy empty) rfl inv user

theorem stMutexNew_moves {lock : Option MutexId} (fresh : ∀ m, lock = some m → (vp.mutex m).life = .unborn) :
    Moves vp (.call (.mutexNew lock) : Label ω) (some (stMutexNew vp lock, some (.value 0))) := by
  cases lock with
  | none => exact .returns (.mutexNew fresh) rfl inv user
  | some m =>
    have empty : (vp.mutex m).waitQ = [] := by
      by_contra h
      have := inv.objects.mutexes m h
      rw [fresh m rfl] at this
      cases this
    exact .returns (.mutexNew fresh) rfl (inv.setMutex_empty empty rfl) user

theorem stMutexDestroy_moves (lock : MutexId) :
    Moves vp (.call (.mutexDestroy lock) : Label ω) (some ((stMutexDestroy vp lock).map id some)) := by
  by_cases busy : (vp.mutex lock).owner ≠ none ∨ (vp.mutex lock).waitQ ≠ []
  · rw [stMutexDestroy, if_pos busy]
    exact .returns (.mutexBusy busy) rfl inv user
  · rw [stMutexDestroy, if_neg busy]
    obtain ⟨owner, empty⟩ := not_or.mp busy
    exact .returns (.mutexDestroy (not_not.mp owner) (not_not.mp empty)) rfl
      (inv.setMutex_empty (not_not.mp empty) (not_not.mp empty)) user

theorem stThreadCreate_moves {stack : Option Tid} {joinable : Bool} {cvar : Option CondId}
    (unborn : ∀ t, stack = some t → (vp.thr t).context = .unborn)
    (fresh : ∀ c, cvar = some c → (vp.cond c).life = .unborn) :
    Moves vp (.call (.threadCreate stack joinable cvar) : Label ω) (stThreadCreate vp stack joinable cvar) := by
  cases stack with
  | none => exact .returns .createFails rfl inv user
  | some t =>
    have new := unborn t rfl
    have other : vp.current ≠ t := by rintro rfl; rw [user] at new; cases new
    cases joinable with
    | false =>
      obtain ⟨noRun, noZombie, kept⟩ := inv.started none new (inv.objects.started (by simp))
      have run : startThread vp t .fresh none = some (vp.started t none) :=
        (addRunq_run { vp.setThr t _ with activeCount := _ } noRun noZombie).trans rfl
      simp only [stThreadCreate, Bool.false_eq_true, if_false, run, Option.bind_eq_bind, Option.bind_some]
      exact .returns (.creates new) rfl kept (by simpa [Vp.started, other] using user)
    | true =>
      cases cvar with
      | none => exact .returns .createFails rfl inv user
      | some c =>
        have made : Inv (stCondNew vp (some c) true) (some vp.current) := inv.condNew (fresh c rfl)
        have own : Objects ((stCondNew vp (some c) true).started t (some c)) := by
          apply made.objects.started
          rintro d ⟨⟩
          refine ⟨by simp [stCondNew, Vp.setCond], by simp [stCondNew, Vp.setCond], fun u h => ?_⟩
          have := (inv.objects.terms u c h).1
          rw [fresh c rfl] at this
          cases this
        obtain ⟨noRun, noZombie, kept⟩ := made.started (t := t) (some c) new own
        have run : startThread (stCondNew vp (some c) true) t .fresh (some c) =
            some ((stCondNew vp (some c) true).started t (some c)) :=
          (addRunq_run { (stCondNew vp (some c) true).setThr t _ with activeCount := _ }
            noRun noZombie).trans rfl
        simp only [stThreadCreate, if_true, run, Option.bind_eq_bind, Option.bind_some]
        exact .returns (.createsJoinable new (fresh c rfl)) rfl kept
          (by simpa [Vp.started, stCondNew, Vp.setCond, other] using user)

theorem stThreadInterrupt_moves {thread : Tid} (live : (vp.thr thread).context.live = true) :
    Moves vp (.call (.threadInterrupt thread) : Label ω)
      ((stThreadInterrupt vp thread).map fun vp => (vp, some (.value 0))) := by
  by_cases zombie : (vp.thr thread).state = .zombie
  · rw [stThreadInterrupt, if_pos zombie]
    exact .returns (.interruptsZombie zombie) rfl inv user
  by_cases awake : (vp.thr thread).state = .running ∨ (vp.thr thread).state = .runnable
  · have run : stThreadInterrupt vp thread = some (vp.setInterrupt thread true) := by
      rw [stThreadInterrupt, if_neg zombie]
      exact if_pos (by simpa [Vp.setInterrupt, Vp.setThr] using awake)
    rw [run]
    refine .returns (.interruptsAwake live awake) rfl (inv.setFlags ?_ rfl fun h => h) ?_
    · obtain h | h := awake <;> rw [h] <;> rfl
    · by_cases h : vp.current = thread
      · subst h; simpa [Vp.setInterrupt, Vp.setThr] using user
      · simpa [Vp.setInterrupt, Vp.setThr, h] using user
  · have blocked : (vp.thr thread).state.blocked = true := by
      cases h : (vp.thr thread).state <;> simp_all [ThreadState.blocked]
    obtain ⟨q, run, without, kept⟩ := stThreadInterrupt_run inv live blocked
    rw [run]
    refine .returns (.interruptsBlocked live blocked without) rfl kept ?_
    have other : vp.current ≠ thread := by
      rintro rfl
      rw [inv.current_awake] at blocked
      cases blocked
    simpa [Vp.woken, other] using user

theorem stThreadExit_moves (retval : Nat) :
    Moves vp (.call (.threadExit retval) : Label ω) (stThreadExit vp retval) := by
  have free := inv.current_free user
  have noRun : vp.current ∉ vp.runQ := List.count_eq_zero.mp free.run
  have noZombie : vp.current ∉ vp.zombieQ := List.count_eq_zero.mp free.zombie
  cases term : (vp.thr vp.current).term with
  | none =>
    have back : Inv (vp.leaving retval) (some vp.current) := by
      refine inv.change vp.current ?_ ?_ inv.heap (Objects.same (inv.objects.setThr (t := vp.current)
        { vp.thr vp.current with retval := retval } rfl) rfl rfl fun _ => rfl)
      · intro u hu
        simp [Vp.view, Vp.leaving, hu]
      · have ok := inv.views vp.current
        simp only [Vp.view, Vp.leaving, Function.update_self]
        exact ⟨ok.run, ok.zombie, ok.io, ok.cond, ok.lock, ok.fits, ok.running, ok.polled, ok.timed, ok.asleep,
          ok.timedout, ok.interrupt, ok.idle, ok.flag, ok.term⟩
    have kept := back.finished none (.inl (by simpa [Vp.leaving] using user)) back.objects.finished
    have run : stThreadExit vp retval = some (((vp.leaving retval).finished none).yielded, none) := by
      simp only [stThreadExit, Vp.setThr, Function.update_self, term]
      exact switchContext_run (by simp [Vp.setContext, Vp.setThr, Vp.finished, Vp.leaving]) kept
    rw [run]
    exact .switches (.exits term) rfl kept
  | some c =>
    have kept := inv.die user retval (by simp [term])
    obtain ⟨vp', signal, kept', roused⟩ := stCondSignal_run kept c false
    have link : (((vp.leaving retval).setState vp.current .zombie).setContext vp.current .exiting).addZombieq
        vp.current = some (vp.dying retval) := by
      simp [Vp.addZombieq, noRun, noZombie, Vp.dying, Vp.leaving, Vp.setState, Vp.setContext, Vp.setThr]
    have place : vp'.setContext vp'.current .exiting = vp' := by
      have current : vp'.current = vp.current := roused.current
      have same : (vp'.thr vp'.current).context = .exiting := by
        rw [roused.thr, current]
        split <;> simp [Vp.dying]
      rw [Vp.setContext, Vp.setThr, ← same, Function.update_eq_self]
    have run : stThreadExit vp retval = some (vp'.yielded, none) := by
      have same : ({ vp.setThr vp.current { vp.thr vp.current with retval := retval } with
          activeCount := vp.activeCount - 1 } : Vp) = vp.leaving retval := rfl
      have joinable : ((vp.setThr vp.current { vp.thr vp.current with retval := retval }).thr vp.current).term =
          some c := by
        simp [Vp.setThr, term]
      simp only [stThreadExit]
      rw [show (vp.setThr vp.current { vp.thr vp.current with retval := retval }).activeCount = vp.activeCount from rfl,
        same]
      simp only [joinable, link, Option.bind_eq_bind, Option.bind_some, signal]
      exact switchContext_run place kept'
    rw [run]
    refine .switches (.dies term ?_) roused.current kept'
    refine ⟨roused.blocked, fun u => ?_, roused.runQ, roused.off, roused.due, roused.rest⟩
    rw [roused.thr]
    by_cases h : u = vp.current
    · subst h; simp [Vp.dying]
    · simp [Vp.dying, h]

theorem joinLoop_cases (thread : Tid) {term : CondId} (allocated : (vp.cond term).life = .allocated) :
    ((vp.thr thread).state = .zombie ∧ (vp.thr thread).context.live = true ∧ Inv (vp.reaped thread) (some vp.current) ∧
      joinLoop vp thread term = some (vp.reaped thread, some (.joined (vp.thr thread).retval))) ∨
    ((vp.thr thread).state ≠ .zombie ∧ (vp.thr vp.current).flags.interrupt = true ∧
      joinLoop vp thread term = vp.eintr) ∨
    ((vp.thr thread).state ≠ .zombie ∧ (vp.thr vp.current).flags.interrupt = false ∧
      ∃ q, Inv (vp.waiting term (some thread) q) none ∧
        joinLoop vp thread term = some ((vp.waiting term (some thread) q).yielded, none)) := by
  by_cases zombie : (vp.thr thread).state = .zombie
  · have live : (vp.thr thread).context.live = true := by
      have fits := (inv.views thread).fits
      simp only [Vp.view, zombie] at fits
      cases h : (vp.thr thread).context <;> simp_all [Context.fits, Context.live]
    obtain ⟨run, kept⟩ := joinLoop_zombie inv term live zombie
    exact .inl ⟨zombie, live, kept, run⟩
  · rw [joinLoop, if_pos zombie]
    cases flag : (vp.thr vp.current).flags.interrupt with
    | true => exact .inr (.inl ⟨zombie, rfl, by rw [stCondTimedwait, if_pos flag]⟩)
    | false =>
      obtain ⟨q, run, kept⟩ := stCondTimedwait_run inv user flag allocated utimeNoTimeout (some thread)
      exact .inr (.inr ⟨zombie, rfl, q, kept, run⟩)

theorem stThreadJoin_moves {thread : Tid} (live : (vp.thr thread).context.live = true) :
    Moves vp (.call (.threadJoin thread) : Label ω) (stThreadJoin vp thread) := by
  unfold stThreadJoin
  cases joinable : (vp.thr thread).term with
  | none => exact .returns (.joinRejected (.inl rfl)) rfl inv user
  | some term =>
    by_cases self : vp.current = thread
    · simp only [self, if_true]
      exact .returns (.joinRejected (.inr rfl)) rfl inv user
    by_cases alone : (vp.cond term).waitQ = []
    · simp only [self, if_false, alone, ne_eq, not_true_eq_false]
      obtain ⟨zombie, -, kept, run⟩ | ⟨-, flag, run⟩ | ⟨alive, flag, q, kept, run⟩ :=
        joinLoop_cases inv user thread (inv.objects.terms thread term joinable).1
      · rw [run]
        exact .returns (.joins joinable self alone zombie live) rfl kept (by simpa [Vp.reaped, self] using user)
      · rw [run]
        exact .interrupted inv user rfl flag
      · rw [run]
        exact .switches (.joinWaits flag joinable self alone alive live) rfl kept
    · simp only [self, if_false, alone, ne_eq, not_false_eq_true, if_true]
      exact .returns (.joinRejected (.inl rfl)) rfl inv user

end

/- The second halves. -/

theorem stThreadJoinResume_moves {vp : Vp} (inv : Inv vp (some vp.current)) {cvar : CondId} {thread : Tid}
    (place : (vp.thr vp.current).context = .cond cvar (some thread)) :
    Moves vp (.resume : Label ω) (stThreadJoinResume vp thread cvar) := by
  obtain ⟨run, kept⟩ := stCondTimedwaitResume_run inv place
  have user : (((vp.unlinkCond cvar).back (vp.thr vp.current).flags.read).thr vp.current).context = .user := by
    simp [Vp.back, Vp.unlinkCond, Vp.setThr, Vp.setCond]
  have allocated : (((vp.unlinkCond cvar).back (vp.thr vp.current).flags.read).cond cvar).life = .allocated := by
    have linked := inv.linked_cond place
    have held := inv.objects.conds cvar (List.ne_nil_of_mem linked)
    simpa [Vp.back, Vp.unlinkCond, Vp.setThr, Vp.setCond] using held
  unfold stThreadJoinResume
  rw [run]
  simp only [Option.bind_eq_bind, Option.bind_some]
  by_cases ok : waitResult (vp.thr vp.current).flags = .value 0
  · rw [if_neg (by simp [ok])]
    have other : thread ≠ vp.current → (((vp.unlinkCond cvar).back (vp.thr vp.current).flags.read).thr thread) =
        vp.thr thread := by
      intro h
      simp [Vp.back, Vp.unlinkCond, Vp.setThr, Vp.setCond, h]
    have state : (((vp.unlinkCond cvar).back (vp.thr vp.current).flags.read).thr thread).state =
        (vp.thr thread).state := by
      by_cases h : thread = vp.current
      · subst h; simp [Vp.back, Vp.unlinkCond, Vp.setThr, Vp.setCond]
      · rw [other h]
    obtain ⟨zombie, live, kept', run'⟩ | ⟨-, flag, -⟩ | ⟨alive, flag, q, kept', run'⟩ :=
      joinLoop_cases kept user thread allocated
    · rw [state] at zombie
      have self : thread ≠ vp.current := by
        rintro rfl
        rw [inv.running.2] at zombie
        cases zombie
      rw [run', other self]
      refine .returns (.joined place ok zombie (by rwa [other self] at live)) rfl kept' ?_
      simpa [Vp.reaped, Ne.symm self] using user
    · simp [Vp.back, Vp.unlinkCond, Vp.setThr, Vp.setCond, Flags.read] at flag
    · rw [run']
      rw [state] at alive
      exact .switches (.joinAgain place ok alive) rfl kept'
  · rw [if_pos ok]
    exact .returns (.joinFailed place ok) rfl kept user

theorem stUsleepResume_moves {vp : Vp} (inv : Inv vp (some vp.current))
    (place : (vp.thr vp.current).context = .usleep) : Moves vp (.resume : Label ω) (stUsleepResume vp) := by
  obtain ⟨run, kept⟩ := stUsleepResume_run inv place
  rw [run]
  exact .returns (.slept place) rfl kept (by simp [Vp.back, Vp.setThr])

theorem stCondTimedwaitResume_moves {vp : Vp} (inv : Inv vp (some vp.current)) {cvar : CondId}
    (place : (vp.thr vp.current).context = .cond cvar none) :
    Moves vp (.resume : Label ω) ((stCondTimedwaitResume vp cvar).map fun r => (r.1, some r.2)) := by
  obtain ⟨run, kept⟩ := stCondTimedwaitResume_run inv place
  rw [run]
  exact .returns (.waited place) rfl kept (by simp [Vp.back, Vp.unlinkCond, Vp.setThr, Vp.setCond])

theorem stMutexLockResume_moves {vp : Vp} (inv : Inv vp (some vp.current)) {lock : MutexId}
    (place : (vp.thr vp.current).context = .lock lock) :
    Moves vp (.resume : Label ω) (stMutexLockResume vp lock) := by
  obtain ⟨run, kept⟩ := stMutexLockResume_run inv place
  rw [run]
  exact .returns (.locked place) rfl kept (by simp [Vp.back, Vp.unlinkLock, Vp.setThr, Vp.setMutex])

theorem stCondDestroy_thr (vp : Vp) (cvar : CondId) : (stCondDestroy vp cvar).1.thr = vp.thr := by
  unfold stCondDestroy
  split <;> rfl

theorem stCondDestroy_current (vp : Vp) (cvar : CondId) : (stCondDestroy vp cvar).1.current = vp.current := by
  unfold stCondDestroy
  split <;> rfl

theorem stThreadExitResume_moves {vp : Vp} (inv : Inv vp (some vp.current))
    (place : (vp.thr vp.current).context = .exiting) : Moves vp (.resume : Label ω) (stThreadExitResume vp) := by
  have some := (inv.views vp.current).term place
  obtain ⟨term, joinable⟩ := Option.ne_none_iff_exists'.mp some
  simp only [Vp.view] at joinable
  have kept := inv.cleanUp place joinable
  have current := stCondDestroy_current vp term
  have run : stThreadExitResume vp = .some (((stCondDestroy vp term).1.finished none).yielded, none) := by
    simp only [stThreadExitResume, joinable]
    exact switchContext_run (by simp [Vp.setContext, Vp.setThr, Vp.finished, current, stCondDestroy_thr]) kept
  rw [run]
  exact .switches (.cleansUp place joinable) current kept

def SysMoves (s : System σ) (l : Label ω) (result : Option (System σ × Option Ret)) : Prop :=
  ∃ s' vp' out switch, result = some (s', out) ∧ s'.vp = vp'.after switch ∧ Move s.vp l vp' out switch ∧
    vp'.current = s.vp.current ∧ Inv vp' (if switch then none else some s.vp.current) ∧
    (switch = false → (vp'.thr s.vp.current).context = .idle → vp'.runQ = [])

theorem Moves.lift {s : System σ} {l : Label ω} {result : Outcome} (moves : Moves s.vp l result) :
    SysMoves s l (s.lift result) := by
  obtain ⟨vp', out, switch, run, rest⟩ := moves
  exact ⟨⟨vp'.after switch, s.evt⟩, vp', out, switch, by rw [run]; rfl, rfl, rest⟩

theorem Moves.paired {s : System σ} {l : Label ω} {vp' : Vp} {out : Option Ret} (evt : σ)
    (moves : Moves s.vp l (some (vp', out))) : SysMoves s l (some (⟨vp', evt⟩, out)) := by
  obtain ⟨vp₁, out₁, switch, run, rest⟩ := moves
  obtain ⟨rfl, rfl⟩ := Prod.mk.inj (Option.some.inj run)
  exact ⟨⟨vp₁.after switch, evt⟩, vp₁, out, switch, rfl, rfl, rest⟩

theorem stPoll_run (E : EventSys σ ω) {s : System σ} (inv : Inv s.vp (some s.vp.current))
    (user : (s.vp.thr s.vp.current).context = .user) (quiet : (s.vp.thr s.vp.current).flags.interrupt = false)
    {pds : List PollFd} {evt : σ} (added : E.pollsetAdd s.evt pds = some (evt, none)) (timeout : UTime) :
    ∃ q, stPoll E s pds timeout = some (⟨(s.vp.polling pds q).yielded, evt⟩, none) ∧ Inv (s.vp.polling pds q) none := by
  have free := inv.current_free user
  have alone : s.vp.current ∉ s.vp.ioQ := List.count_eq_zero.mp free.io
  have link : (s.vp.setPollq s.vp.current ⟨pds, true⟩).addIoq s.vp.current =
      some { s.vp.setPollq s.vp.current ⟨pds, true⟩ with ioQ := s.vp.ioQ ++ [s.vp.current] } := by
    rw [Vp.addIoq, if_neg (by exact alone)]
    rfl
  obtain ⟨q, arm, armed⟩ := armSleepq_run ({ s.vp.setPollq s.vp.current ⟨pds, true⟩ with
    ioQ := s.vp.ioQ ++ [s.vp.current] }) inv.heap (t := s.vp.current) free.onSleepq timeout
  have kept := inv.poll user pds quiet armed
  have run : switchContext (({ s.vp.setPollq s.vp.current ⟨pds, true⟩ with
      ioQ := s.vp.ioQ ++ [s.vp.current], sleepQ := q } : Vp).setState s.vp.current .ioWait) .poll =
      some ((s.vp.polling pds q).yielded, none) :=
    switchContext_run (by simp [Vp.setContext, Vp.setState, Vp.setThr, Vp.setPollq, Vp.polling, Vp.parked]) kept
  refine ⟨q, ?_, kept⟩
  rw [stPoll, if_neg (by simp [quiet])]
  simp only [added, Option.bind_eq_bind, Option.bind_some]
  rw [link]
  simp only [Option.bind_some]
  rw [arm]
  simp only [Option.bind_some, run]

theorem stPoll_moves (E : EventSys σ ω) {s : System σ} (inv : Inv s.vp (some s.vp.current))
    (user : (s.vp.thr s.vp.current).context = .user) {pds : List PollFd} {timeout : UTime}
    (returns : (E.pollsetAdd s.evt pds).isSome = true) :
    SysMoves s (.call (.poll pds timeout) : Label ω) (stPoll E s pds timeout) := by
  cases flag : (s.vp.thr s.vp.current).flags.interrupt with
  | true =>
    rw [stPoll, if_pos flag]
    exact (Moves.interrupted inv user rfl flag).lift
  | false =>
    obtain ⟨⟨evt, err⟩, added⟩ := Option.isSome_iff_exists.mp returns
    cases err with
    | some e =>
      rw [stPoll, if_neg (by simp [flag])]
      simp only [added, Option.bind_eq_bind, Option.bind_some]
      exact Moves.paired evt (.returns (.pollFails flag e) rfl inv user)
    | none =>
      obtain ⟨q, run, kept⟩ := stPoll_run E inv user flag added timeout
      rw [run]
      exact Moves.paired evt (.switches (.polls flag) rfl kept)

theorem stPollResume_moves (E : EventSys σ ω) {s : System σ} (inv : Inv s.vp (some s.vp.current))
    (place : (s.vp.thr s.vp.current).context = .poll) :
    SysMoves s (.resume : Label ω) (stPollResume E s) := by
  have quiet : (s.vp.thr s.vp.current).flags.timedout = false := by
    have h := (inv.views s.vp.current).timedout
    simpa [place, Context.inCond] using h
  have count := (inv.views s.vp.current).io
  have kept := inv.unpoll { (s.vp.thr s.vp.current).flags with interrupt := false } rfl quiet place
  have context : ((s.vp.unlinkPoll.back { (s.vp.thr s.vp.current).flags with interrupt := false }).thr
      s.vp.current).context = .user := by
    simp [Vp.back, Vp.unlinkPoll, Vp.setThr]
  have tail : ∀ n : Nat, pollReturn s.vp.unlinkPoll n =
      some (s.vp.unlinkPoll.back { (s.vp.thr s.vp.current).flags with interrupt := false },
        some (if (s.vp.thr s.vp.current).flags.interrupt then .fail .eintr else .value n)) := by
    intro n
    cases flag : (s.vp.thr s.vp.current).flags.interrupt with
    | true =>
      simp [pollReturn, Vp.setContext, Vp.setThr, Vp.eintr, Vp.setInterrupt, Vp.back, Vp.unlinkPoll, flag]
    | false =>
      have same : { (s.vp.thr s.vp.current).flags with interrupt := false } = (s.vp.thr s.vp.current).flags := by
        rw [← flag]
      simp [pollReturn, Vp.setContext, Vp.setThr, Vp.back, Vp.unlinkPoll, flag, same]
  unfold stPollResume
  cases on : (s.vp.pollq s.vp.current).onIoq with
  | true =>
    have linked : s.vp.current ∈ s.vp.ioQ := by
      apply List.count_pos_iff.mp
      simp [place, on] at count
      omega
    have unlink : s.vp.delIoq s.vp.current = some s.vp.unlinkPoll := by
      rw [Vp.delIoq, if_pos linked]
      rfl
    simp only [on, unlink, if_true, Option.bind_eq_bind, Option.bind_some, tail]
    exact Moves.paired _ (.returns (.polled place) rfl kept context)
  | false =>
    have alone : s.vp.current ∉ s.vp.ioQ := by
      apply List.count_eq_zero.mp
      simpa [on] using count
    have same : s.vp.unlinkPoll = s.vp := by rw [Vp.unlinkPoll, List.erase_of_not_mem alone]
    have done := tail (readyCount (s.vp.pollq s.vp.current).pds)
    rw [same] at done
    simp only [on, Bool.false_eq_true, if_false, Option.bind_eq_bind, done, Option.bind_some]
    have moved : Move s.vp (.resume : Label ω) _ _ false :=
      Move.polled (n := readyCount (s.vp.pollq s.vp.current).pds) place
    rw [same] at moved kept context
    exact Moves.paired _ (.returns moved rfl kept context)

theorem stIdleTurn_moves (E : EventSys σ ω) {s : System σ} (settled : Settled s.vp)
    (place : (s.vp.thr s.vp.current).context = .idle)
    (answers : (E.wait s.evt (minTimeout s.vp) (s.vp.ioQ.map fun t => (s.vp.pollq t).pds)).isSome = true)
    (now : UTime) (time : Nat) : SysMoves s (.idle now time : Label ω) (stIdleTurn E s now time) := by
  have empty := settled.empty place
  obtain ⟨evt, vp₁, ts₁, run₁, inv₁, dispatched⟩ := dispatch_run E settled.inv place empty answers
  obtain ⟨vp₂, ts₂, lastTset, currTime, run₂, inv₂, expired, expires⟩ := stVpCheckClock_run inv₁ now time
  have timers : ∀ t ∈ ts₂, vp₁.sleepQ.onSleepq t = true := fun t member => ((expires.exact t).mp member).1
  have current₁ : vp₁.current = s.vp.current := by
    have same := congrArg Vp.current dispatched.rest
    exact same
  have current : vp₂.current = s.vp.current := expired.current.trans current₁
  have idle : (vp₂.thr s.vp.current).context = .idle := by
    rw [expired.context, ← place]
    exact congrArg Thread.context (dispatched.thr s.vp.current) |>.trans (by split <;> rfl)
  rw [← current] at inv₂ idle
  have kept := inv₂.rest idle
  have same : (vp₂.setState vp₂.current .runnable).setContext vp₂.current .idle = vp₂.setState vp₂.current .runnable := by
    have stays : ((vp₂.setState vp₂.current .runnable).thr vp₂.current).context = .idle := by
      simpa [Vp.setState, Vp.setThr] using idle
    rw [Vp.setContext, ← stays, Vp.setThr, Function.update_eq_self]
  have run₃ := switchContext_run same kept
  simp only [stIdleTurn, run₁, run₂, Option.bind_eq_bind, Option.bind_some]
  rw [current] at run₃ kept
  rw [run₃]
  exact Moves.paired evt (.switches (.idles place empty dispatched expired timers) current kept)

theorem call_moves (E : EventSys σ ω) {s : System σ} (settled : Settled s.vp)
    (user : (s.vp.thr s.vp.current).context = .user) {op : Op} (ok : callable E s op = true) :
    SysMoves s (.call op : Label ω) (call E s op) := by
  have inv := settled.inv
  cases op with
  | usleep usecs => exact (stUsleep_moves inv user usecs).lift
  | condNew cvar =>
    refine (stCondNew_moves inv user ?_).lift
    rintro c rfl
    simpa [callable] using ok
  | condDestroy cvar =>
    simp only [callable, Bool.and_eq_true, Bool.not_eq_true'] at ok
    exact (stCondDestroy_moves inv user ok.2).lift
  | condTimedwait cvar timeout =>
    simp only [callable, Bool.and_eq_true, Bool.not_eq_true', decide_eq_true_eq] at ok
    exact (stCondTimedwait_moves inv user ok.1 ok.2 timeout).lift
  | condSignal cvar =>
    simp only [callable, Bool.and_eq_true, Bool.not_eq_true'] at ok
    exact (stCondSignal_moves inv user cvar ok.2).lift
  | condBroadcast cvar =>
    simp only [callable, Bool.and_eq_true, Bool.not_eq_true'] at ok
    exact (stCondBroadcast_moves inv user cvar ok.2).lift
  | mutexNew lock =>
    refine (stMutexNew_moves inv user ?_).lift
    rintro m rfl
    simpa [callable] using ok
  | mutexDestroy lock => exact (stMutexDestroy_moves inv user lock).lift
  | mutexLock lock =>
    simp only [callable, decide_eq_true_eq] at ok
    exact (stMutexLock_moves inv user ok).lift
  | mutexUnlock lock => exact (stMutexUnlock_moves inv user lock).lift
  | mutexTrylock lock => exact (stMutexTrylock_moves inv user lock).lift
  | poll pds timeout => exact stPoll_moves E inv user ok
  | fdNew fd =>
    obtain ⟨⟨evt, err⟩, made⟩ := Option.isSome_iff_exists.mp ok
    have quiet : (err.map fun e => Ret.fail e.errno).getD (.value 0) ≠ .fail .eintr := by
      cases err with
      | none => simp
      | some e => cases e <;> simp [AddError.errno]
    simp only [call, made, Option.map_some]
    exact Moves.paired evt (.returns (.descriptor quiet) rfl inv user)
  | threadCreate stack joinable cvar =>
    simp only [callable, Bool.and_eq_true] at ok
    refine (stThreadCreate_moves inv user ?_ ?_).lift
    · rintro t rfl; simpa using ok.1
    · rintro c rfl; simpa using ok.2
  | threadExit retval => exact (stThreadExit_moves inv user retval).lift
  | threadJoin thread =>
    exact (stThreadJoin_moves inv user (by simpa [callable, Context.live] using ok)).lift
  | threadInterrupt thread =>
    exact (stThreadInterrupt_moves inv user (by simpa [callable, Context.live] using ok)).lift

theorem resume_moves (E : EventSys σ ω) {s : System σ} (settled : Settled s.vp)
    (ok : (s.vp.thr s.vp.current).context.resumes = true) : SysMoves s (.resume : Label ω) (resume E s) := by
  have inv := settled.inv
  unfold resume
  cases place : (s.vp.thr s.vp.current).context with
  | fresh =>
    have quiet : (s.vp.thr s.vp.current).flags.timedout = false := by
      have h := (inv.views s.vp.current).timedout
      simpa [place, Context.inCond] using h
    have kept := inv.unpark _ rfl quiet (.inl place)
    have moved : Moves s.vp (.resume : Label ω) (some (s.vp.back (s.vp.thr s.vp.current).flags, none)) :=
      .returns (.begins place) rfl kept (by simp [Vp.back, Vp.setThr])
    exact moved.lift
  | usleep => exact (stUsleepResume_moves inv place).lift
  | poll => exact stPollResume_moves E inv place
  | cond cvar join =>
    cases join with
    | none => exact (stCondTimedwaitResume_moves inv place).lift
    | some thread => exact (stThreadJoinResume_moves inv place).lift
  | lock lock => exact (stMutexLockResume_moves inv place).lift
  | exiting => exact (stThreadExitResume_moves inv place).lift
  | unborn => simp [place, Context.resumes] at ok
  | user => simp [place, Context.resumes] at ok
  | idle => simp [place, Context.resumes] at ok
  | gone => simp [place, Context.resumes] at ok

/-- No step that is enabled faults, and each is one of the moves. -/
theorem step_moves (E : EventSys σ ω) {s : System σ} (settled : Settled s.vp) {l : Label ω}
    (ok : enabled E s l = true) : SysMoves s l (step E s l) := by
  cases l with
  | call op =>
    simp only [enabled, Bool.and_eq_true, decide_eq_true_eq] at ok
    exact call_moves E settled ok.1 ok.2
  | resume => exact resume_moves E settled ok
  | idle now time =>
    simp only [enabled, Bool.and_eq_true, decide_eq_true_eq] at ok
    exact stIdleTurn_moves E settled ok.1.1 ok.2 now time
  | outside change =>
    exact ⟨⟨s.vp, E.outside s.evt change⟩, s.vp, none, false, rfl, rfl, .outside, rfl, settled.inv,
      fun _ => settled.empty⟩

theorem Settled.after {vp vp' : Vp} {switch : Bool} (current : vp'.current = vp.current)
    (kept : Inv vp' (if switch then none else some vp.current))
    (empty : switch = false → (vp'.thr vp.current).context = .idle → vp'.runQ = []) :
    Settled (vp'.after switch) := by
  cases switch with
  | false =>
    rw [← current] at kept empty
    exact ⟨kept, empty rfl⟩
  | true =>
    refine ⟨kept.yielded, fun idle => ?_⟩
    -- the run queue only hands out the idle thread when it has nothing else
    simp only [Vp.after, if_true, Vp.yielded, Vp.switched, Function.update_self] at idle ⊢
    unfold nextThread at idle ⊢
    split
    · rename_i thread rest queue
      have run := (kept.views thread).run
      simp only [queue] at idle
      simp [queue, idle] at run
    · rfl

end StateThreads
