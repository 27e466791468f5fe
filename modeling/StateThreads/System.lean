import StateThreads.Sched
import StateThreads.Lib.Run

/-! The library as one machine. Between two context switches the current thread
runs alone, so a step is one call made by the current thread, the rest of a call
that was switched away from, or one turn of the idle thread. -/
namespace StateThreads
open LabelledRun

inductive Op where
  | usleep (usecs : UTime)
  | condNew (cvar : Option CondId)
  | condDestroy (cvar : CondId)
  | condTimedwait (cvar : CondId) (timeout : UTime)
  | condSignal (cvar : CondId)
  | condBroadcast (cvar : CondId)
  | mutexNew (lock : Option MutexId)
  | mutexDestroy (lock : MutexId)
  | mutexLock (lock : MutexId)
  | mutexUnlock (lock : MutexId)
  | mutexTrylock (lock : MutexId)
  | poll (pds : List PollFd) (timeout : UTime)
  | fdNew (fd : Int)
  | threadCreate (stack : Option Tid) (joinable : Bool) (cvar : Option CondId)
  | threadExit (retval : Nat)
  | threadJoin (thread : Tid)
  | threadInterrupt (thread : Tid)
deriving DecidableEq, Repr

inductive Label (ω : Type) where
  | call (op : Op)
  | resume
  | idle (now : UTime) (time : Nat)
  | outside (change : ω)

variable {σ ω : Type}

def System.lift (s : System σ) (r : Outcome) : Option (System σ × Option Ret) := r.map fun r => (⟨r.1, s.evt⟩, r.2)

def call (E : EventSys σ ω) (s : System σ) : Op → Option (System σ × Option Ret)
  | .usleep usecs => s.lift (stUsleep s.vp usecs)
  | .condNew cvar => s.lift (some (stCondNew s.vp cvar false, some (.value 0)))
  | .condDestroy cvar => s.lift (some ((stCondDestroy s.vp cvar).map id some))
  | .condTimedwait cvar timeout => s.lift (stCondTimedwait s.vp cvar timeout none)
  | .condSignal cvar => s.lift ((stCondSignal s.vp cvar false).map fun vp => (vp, some (.value 0)))
  | .condBroadcast cvar => s.lift ((stCondSignal s.vp cvar true).map fun vp => (vp, some (.value 0)))
  | .mutexNew lock => s.lift (some (stMutexNew s.vp lock, some (.value 0)))
  | .mutexDestroy lock => s.lift (some ((stMutexDestroy s.vp lock).map id some))
  | .mutexLock lock => s.lift (stMutexLock s.vp lock)
  | .mutexUnlock lock => s.lift (stMutexUnlock s.vp lock)
  | .mutexTrylock lock => s.lift (stMutexTrylock s.vp lock)
  | .poll pds timeout => stPoll E s pds timeout
  | .fdNew fd => (E.fdNew s.evt fd).map fun r =>
      (⟨s.vp, r.1⟩, some ((r.2.map fun e => Ret.fail e.errno).getD (.value 0)))
  | .threadCreate stack joinable cvar => s.lift (stThreadCreate s.vp stack joinable cvar)
  | .threadExit retval => s.lift (stThreadExit s.vp retval)
  | .threadJoin thread => s.lift (stThreadJoin s.vp thread)
  | .threadInterrupt thread => s.lift ((stThreadInterrupt s.vp thread).map fun vp => (vp, some (.value 0)))

def resume (E : EventSys σ ω) (s : System σ) : Option (System σ × Option Ret) :=
  match (s.vp.thr s.vp.current).context with
  | .fresh => some (⟨s.vp.setContext s.vp.current .user, s.evt⟩, none)
  | .usleep => s.lift (stUsleepResume s.vp)
  | .poll => stPollResume E s
  | .cond cvar none => s.lift ((stCondTimedwaitResume s.vp cvar).map fun r => (r.1, some r.2))
  | .cond cvar (some thread) => s.lift (stThreadJoinResume s.vp thread cvar)
  | .lock lock => s.lift (stMutexLockResume s.vp lock)
  | .exiting => s.lift (stThreadExitResume s.vp)
  | _ => none

def step (E : EventSys σ ω) (s : System σ) : Label ω → Option (System σ × Option Ret)
  | .call op => call E s op
  | .resume => resume E s
  | .idle now time => stIdleTurn E s now time
  | .outside change => some (⟨s.vp, E.outside s.evt change⟩, none)

/-- The objects named by a call are still allocated, an allocator hands out a new
one, and the event system returns from what it is asked. -/
def callable (E : EventSys σ ω) (s : System σ) : Op → Bool
  | .usleep _ | .threadExit _ => true
  | .condNew cvar => cvar.all fun c => (s.vp.cond c).life = .unborn
  | .condDestroy c | .condTimedwait c _ | .condSignal c | .condBroadcast c =>
    (s.vp.cond c).life = .allocated && !(s.vp.cond c).termination
  | .mutexNew lock => lock.all fun m => (s.vp.mutex m).life = .unborn
  | .mutexDestroy m | .mutexLock m | .mutexUnlock m | .mutexTrylock m => (s.vp.mutex m).life = .allocated
  | .poll pds _ => (E.pollsetAdd s.evt pds).isSome
  | .fdNew fd => (E.fdNew s.evt fd).isSome
  | .threadCreate stack _ cvar =>
    (stack.all fun t => (s.vp.thr t).context = .unborn) && cvar.all fun c => (s.vp.cond c).life = .unborn
  | .threadJoin t | .threadInterrupt t => (s.vp.thr t).context ≠ .unborn && (s.vp.thr t).context ≠ .gone

def Context.resumes : Context → Bool
  | .fresh | .usleep | .poll | .cond _ _ | .lock _ | .exiting => true
  | .unborn | .user | .idle | .gone => false

def enabled (E : EventSys σ ω) (s : System σ) : Label ω → Bool
  | .call op => (s.vp.thr s.vp.current).context = .user && callable E s op
  | .resume => (s.vp.thr s.vp.current).context.resumes
  | .idle _ _ => (s.vp.thr s.vp.current).context = .idle && decide (0 < s.vp.activeCount) &&
      (E.wait s.evt (minTimeout s.vp) (s.vp.ioQ.map fun t => (s.vp.pollq t).pds)).isSome
  | .outside _ => true

def machine (E : EventSys σ ω) : Machine (System σ) (Label ω) (Option Ret) where
  enabled := enabled E
  step := step E

/-- A state left by a successful st_init. -/
def Started (E : EventSys σ ω) (s : System σ) : Prop :=
  E.initial s.evt ∧ ∃ answers, stInit Vp.boot answers = some s.vp ∧ answers.stack ≠ answers.object

abbrev SysEvent (σ ω : Type) := Event (System σ) (Label ω) (Option Ret)

abbrev SysRun (E : EventSys σ ω) := Run (machine E) (Started E)

end StateThreads
