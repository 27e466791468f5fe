import StateThreads.Vp

/-! sync.c: sleeping, condition variables and mutexes. A function that switches
context is cut there: the part after the switch has the same name with Resume. -/
namespace StateThreads

def stUsleep (vp : Vp) (usecs : UTime) : Outcome :=
  let me := vp.current
  if (vp.thr me).flags.interrupt then vp.eintr
  else do
    let vp ← if usecs ≠ utimeNoTimeout then (vp.setState me .sleeping).addSleepq me usecs
      else some (vp.setState me .suspended)
    switchContext vp .usleep

def stUsleepResume (vp : Vp) : Outcome :=
  let vp := vp.setContext vp.current .user
  if (vp.thr vp.current).flags.interrupt then vp.eintr else some (vp, some (.value 0))

/- Allocation takes the object calloc hands out, or none when it fails. -/

def stCondNew (vp : Vp) (cvar : Option CondId) (termination : Bool) : Vp :=
  match cvar with
  | none => vp
  | some c => vp.setCond c ⟨[], .allocated, termination⟩

def stCondDestroy (vp : Vp) (cvar : CondId) : Vp × Ret :=
  if (vp.cond cvar).waitQ ≠ [] then (vp, .fail .ebusy)
  else (vp.setCond cvar { vp.cond cvar with life := .freed }, .value 0)

/-- The wait is called by st_thread_join when join names the thread to be joined. -/
def stCondTimedwait (vp : Vp) (cvar : CondId) (timeout : UTime) (join : Option Tid) : Outcome :=
  let me := vp.current
  if (vp.thr me).flags.interrupt then vp.eintr
  else do
    let vp := vp.setState me .condWait
    let vp ← vp.appendCondLink cvar me
    let vp ← vp.armSleepq me timeout
    switchContext vp (.cond cvar join)

/-- The flags read after the switch: a time-out is overwritten by an interrupt, and
both are cleared. -/
def waitResult (flags : Flags) : Ret :=
  if flags.interrupt then .fail .eintr else if flags.timedout then .fail .etime else .value 0

def stCondTimedwaitResume (vp : Vp) (cvar : CondId) : Option (Vp × Ret) := do
  let me := vp.current
  let vp ← vp.removeCondLink cvar me
  let rv := waitResult (vp.thr me).flags
  some (((vp.setTimedout me false).setInterrupt me false).setContext me .user, rv)

def condSignalLoop (broadcast : Bool) : List Tid → Vp → Option Vp
  | [], vp => some vp
  | thread :: q, vp =>
    if (vp.thr thread).state = .condWait then do
      let vp ← vp.offSleepq thread
      let vp ← vp.makeRunnable thread
      if broadcast then condSignalLoop broadcast q vp else some vp
    else condSignalLoop broadcast q vp

def stCondSignal (vp : Vp) (cvar : CondId) (broadcast : Bool) : Option Vp :=
  condSignalLoop broadcast (vp.cond cvar).waitQ vp

def stMutexNew (vp : Vp) (lock : Option MutexId) : Vp :=
  match lock with
  | none => vp
  | some m => vp.setMutex m ⟨none, [], .allocated⟩

def stMutexDestroy (vp : Vp) (lock : MutexId) : Vp × Ret :=
  if (vp.mutex lock).owner ≠ none ∨ (vp.mutex lock).waitQ ≠ [] then (vp, .fail .ebusy)
  else (vp.setMutex lock { vp.mutex lock with life := .freed }, .value 0)

def Vp.setOwner (vp : Vp) (lock : MutexId) (owner : Option Tid) : Vp :=
  vp.setMutex lock { vp.mutex lock with owner := owner }

def stMutexLock (vp : Vp) (lock : MutexId) : Outcome :=
  let me := vp.current
  if (vp.thr me).flags.interrupt then vp.eintr
  else if (vp.mutex lock).owner = none then some (vp.setOwner lock (some me), some (.value 0))
  else if (vp.mutex lock).owner = some me then some (vp, some (.fail .edeadlk))
  else do
    let vp := vp.setState me .lockWait
    let vp ← vp.appendMutexLink lock me
    switchContext vp (.lock lock)

def stMutexLockResume (vp : Vp) (lock : MutexId) : Outcome := do
  let me := vp.current
  let vp ← vp.removeMutexLink lock me
  let vp := vp.setContext me .user
  if (vp.thr me).flags.interrupt ∧ (vp.mutex lock).owner ≠ some me then vp.eintr
  else some (vp, some (.value 0))

/-- The loop of st_mutex_unlock: the first thread on what is left of wait_q that is
still in LOCK_WAIT. -/
def lockWaiter (vp : Vp) (q : List Tid) : Option Tid :=
  q.find? fun thread => (vp.thr thread).state = .lockWait

def stMutexUnlock (vp : Vp) (lock : MutexId) : Outcome :=
  if (vp.mutex lock).owner ≠ some vp.current then some (vp, some (.fail .eperm))
  else match lockWaiter vp (vp.mutex lock).waitQ with
    | some thread => do
      let vp ← (vp.setOwner lock (some thread)).makeRunnable thread
      some (vp, some (.value 0))
    | none => some (vp.setOwner lock none, some (.value 0))

def stMutexTrylock (vp : Vp) (lock : MutexId) : Outcome :=
  if (vp.mutex lock).owner ≠ none then some (vp, some (.fail .ebusy))
  else some (vp.setOwner lock (some vp.current), some (.value 0))

end StateThreads
