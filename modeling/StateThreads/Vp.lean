import StateThreads.Heap.Pointer

/-! Threads, synchronisation objects and the queues of a virtual processor.

The circular lists of the source are lists of the objects linked into them. An
object has one link field for each kind of queue, so linking an object that is
already linked, or unlinking one that is not, would corrupt a list silently; here
it is a fault, as are a null dereference in the timeout heap and a failed
ST_ASSERT. A fault is none. Identifiers name objects, not addresses: memory that is
given out again gets a new identifier. -/
namespace StateThreads

inductive ThreadState where
  | running | runnable | ioWait | lockWait | condWait | sleeping | zombie | suspended
deriving DecidableEq, Repr

/- The bits of flags; _ST_FL_ON_SLEEPQ is kept with the heap. -/
structure Flags where
  primordial : Bool
  idleThread : Bool
  interrupt : Bool
  timedout : Bool
deriving DecidableEq, Repr

/-- Where a thread goes on when it next runs: the place its context was saved at
by _ST_SWITCH_CONTEXT, or the code of its start function. -/
inductive Context where
  | unborn
  | fresh
  | user
  | usleep
  | poll
  | cond (cvar : CondId) (join : Option Tid)
  | lock (mutex : MutexId)
  | exiting
  | idle
  | gone
deriving DecidableEq, Repr

structure Thread where
  state : ThreadState
  flags : Flags
  retval : Nat
  term : Option CondId
  context : Context
deriving DecidableEq, Repr

structure PollFd where
  fd : Int
  events : BitVec 16
  revents : BitVec 16
deriving DecidableEq, Repr

structure PollQ where
  pds : List PollFd
  onIoq : Bool
deriving DecidableEq, Repr

inductive Life where
  | unborn | allocated | freed
deriving DecidableEq, Repr

/- A termination variable is allocated by st_thread_create; callers hold no pointer
to it. -/
structure Cond where
  waitQ : List Tid
  life : Life
  termination : Bool
deriving DecidableEq, Repr

structure Mutex where
  owner : Option Tid
  waitQ : List Tid
  life : Life
deriving DecidableEq, Repr

/-- The globals of sched.c and every object they lead to. The pollq of a thread is
the one on its stack while it is inside st_poll. -/
structure Vp where
  thr : Tid → Thread
  current : Tid
  idleThread : Tid
  activeCount : Int
  lastClock : UTime
  currTime : Nat
  lastTset : UTime
  runQ : List Tid
  ioQ : List Tid
  zombieQ : List Tid
  sleepQ : SleepQ
  pollq : Tid → PollQ
  cond : CondId → Cond
  mutex : MutexId → Mutex

inductive Ret where
  | value (n : Nat)
  | fail (e : Errno)
  | joined (retval : Nat)
  | thread (t : Option Tid)
deriving DecidableEq, Repr

/-- The outcome of a call: none is a fault, and a result of none means that the
caller was switched away before the call returned. -/
abbrev Outcome := Option (Vp × Option Ret)

namespace Vp

def setThr (vp : Vp) (t : Tid) (th : Thread) : Vp := { vp with thr := Function.update vp.thr t th }

def setState (vp : Vp) (t : Tid) (s : ThreadState) : Vp := vp.setThr t { vp.thr t with state := s }

def setContext (vp : Vp) (t : Tid) (c : Context) : Vp := vp.setThr t { vp.thr t with context := c }

def setInterrupt (vp : Vp) (t : Tid) (b : Bool) : Vp :=
  vp.setThr t { vp.thr t with flags := { (vp.thr t).flags with interrupt := b } }

def setTimedout (vp : Vp) (t : Tid) (b : Bool) : Vp :=
  vp.setThr t { vp.thr t with flags := { (vp.thr t).flags with timedout := b } }

def setCond (vp : Vp) (c : CondId) (cv : Cond) : Vp := { vp with cond := Function.update vp.cond c cv }

def setMutex (vp : Vp) (m : MutexId) (mx : Mutex) : Vp := { vp with mutex := Function.update vp.mutex m mx }

def setPollq (vp : Vp) (t : Tid) (pq : PollQ) : Vp := { vp with pollq := Function.update vp.pollq t pq }

/- run_q and zombie_q use the same link field of a thread. -/

def addRunq (vp : Vp) (t : Tid) : Option Vp :=
  if t ∈ vp.runQ ∨ t ∈ vp.zombieQ then none else some { vp with runQ := vp.runQ ++ [t] }

def addZombieq (vp : Vp) (t : Tid) : Option Vp :=
  if t ∈ vp.runQ ∨ t ∈ vp.zombieQ then none else some { vp with zombieQ := vp.zombieQ ++ [t] }

def delZombieq (vp : Vp) (t : Tid) : Option Vp :=
  if t ∈ vp.zombieQ then some { vp with zombieQ := vp.zombieQ.erase t } else none

def addIoq (vp : Vp) (t : Tid) : Option Vp :=
  if t ∈ vp.ioQ then none else some { vp with ioQ := vp.ioQ ++ [t] }

def delIoq (vp : Vp) (t : Tid) : Option Vp :=
  if t ∈ vp.ioQ then some { vp with ioQ := vp.ioQ.erase t } else none

def appendCondLink (vp : Vp) (c : CondId) (t : Tid) : Option Vp :=
  if t ∈ (vp.cond c).waitQ then none
  else some (vp.setCond c { vp.cond c with waitQ := (vp.cond c).waitQ ++ [t] })

def removeCondLink (vp : Vp) (c : CondId) (t : Tid) : Option Vp :=
  if t ∈ (vp.cond c).waitQ then some (vp.setCond c { vp.cond c with waitQ := (vp.cond c).waitQ.erase t })
  else none

def appendMutexLink (vp : Vp) (m : MutexId) (t : Tid) : Option Vp :=
  if t ∈ (vp.mutex m).waitQ then none
  else some (vp.setMutex m { vp.mutex m with waitQ := (vp.mutex m).waitQ ++ [t] })

def removeMutexLink (vp : Vp) (m : MutexId) (t : Tid) : Option Vp :=
  if t ∈ (vp.mutex m).waitQ then
    some (vp.setMutex m { vp.mutex m with waitQ := (vp.mutex m).waitQ.erase t })
  else none

def addSleepq (vp : Vp) (t : Tid) (timeout : UTime) : Option Vp := do
  let q ← stAddSleepQ vp.sleepQ vp.lastClock t timeout
  some { vp with sleepQ := q }

def delSleepq (vp : Vp) (t : Tid) : Option Vp := do
  let q ← stDelSleepQ vp.sleepQ t
  some { vp with sleepQ := q }

/-- if (thread->flags & _ST_FL_ON_SLEEPQ) _ST_DEL_SLEEPQ(thread); -/
def offSleepq (vp : Vp) (t : Tid) : Option Vp :=
  if vp.sleepQ.onSleepq t then vp.delSleepq t else some vp

/-- if (timeout != ST_UTIME_NO_TIMEOUT) _ST_ADD_SLEEPQ(me, timeout); -/
def armSleepq (vp : Vp) (t : Tid) (timeout : UTime) : Option Vp :=
  if timeout ≠ utimeNoTimeout then vp.addSleepq t timeout else some vp

def makeRunnable (vp : Vp) (t : Tid) : Option Vp := (vp.setState t .runnable).addRunq t

/-- me->flags &= ~_ST_FL_INTERRUPT; errno = EINTR; return -1; -/
def eintr (vp : Vp) : Outcome := some (vp.setInterrupt vp.current false, some (.fail .eintr))

end Vp

def nextThread (vp : Vp) : Tid × List Tid :=
  match vp.runQ with
  | thread :: rest => (thread, rest)
  | [] => (vp.idleThread, [])

def stVpSchedule (vp : Vp) : Option Vp :=
  let thread := (nextThread vp).1
  let vp := { vp with runQ := (nextThread vp).2 }
  if (vp.thr thread).state = .runnable then
    some { vp.setState thread .running with current := thread }
  else none

/-- _ST_SWITCH_CONTEXT by the current thread, which goes on at the given place. -/
def switchContext (vp : Vp) (context : Context) : Outcome := do
  let vp ← stVpSchedule (vp.setContext vp.current context)
  some (vp, none)

end StateThreads
