import StateThreads.Sched
import StateThreads.Event.Epoll

/-! The memory of a virtual processor through its initialisation: st_init of sched.c, and
the constructor and st_init of the class CStVp. What the memory held before is arbitrary. -/
namespace StateThreads

/-- The members of _st_vp_t and CStVp with the variables beside them. The pointer to the
epoll data is what it leads to, or none; opened are the open descriptors. A callback is
named by a number. -/
structure Memory where
  current : Option Tid
  activeCount : Int
  idleThread : Option Tid
  lastClock : UTime
  runQ : List Tid
  ioQ : List Tid
  zombieQ : List Tid
  pagesize : Int
  sleepQ : Option Tid
  sleepqSize : Int
  switchOutCb : Option Nat
  switchInCb : Option Nat
  numFreeStacks : Int
  randomizeStacks : Int
  freeStacks : List Tid
  currTime : Nat
  osfdLimit : Int
  event : Option Epoll.Data
  opened : Int → Bool
  thr : Tid → Thread

/-- What the calls made during initialisation return; getrlimit gives rlim_cur and
rlim_max, fdlimit is what st_getfdlimit of io.c would return. -/
structure Environment where
  sigaction : Bool
  getrlimit : Option (BitVec 64 × BitVec 64)
  setrlimit : Bool
  fdlimit : Int
  callocData : Bool
  epollCreate : Option Nat
  callocFdData : Bool
  mallocEvtlist : Bool
  pid : Nat
  pagesize : Int
  now : UTime
  stack : Option Tid
  object : Option Tid

def epollFdGetlimit : Int := 0

def intOfRlim (limit : BitVec 64) : Int := (limit.setWidth 32).toInt

def boundedRlim (max : BitVec 64) : BitVec 64 :=
  if 0 < epollFdGetlimit ∧ epollFdGetlimit < max.toNat then BitVec.ofInt 64 epollFdGetlimit else max

/-- The text that _st_io_init and CStIO::st_io_init share: the limit that is kept, and
whether it was raised with setrlimit or taken as it is because rlim_max is negative as an
int, which returns at once. -/
def ioLimit (env : Environment) : Option (Int × Bool) :=
  if !env.sigaction then none
  else match env.getrlimit with
    | none => none
    | some (cur, max) =>
      if intOfRlim (boundedRlim max) < 0 then
        some (if 0 < epollFdGetlimit then epollFdGetlimit else intOfRlim cur, false)
      else if !env.setrlimit then none
      else some (intOfRlim (boundedRlim max), true)

/-- _st_epoll_init and CStEvent::st_epoll_init with the result of st_getfdlimit. When a
call in it fails the first returns -1 and the second reads through a null pointer. -/
def epollInit (m : Memory) (fdlim : Int) (env : Environment) : Option Memory :=
  if !env.callocData then none
  else match env.epollCreate with
    | none => none
    | some epfd =>
      if !env.callocFdData then none
      else if !env.mallocEvtlist then none
      else some { m with
        event := some (Epoll.init fdlim epfd env.pid)
        opened := Function.update m.opened epfd true }

/-- The second half of st_init, the same in both: the idle thread is created, taken off
the run queue and not counted, and the primordial thread becomes the current one. -/
def firstThreads (m : Memory) (env : Environment) : Option Memory := do
  let m := { m with pagesize := env.pagesize, lastClock := env.now }
  let idle ← env.stack
  let m := { m with
    thr := Function.update m.thr idle ⟨.runnable, ⟨false, false, false, false⟩, 0, none, .idle⟩
    activeCount := m.activeCount + 1, runQ := m.runQ ++ [idle], idleThread := some idle }
  let m := { m with
    thr := Function.update m.thr idle { m.thr idle with flags := ⟨false, true, false, false⟩ }
    activeCount := m.activeCount - 1, runQ := m.runQ.erase idle }
  let thread ← env.object
  some { m with
    thr := Function.update m.thr thread ⟨.running, ⟨true, false, false, false⟩, 0, none, .user⟩
    current := some thread, activeCount := m.activeCount + 1 }

def stInitMemory (m : Memory) (env : Environment) : Option Memory :=
  if m.activeCount ≠ 0 then some m
  else do
    let (limit, _) ← ioLimit env
    let m := { m with osfdLimit := limit }
    -- memset of _st_this_vp, and the three queues
    let m := { m with
      idleThread := none, lastClock := 0, pagesize := 0, sleepQ := none, sleepqSize := 0
      switchOutCb := none, switchInCb := none, runQ := [], ioQ := [], zombieQ := [] }
    let m ← epollInit m m.osfdLimit env
    firstThreads m env

namespace CStVp

def construct (m : Memory) : Memory :=
  { m with activeCount := 0, numFreeStacks := 0, randomizeStacks := 0, currTime := 0, freeStacks := [], idleThread := none }

/-- CStIO::st_io_init. The new CStEvent has no constructor, so its pointer holds whatever
was in that memory until st_epoll_init writes it. -/
def stIoInit (m : Memory) (env : Environment) : Option Memory := do
  let (limit, raised) ← ioLimit env
  let m := { m with osfdLimit := limit }
  if raised then epollInit m env.fdlimit env else some m

def stInit (m : Memory) (env : Environment) : Option Memory :=
  if m.activeCount ≠ 0 then some m
  else do
    let m ← stIoInit m env
    let m := { m with runQ := [], ioQ := [], zombieQ := [] }
    firstThreads m env

end CStVp

end StateThreads
