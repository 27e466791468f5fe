import StateThreads.Sync
import StateThreads.Event.Ops

/-! sched.c: polling, the clock, and the life of a thread. -/
namespace StateThreads

variable {σ ω : Type}

structure System (σ : Type) where
  vp : Vp
  evt : σ

def stPoll (E : EventSys σ ω) (s : System σ) (pds : List PollFd) (timeout : UTime) : Option (System σ × Option Ret) :=
  let me := s.vp.current
  if (s.vp.thr me).flags.interrupt then
    (s.vp.eintr).map fun r => (⟨r.1, s.evt⟩, r.2)
  else do
    let (evt, err) ← E.pollsetAdd s.evt pds
    match err with
    | some e => some (⟨s.vp, evt⟩, some (.fail e.errno))
    | none =>
      let vp := s.vp.setPollq me ⟨pds, true⟩
      let vp ← vp.addIoq me
      let vp ← vp.armSleepq me timeout
      let (vp, r) ← switchContext (vp.setState me .ioWait) .poll
      some (⟨vp, evt⟩, r)

def readyCount (pds : List PollFd) : Nat := pds.countP fun pd => pd.revents ≠ 0

/-- The flag test at the end of st_poll. -/
def pollReturn (vp : Vp) (n : Nat) : Outcome :=
  let vp := vp.setContext vp.current .user
  if (vp.thr vp.current).flags.interrupt then vp.eintr else some (vp, some (.value n))

def stPollResume (E : EventSys σ ω) (s : System σ) : Option (System σ × Option Ret) :=
  let me := s.vp.current
  let pq := s.vp.pollq me
  if pq.onIoq then do
    let vp ← s.vp.delIoq me
    let (vp, r) ← pollReturn vp 0
    some (⟨vp, E.pollsetDel s.evt pq.pds⟩, r)
  else do
    let (vp, r) ← pollReturn s.vp (readyCount pq.pds)
    some (⟨vp, s.evt⟩, r)

/- The loop of _st_vp_check_clock. Each turn takes a thread off the heap; fuel is one
more than its size, and running out of it is a fault. -/
def checkClockLoop (now : UTime) : Nat → Vp → Option Vp
  | 0, _ => none
  | fuel + 1, vp =>
    match vp.sleepQ.link .root with
    | none => some vp
    | some thread =>
      if vp.sleepQ.onSleepq thread = false then none
      else if now < vp.sleepQ.due thread then some vp
      else do
        let vp ← vp.delSleepq thread
        let vp := if (vp.thr thread).state = .condWait then vp.setTimedout thread true else vp
        if (vp.thr thread).flags.idleThread then none
        else do
          let vp ← vp.makeRunnable thread
          checkClockLoop now fuel vp

/-- _st_vp_check_clock at a reading now of st_utime and time of time(2). -/
def stVpCheckClock (vp : Vp) (now : UTime) (time : Nat) : Option Vp :=
  let vp := { vp with lastClock := now }
  let vp := if vp.currTime ≠ 0 ∧ 999000 < now - vp.lastTset then
      { vp with currTime := time, lastTset := now } else vp
  checkClockLoop now (vp.sleepQ.sleepqSize + 1) vp

/-- One turn of the loop of the idle thread. Without an active thread the process
exits, and there is no further step. -/
def stIdleTurn (E : EventSys σ ω) (s : System σ) (now : UTime) (time : Nat) : Option (System σ × Option Ret) := do
  let me := s.vp.current
  let (evt, vp) ← dispatch E s.evt s.vp
  let vp ← stVpCheckClock vp now time
  let (vp, r) ← switchContext (vp.setState me .runnable) .idle
  some (⟨vp, evt⟩, r)

def stThreadExit (vp : Vp) (retval : Nat) : Outcome :=
  let thread := vp.current
  let vp := vp.setThr thread { vp.thr thread with retval := retval }
  let vp := { vp with activeCount := vp.activeCount - 1 }
  match (vp.thr thread).term with
  | some term => do
    -- the place to come back to is marked here, before the signal; nothing reads it until then
    let vp := (vp.setState thread .zombie).setContext thread .exiting
    let vp ← vp.addZombieq thread
    let vp ← stCondSignal vp term false
    switchContext vp .exiting
  | none => switchContext vp .gone

/-- What is left of st_thread_exit once the thread has been joined; the result of
st_cond_destroy is not looked at. -/
def stThreadExitResume (vp : Vp) : Outcome :=
  let thread := vp.current
  match (vp.thr thread).term with
  | none => none
  | some term =>
    let vp := (stCondDestroy vp term).1
    let vp := vp.setThr thread { vp.thr thread with term := none }
    switchContext vp .gone

/-- st_thread_join from the test of its loop on. -/
def joinLoop (vp : Vp) (thread : Tid) (term : CondId) : Outcome :=
  if (vp.thr thread).state ≠ .zombie then stCondTimedwait vp term utimeNoTimeout (some thread)
  else do
    let retval := (vp.thr thread).retval
    let vp := vp.setState thread .runnable
    let vp ← vp.delZombieq thread
    let vp ← vp.addRunq thread
    some (vp, some (.joined retval))

def stThreadJoin (vp : Vp) (thread : Tid) : Outcome :=
  match (vp.thr thread).term with
  | none => some (vp, some (.fail .einval))
  | some term =>
    if vp.current = thread then some (vp, some (.fail .edeadlk))
    else if (vp.cond term).waitQ ≠ [] then some (vp, some (.fail .einval))
    else joinLoop vp thread term

def stThreadJoinResume (vp : Vp) (thread : Tid) (term : CondId) : Outcome := do
  let (vp, rv) ← stCondTimedwaitResume vp term
  if rv ≠ .value 0 then some (vp, some rv) else joinLoop vp thread term

def stThreadInterrupt (vp : Vp) (thread : Tid) : Option Vp :=
  if (vp.thr thread).state = .zombie then some vp
  else
    let vp := vp.setInterrupt thread true
    if (vp.thr thread).state = .running ∨ (vp.thr thread).state = .runnable then some vp
    else do
      let vp ← vp.offSleepq thread
      vp.makeRunnable thread

def startThread (vp : Vp) (thread : Tid) (context : Context) (term : Option CondId) : Option Vp := do
  let vp := vp.setThr thread ⟨.runnable, ⟨false, false, false, false⟩, 0, term, context⟩
  let vp := { vp with activeCount := vp.activeCount + 1 }
  vp.addRunq thread

/-- The thread object lies on the stack that _st_stack_new hands out; cvar is what
st_cond_new returns for a joinable thread. -/
def stThreadCreate (vp : Vp) (stack : Option Tid) (joinable : Bool) (cvar : Option CondId) : Outcome :=
  match stack with
  | none => some (vp, some (.thread none))
  | some thread =>
    if joinable then
      match cvar with
      | none => some (vp, some (.thread none))
      | some c => do
        let vp ← startThread (stCondNew vp cvar true) thread .fresh (some c)
        some (vp, some (.thread (some thread)))
    else do
      let vp ← startThread vp thread .fresh none
      some (vp, some (.thread (some thread)))

/-- The virtual processor before st_init: nothing is allocated. -/
def Vp.boot : Vp where
  thr _ := ⟨.running, ⟨false, false, false, false⟩, 0, none, .unborn⟩
  current := 0
  idleThread := 0
  activeCount := 0
  lastClock := 0
  currTime := 0
  lastTset := 0
  runQ := []
  ioQ := []
  zombieQ := []
  sleepQ := ⟨fun _ => none, fun _ => 0, fun _ => 0, fun _ => false, 0⟩
  pollq _ := ⟨[], false⟩
  cond _ := ⟨[], .unborn, false⟩
  mutex _ := ⟨none, [], .unborn⟩

/-- What the calls made by st_init return: _st_io_init and the init function of the
event system succeed or not, st_utime, the stack of the idle thread and the object
of the primordial one. -/
structure InitAnswers where
  ioInit : Bool
  eventInit : Bool
  now : UTime
  stack : Option Tid
  object : Option Tid

/-- st_init; the result is none when it returns -1. -/
def stInit (vp : Vp) (answers : InitAnswers) : Option Vp :=
  if vp.activeCount ≠ 0 then some vp
  else if !answers.ioInit then none
  else if !answers.eventInit then none
  else do
    let vp := { vp with
      runQ := [], ioQ := [], zombieQ := []
      sleepQ := { vp.sleepQ with link := Function.update vp.sleepQ.link .root none, sleepqSize := 0 }
      lastClock := answers.now }
    let idle ← answers.stack
    let vp ← startThread vp idle .idle none
    let vp := { vp with idleThread := idle }
    let vp := vp.setThr idle { vp.thr idle with flags := ⟨false, true, false, false⟩ }
    let vp := { vp with activeCount := vp.activeCount - 1, runQ := vp.runQ.erase idle }
    let primordial ← answers.object
    let vp := vp.setThr primordial ⟨.running, ⟨true, false, false, false⟩, 0, none, .user⟩
    some { vp with current := primordial, activeCount := vp.activeCount + 1 }

end StateThreads
