import StateThreads.Event.Ops

/-! The select event system of event.c. A set of descriptors is a predicate. -/
namespace StateThreads.Select

abbrev FdSet := Int → Bool

def fdSetSize : Int := 1024

inductive Answer where
  | ready (r w e : FdSet)
  | timeout
  | failed (e : Errno)

/-- select(2), whose timeout is in seconds and microseconds, and fcntl with F_GETFL,
which fails on a bad descriptor. -/
structure Kernel (κ ω : Type) where
  select : κ → Int → FdSet → FdSet → FdSet → Option (Int × Int) → κ × Answer
  fcntl : κ → Int → Bool
  outside : κ → ω → κ

inductive Walk where
  | ready (r w e : FdSet)
  | badFd

/-- struct _st_seldata, with the kind of the walk that dispatch makes. -/
structure State (κ : Type) where
  readSet : FdSet
  writeSet : FdSet
  excepSet : FdSet
  readCnt : Int → Int
  writeCnt : Int → Int
  excepCnt : Int → Int
  maxfd : Int
  walk : Walk
  kern : κ

variable {κ ω : Type}

/-- if (events & kind) { FD_SET(fd, set); cnt++; } -/
def include_ (wanted : Bool) (fd : Int) (set : FdSet) (cnt : Int → Int) : FdSet × (Int → Int) :=
  if wanted then (Function.update set fd true, Function.update cnt fd (cnt fd + 1)) else (set, cnt)

/-- if (events & kind) { if (--cnt == 0) FD_CLR(fd, set); } -/
def exclude (wanted : Bool) (fd : Int) (set : FdSet) (cnt : Int → Int) : FdSet × (Int → Int) :=
  if wanted then
    (if cnt fd - 1 = 0 then Function.update set fd false else set, Function.update cnt fd (cnt fd - 1))
  else (set, cnt)

def addOne (s : State κ) (pd : PollFd) : State κ :=
  let r := include_ pd.reads pd.fd s.readSet s.readCnt
  let w := include_ pd.writes pd.fd s.writeSet s.writeCnt
  let e := include_ pd.excepts pd.fd s.excepSet s.excepCnt
  { s with
    readSet := r.1, readCnt := r.2, writeSet := w.1, writeCnt := w.2, excepSet := e.1, excepCnt := e.2
    maxfd := if s.maxfd < pd.fd then pd.fd else s.maxfd }

def delOne (s : State κ) (pd : PollFd) : State κ :=
  let r := exclude pd.reads pd.fd s.readSet s.readCnt
  let w := exclude pd.writes pd.fd s.writeSet s.writeCnt
  let e := exclude pd.excepts pd.fd s.excepSet s.excepCnt
  { s with readSet := r.1, readCnt := r.2, writeSet := w.1, writeCnt := w.2, excepSet := e.1, excepCnt := e.2 }

def refused (pd : PollFd) : Bool :=
  pd.fd < 0 || fdSetSize ≤ pd.fd || pd.events = 0 ||
    pd.events &&& ~~~(pollIn ||| pollOut ||| pollPri) ≠ 0

def pollsetAdd (s : State κ) (pds : List PollFd) : Option (State κ × Option AddError) :=
  if pds.any refused then some (s, some .einval) else some (pds.foldl addOne s, none)

/-- pollset_del, and the loops that withdraw the counts of a notified pollq. -/
def pollsetDel (s : State κ) (pds : List PollFd) : State κ := pds.foldl delOne s

def timeval : Option UTime → Option (Int × Int)
  | none => none
  | some t => some (cInt (t.val / 1000000), cInt (t.val % 1000000))

def wait (K : Kernel κ ω) (s : State κ) (min : Option UTime) : State κ × Bool :=
  let (kern, answer) := K.select s.kern (s.maxfd + 1) s.readSet s.writeSet s.excepSet (timeval min)
  let s := { s with kern := kern }
  match answer with
  | .ready r w e => ({ s with maxfd := -1, walk := .ready r w e }, true)
  | .failed .ebadf => ({ s with maxfd := -1, walk := .badFd }, true)
  | .failed _ | .timeout => (s, false)

def ready (r w e : FdSet) (pd : PollFd) : BitVec 16 :=
  (if pd.reads ∧ r pd.fd then pollIn else 0) ||| (if pd.writes ∧ w pd.fd then pollOut else 0) |||
    (if pd.excepts ∧ e pd.fd then pollPri else 0)

/-- revents of one pollfd in _st_select_find_bad_fd. -/
def bad (K : Kernel κ ω) (kern : κ) (pd : PollFd) : BitVec 16 :=
  if pd.events ≠ 0 ∧ K.fcntl kern pd.fd then pollNval else 0

def visit (K : Kernel κ ω) (s : State κ) (pds : List PollFd) : State κ × List PollFd × Bool :=
  let seen := pds.map fun pd => { pd with
    revents := match s.walk with
      | .ready r w e => ready r w e pd
      | .badFd => bad K s.kern pd }
  (s, seen, seen.any fun pd => pd.revents ≠ 0)

/-- pq_max_osfd; the search for bad descriptors skips entries without events. -/
def pqMaxOsfd (walk : Walk) (pds : List PollFd) : Int :=
  pds.foldl (fun m pd =>
    match walk with
    | .ready _ _ _ => if m < pd.fd then pd.fd else m
    | .badFd => if pd.events = 0 then m else if m < pd.fd then pd.fd else m) (-1)

def stay (s : State κ) (pds : List PollFd) : State κ :=
  if s.maxfd < pqMaxOsfd s.walk pds then { s with maxfd := pqMaxOsfd s.walk pds } else s

def fdNew (osfd : Int) : Option AddError := if fdSetSize ≤ osfd then some .emfile else none

def fdClose (s : State κ) (osfd : Int) : Option Errno :=
  if s.readCnt osfd ≠ 0 ∨ s.writeCnt osfd ≠ 0 ∨ s.excepCnt osfd ≠ 0 then some .ebusy else none

def init (kern : κ) : State κ where
  readSet _ := false
  writeSet _ := false
  excepSet _ := false
  readCnt _ := 0
  writeCnt _ := 0
  excepCnt _ := 0
  maxfd := -1
  walk := .badFd
  kern := kern

def eventSys (K : Kernel κ ω) : EventSys (State κ) ω where
  initial s := s = init s.kern
  pollsetAdd := pollsetAdd
  pollsetDel := pollsetDel
  wait s min _ := some (wait K s min)
  visit := visit K
  withdraw := pollsetDel
  stay := stay
  finish s := s
  fdNew s osfd := some (s, fdNew osfd)
  outside s w := { s with kern := K.outside s.kern w }

end StateThreads.Select
