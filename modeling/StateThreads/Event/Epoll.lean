import StateThreads.Event.Ops

/-! The epoll event system of event.c. The table fd_data is a function; an index
outside [0, fd_data_size) would be an access outside the array. -/
namespace StateThreads.Epoll

structure FdData where
  rdRefCnt : Int
  wrRefCnt : Int
  exRefCnt : Int
  revents : BitVec 32
deriving DecidableEq, Repr

/-- struct _st_epolldata; evtlist holds the entries that epoll_wait filled in. -/
structure Data where
  fdData : Int → FdData
  evtlist : List (Int × BitVec 32)
  fdDataSize : Int
  evtlistSize : Int
  evtlistCnt : Int
  fdHint : Int
  epfd : Int
  pid : Nat

inductive CtlOp where
  | add | mod | del
deriving DecidableEq, Repr

/-- The system calls, on a kernel state κ that is changed from outside by ω. A result
of none from epoll_ctl is success, an answer of epoll_wait without events stands for a
time-out or an error. -/
structure Kernel (κ ω : Type) where
  epollCtl : κ → Int → CtlOp → Int → BitVec 32 → κ × Option AddError
  epollWait : κ → Int → Int → Int → κ × List (Int × BitVec 32)
  epollCreate : κ → Int → κ × Option Int
  close : κ → Int → κ
  realloc : κ → Int → κ × Bool
  getpid : κ → Nat
  outside : κ → ω → κ

structure State (κ : Type) where
  data : Data
  kern : κ

def epollIn : BitVec 32 := 0x01
def epollPri : BitVec 32 := 0x02
def epollOut : BitVec 32 := 0x04
def epollErr : BitVec 32 := 0x08
def epollHup : BitVec 32 := 0x10

def FdData.events (d : FdData) : BitVec 32 :=
  (if d.rdRefCnt ≠ 0 then epollIn else 0) ||| (if d.wrRefCnt ≠ 0 then epollOut else 0) |||
    (if d.exRefCnt ≠ 0 then epollPri else 0)

def Data.setFd (d : Data) (fd : Int) (x : FdData) : Data :=
  { d with fdData := Function.update d.fdData fd x }

def FdData.count (x : FdData) (pd : PollFd) (by_ : Int) : FdData :=
  { x with
    rdRefCnt := if pd.reads then x.rdRefCnt + by_ else x.rdRefCnt
    wrRefCnt := if pd.writes then x.wrRefCnt + by_ else x.wrRefCnt
    exRefCnt := if pd.excepts then x.exRefCnt + by_ else x.exRefCnt }

/- The loops that double a table size. An int from 2^30 on has no double that is an int,
and shifting it is undefined: the result none says that the loop does not end in a size. -/
def doubled (bound : Int) : Nat → Int → Option Int
  | 0, _ => none
  | fuel + 1, n => if bound < n then some n else if 2 ^ 30 ≤ n then none else doubled bound fuel (2 * n)

variable {κ ω : Type}

def fdDataExpand (K : Kernel κ ω) (s : State κ) (maxfd : Int) : Option (State κ × Bool) := do
  let n ← doubled maxfd 32 s.data.fdDataSize
  let (kern, ok) := K.realloc s.kern n
  if ok then
    let fdData := fun fd => if s.data.fdDataSize ≤ fd ∧ fd < n then ⟨0, 0, 0, 0⟩ else s.data.fdData fd
    some (⟨{ s.data with fdData := fdData, fdDataSize := n }, kern⟩, true)
  else some (⟨s.data, kern⟩, false)

def evtlistExpand (K : Kernel κ ω) (s : State κ) : Option (State κ) := do
  let n ← doubled (s.data.evtlistCnt - 1) 32 s.data.evtlistSize
  let (kern, ok) := K.realloc s.kern n
  if ok then some ⟨{ s.data with evtlistSize := n }, kern⟩ else some ⟨s.data, kern⟩

/-- One turn of the loop of _st_epoll_pollset_del. -/
def delOne (K : Kernel κ ω) (s : State κ) (pd : PollFd) : State κ :=
  let old := s.data.fdData pd.fd
  let x := old.count pd (-1)
  let data := s.data.setFd pd.fd x
  if x.events ≠ old.events ∧ x.revents = 0 then
    let op := if x.events ≠ 0 then CtlOp.mod else .del
    let (kern, err) := K.epollCtl s.kern data.epfd op pd.fd x.events
    if err = none ∧ op = .del then ⟨{ data with evtlistCnt := data.evtlistCnt - 1 }, kern⟩ else ⟨data, kern⟩
  else ⟨data, s.kern⟩

def pollsetDel (K : Kernel κ ω) (s : State κ) (pds : List PollFd) : State κ := pds.foldl (delOne K) s

/-- The checks up front, which may grow the table before one of them fails. -/
def checkLoop (K : Kernel κ ω) : List PollFd → State κ → Option (State κ × Option AddError)
  | [], s => some (s, none)
  | pd :: pds, s =>
    if pd.fd < 0 ∨ pd.events = 0 ∨ pd.events &&& ~~~(pollIn ||| pollOut ||| pollPri) ≠ 0 then
      some (s, some .einval)
    else if s.data.fdDataSize ≤ pd.fd then do
      let (s, ok) ← fdDataExpand K s pd.fd
      if ok then checkLoop K pds s else some (s, some .enomem)
    else checkLoop K pds s

/-- One turn of the second loop of _st_epoll_pollset_add. -/
def addOne (K : Kernel κ ω) (s : State κ) (pd : PollFd) : Option (State κ × Option AddError) :=
  let old := s.data.fdData pd.fd
  let x := old.count pd 1
  let data := s.data.setFd pd.fd x
  if x.events ≠ old.events then
    let op := if old.events ≠ 0 then CtlOp.mod else .add
    let (kern, err) := K.epollCtl s.kern data.epfd op pd.fd x.events
    if err ≠ none ∧ (op ≠ .add ∨ err ≠ some .eexist) then some (⟨data, kern⟩, err)
    else if op = .add then
      let data := { data with evtlistCnt := data.evtlistCnt + 1 }
      if data.evtlistSize < data.evtlistCnt then (evtlistExpand K ⟨data, kern⟩).map fun s => (s, none)
      else some (⟨data, kern⟩, none)
    else some (⟨data, kern⟩, none)
  else some (⟨data, s.kern⟩, none)

/-- The second loop; when it breaks off it says at which index. -/
def addLoop (K : Kernel κ ω) : List PollFd → Nat → State κ → Option (State κ × Option (AddError × Nat))
  | [], _, s => some (s, none)
  | pd :: pds, i, s => do
    let (s, err) ← addOne K s pd
    match err with
    | some e => some (s, some (e, i))
    | none => addLoop K pds (i + 1) s

def pollsetAdd (K : Kernel κ ω) (s : State κ) (pds : List PollFd) : Option (State κ × Option AddError) := do
  let (s, err) ← checkLoop K pds s
  match err with
  | some e => some (s, some e)
  | none =>
    let (s, stop) ← addLoop K pds 0 s
    match stop with
    | none => some (s, none)
    | some (e, i) => some (pollsetDel K s (pds.take (i + 1)), some e)

/-- The branch of dispatch taken after a fork: a new epoll set, and all descriptors on
io_q put into it. The results of pollset_add are not looked at. -/
def afterFork (K : Kernel κ ω) (s : State κ) (ioq : List (List PollFd)) : Option (State κ × Bool) :=
  let kern := K.close s.kern s.data.epfd
  match K.epollCreate kern s.data.fdHint with
  | (kern, none) => some (⟨{ s.data with epfd := -1 }, kern⟩, false)
  | (kern, some epfd) => do
    let data := { s.data with
      epfd := epfd, pid := K.getpid kern, evtlistCnt := 0
      fdData := fun fd => if 0 ≤ fd ∧ fd < s.data.fdDataSize then ⟨0, 0, 0, 0⟩ else s.data.fdData fd }
    let s ← ioq.foldlM (fun s pds => (pollsetAdd K s pds).map Prod.fst) (⟨data, kern⟩ : State κ)
    some (s, true)

def mark (d : Data) (e : Int × BitVec 32) : Data :=
  let x := d.fdData e.1
  let revents := if e.2 &&& (epollErr ||| epollHup) ≠ 0 then e.2 ||| x.events else e.2
  d.setFd e.1 { x with revents := revents }

def epollWait (K : Kernel κ ω) (s : State κ) (timeout : Int) : State κ × Bool :=
  let (kern, events) := K.epollWait s.kern s.data.epfd s.data.evtlistSize timeout
  (⟨events.foldl mark { s.data with evtlist := events }, kern⟩, events ≠ [])

def wait (K : Kernel κ ω) (s : State κ) (min : Option UTime) (ioq : List (List PollFd)) :
    Option (State κ × Bool) :=
  if s.data.pid ≠ K.getpid s.kern then do
    let (s, created) ← afterFork K s ioq
    if created then some (epollWait K s (msTimeout min)) else some (s, false)
  else some (epollWait K s (msTimeout min))

def result (reported : BitVec 32) (pd : PollFd) : BitVec 16 :=
  (if pd.reads ∧ reported &&& epollIn ≠ 0 then pollIn else 0) |||
    (if pd.writes ∧ reported &&& epollOut ≠ 0 then pollOut else 0) |||
    (if pd.excepts ∧ reported &&& epollPri ≠ 0 then pollPri else 0) |||
    (if reported &&& epollErr ≠ 0 then pollErr else 0) ||| (if reported &&& epollHup ≠ 0 then pollHup else 0)

def look (d : Data) (pd : PollFd) : PollFd :=
  if (d.fdData pd.fd).revents = 0 then { pd with revents := 0 }
  else { pd with revents := result (d.fdData pd.fd).revents pd }

def visit (s : State κ) (pds : List PollFd) : State κ × List PollFd × Bool :=
  let seen := pds.map (look s.data)
  (s, seen, seen.any fun pd => pd.revents ≠ 0)

/-- One turn of the last loop: a descriptor that fired is deleted or modified. -/
def settle (K : Kernel κ ω) (s : State κ) (e : Int × BitVec 32) : State κ :=
  let x := { s.data.fdData e.1 with revents := 0 }
  let data := s.data.setFd e.1 x
  let op := if x.events ≠ 0 then CtlOp.mod else .del
  let (kern, err) := K.epollCtl s.kern data.epfd op e.1 x.events
  if err = none ∧ op = .del then ⟨{ data with evtlistCnt := data.evtlistCnt - 1 }, kern⟩ else ⟨data, kern⟩

def finish (K : Kernel κ ω) (s : State κ) : State κ := s.data.evtlist.foldl (settle K) s

def fdNew (K : Kernel κ ω) (s : State κ) (osfd : Int) : Option (State κ × Option AddError) :=
  if s.data.fdDataSize ≤ osfd then
    (fdDataExpand K s osfd).map fun r => (r.1, if r.2 then none else some .enomem)
  else some (s, none)

def fdClose (d : Data) (osfd : Int) : Option Errno :=
  if (d.fdData osfd).rdRefCnt ≠ 0 ∨ (d.fdData osfd).wrRefCnt ≠ 0 ∨ (d.fdData osfd).exRefCnt ≠ 0 then some .ebusy
  else none

/-- fd_hint, from the descriptor limit. -/
def fdHint (fdlim : Int) : Int := if 0 < fdlim ∧ fdlim < 4096 then fdlim else 4096

/-- _st_epoll_init when every call in it succeeds; it fails otherwise. -/
def init (fdlim epfd : Int) (pid : Nat) : Data where
  fdData _ := ⟨0, 0, 0, 0⟩
  evtlist := []
  fdDataSize := fdHint fdlim
  evtlistSize := fdHint fdlim
  evtlistCnt := 0
  fdHint := fdHint fdlim
  epfd := epfd
  pid := pid

def eventSys (K : Kernel κ ω) (created : κ → Int → Prop) : EventSys (State κ) ω where
  initial s := ∃ fdlim epfd, created s.kern epfd ∧ s.data = init fdlim epfd (K.getpid s.kern)
  pollsetAdd := pollsetAdd K
  pollsetDel := pollsetDel K
  wait := wait K
  visit := visit
  withdraw := pollsetDel K
  stay s _ := s
  finish := finish K
  fdNew := fdNew K
  outside s w := ⟨s.data, K.outside s.kern w⟩

end StateThreads.Epoll
