import StateThreads.Event.Epoll
import StateThreads.Event.Select

/-! The kqueue event system of event.c. A registration of the kernel is named by a
descriptor and a filter, and each of these has a reference count of its own. -/
namespace StateThreads.Kqueue

inductive Filter where
  | read | write
deriving DecidableEq, Repr

def Filter.bit : Filter → BitVec 16
  | .read => pollIn
  | .write => pollOut

structure Knote where
  ident : Int
  filter : Filter
deriving DecidableEq, Repr

/-- EV_ADD with EV_ONESHOT, or EV_DELETE. -/
inductive Action where
  | add | delete
deriving DecidableEq, Repr

structure Change where
  knote : Knote
  action : Action
deriving DecidableEq, Repr

/-- An entry that kevent has filled in. With EV_ERROR set, error is its data. -/
structure Report where
  knote : Knote
  error : Option Errno
deriving DecidableEq, Repr

inductive Answer where
  | events (list : List Report)
  | failed (errno : Errno)
deriving DecidableEq, Repr

/-- struct _st_kqdata. The fields rd_ref_cnt and wr_ref_cnt of fd_data are the counts of
the two knotes of a descriptor, and revents never has other bits than those of poll. The
lists hold the entries that are in use. -/
structure Data where
  refCnt : Knote → Int
  revents : Int → BitVec 16
  evtlist : List Report
  addlist : List Change
  dellist : List Change
  fdDataSize : Int
  evtlistSize : Int
  addlistSize : Int
  dellistSize : Int
  kq : Int
  pid : Nat

/-- The system calls. The time-out of kevent is in seconds and nanoseconds. A loop that
calls kevent again after a signal is interrupted at most signals times. -/
structure Kernel (κ ω : Type) where
  kevent : κ → Int → List Change → Int → Option (Int × Int) → κ × Answer
  kqueue : κ → κ × Option Int
  realloc : κ → Int → κ × Bool
  getpid : κ → Nat
  signals : κ → Nat
  outside : κ → ω → κ

structure State (κ : Type) where
  data : Data
  kern : κ

/-- The counts that the two tests of a pollfd entry move, in their order. -/
def knotes (pd : PollFd) : List Knote :=
  (if pd.reads then [⟨pd.fd, .read⟩] else []) ++ (if pd.writes then [⟨pd.fd, .write⟩] else [])

variable {κ ω : Type}

def fdDataExpand (K : Kernel κ ω) (s : State κ) (maxfd : Int) : Option (State κ × Bool) := do
  let n ← Epoll.doubled maxfd 32 s.data.fdDataSize
  let (kern, ok) := K.realloc s.kern n
  if ok then
    let added := fun fd => s.data.fdDataSize ≤ fd ∧ fd < n
    some (⟨{ s.data with
      refCnt := fun k => if added k.ident then 0 else s.data.refCnt k
      revents := fun fd => if added fd then 0 else s.data.revents fd
      fdDataSize := n }, kern⟩, true)
  else some (⟨s.data, kern⟩, false)

def addlistExpand (K : Kernel κ ω) (s : State κ) (avail : Int) : Option (State κ × Bool) := do
  let n ← Epoll.doubled (avail + s.data.addlist.length - 1) 32 s.data.addlistSize
  let (kern, ok) := K.realloc s.kern n
  if ok then
    let (kern, wide) := K.realloc kern n
    some (⟨{ s.data with
      addlistSize := n, evtlistSize := if wide then n else s.data.evtlistSize }, kern⟩, true)
  else some (⟨s.data, kern⟩, false)

/-- The result none is the failed assertion. -/
def addlistAdd (d : Data) (kev : Change) : Option Data :=
  if d.addlist.length < d.addlistSize then some { d with addlist := d.addlist ++ [kev] } else none

/-- A change that finds no room is dropped. -/
def dellistAdd (K : Kernel κ ω) (s : State κ) (kev : Change) : State κ :=
  if s.data.dellistSize ≤ s.data.dellist.length then
    let (kern, ok) := K.realloc s.kern (2 * s.data.dellistSize)
    if ok then
      ⟨{ s.data with dellistSize := 2 * s.data.dellistSize, dellist := s.data.dellist ++ [kev] }, kern⟩
    else ⟨s.data, kern⟩
  else ⟨{ s.data with dellist := s.data.dellist ++ [kev] }, s.kern⟩

def checkLoop (K : Kernel κ ω) : List PollFd → State κ → Option (State κ × Option AddError)
  | [], s => some (s, none)
  | pd :: pds, s =>
    if pd.fd < 0 ∨ pd.events = 0 ∨ pd.events &&& ~~~(pollIn ||| pollOut) ≠ 0 then some (s, some .einval)
    else if s.data.fdDataSize ≤ pd.fd then do
      let (s, ok) ← fdDataExpand K s pd.fd
      if ok then checkLoop K pds s else some (s, some .enomem)
    else checkLoop K pds s

/-- if ((events & kind) && cnt++ == 0) addlist_add(EV_ADD | EV_ONESHOT) -/
def addKnote (d : Data) (k : Knote) : Option Data :=
  let counted := { d with refCnt := Function.update d.refCnt k (d.refCnt k + 1) }
  if d.refCnt k = 0 then addlistAdd counted ⟨k, .add⟩ else some counted

def addLoop (d : Data) (pds : List PollFd) : Option Data := (pds.flatMap knotes).foldlM addKnote d

/-- Room for both filters of each descriptor. Doubling npds is undefined from 2^30 on. -/
def reserve (K : Kernel κ ω) (s : State κ) (npds : Nat) : Option (State κ × Bool) :=
  if 2 ^ 30 ≤ npds then none
  else if s.data.addlistSize - s.data.addlist.length < 2 * npds then addlistExpand K s (2 * npds)
  else some (s, true)

def pollsetAdd (K : Kernel κ ω) (s : State κ) (pds : List PollFd) : Option (State κ × Option AddError) := do
  let (s, err) ← checkLoop K pds s
  match err with
  | some e => some (s, some e)
  | none =>
    let (s, ok) ← reserve K s pds.length
    if ok then (addLoop s.data pds).map fun d => (⟨d, s.kern⟩, none) else some (s, some .enomem)

/-- if ((events & kind) && --cnt == 0) dellist_add(EV_DELETE), unless the knote is spared. -/
def release (K : Kernel κ ω) (spared : Data → Knote → Bool) (s : State κ) (k : Knote) : State κ :=
  let counted : State κ := ⟨{ s.data with refCnt := Function.update s.data.refCnt k (s.data.refCnt k - 1) }, s.kern⟩
  if s.data.refCnt k - 1 = 0 ∧ ¬ spared s.data k then dellistAdd K counted ⟨k, .delete⟩ else counted

/-- The call with an empty list of results, again and again while it is interrupted. -/
def flushLoop (K : Kernel κ ω) (kq : Int) (dels : List Change) : Nat → κ → κ
  | 0, kern => (K.kevent kern kq dels 0 none).1
  | more + 1, kern =>
    let (kern, answer) := K.kevent kern kq dels 0 none
    if answer = .failed .eintr then flushLoop K kq dels more kern else kern

def flush (K : Kernel κ ω) (s : State κ) : State κ :=
  if s.data.dellist = [] then s
  else ⟨s.data, flushLoop K s.data.kq s.data.dellist (K.signals s.kern) s.kern⟩

def pollsetDel (K : Kernel κ ω) (s : State κ) (pds : List PollFd) : State κ :=
  flush K ((pds.flatMap knotes).foldl (release K fun _ _ => false) ⟨{ s.data with dellist := [] }, s.kern⟩)

/-- The deletes of dispatch: what has fired is gone already. -/
def fired (d : Data) (k : Knote) : Bool := d.revents k.ident &&& k.filter.bit ≠ 0

def withdraw (K : Kernel κ ω) (s : State κ) (pds : List PollFd) : State κ :=
  (pds.flatMap knotes).foldl (release K fired) s

def timespec : Option UTime → Option (Int × Int)
  | none => none
  | some t => some ((t.val / 1000000 : Nat), (t.val % 1000000 * 1000 : Nat))

def Report.bits (e : Report) : BitVec 16 :=
  e.knote.filter.bit |||
    match e.error with
    | none => 0
    | some .ebadf => pollNval
    | some _ => pollErr

def mark (revents : Int → BitVec 16) (e : Report) : Int → BitVec 16 :=
  Function.update revents e.knote.ident (revents e.knote.ident ||| e.bits)

def register (K : Kernel κ ω) (d : Data) (kq : Int) (kern : κ) (ioq : List (List PollFd)) : Option (State κ) :=
  let inside := fun fd => 0 ≤ fd ∧ fd < d.fdDataSize
  let cleared : Data := { d with
    kq := kq, pid := K.getpid kern
    refCnt := fun k => if inside k.ident then 0 else d.refCnt k
    revents := fun fd => if inside fd then 0 else d.revents fd }
  ioq.foldlM (fun s pds => (pollsetAdd K s pds).map Prod.fst) ⟨cleared, kern⟩

/-- The part of dispatch before the walk, with the jump back to retry_kevent. -/
def waitLoop (K : Kernel κ ω) (min : Option UTime) (ioq : List (List PollFd)) : Nat → State κ → Option (State κ × Bool)
  | 0, _ => none
  | turns + 1, s =>
    let (kern, answer) := K.kevent s.kern s.data.kq s.data.addlist s.data.evtlistSize (timespec min)
    let data := { s.data with addlist := [] }
    match answer with
    | .events list =>
      if list = [] then some (⟨data, kern⟩, false)
      else some (⟨{ data with evtlist := list, revents := list.foldl mark data.revents, dellist := [] }, kern⟩, true)
    | .failed errno =>
      if errno = .ebadf ∧ data.pid ≠ K.getpid kern then
        match K.kqueue kern with
        | (kern, none) => some (⟨{ data with kq := -1 }, kern⟩, false)
        | (kern, some kq) => (register K data kq kern ioq).bind (waitLoop K min ioq turns)
      else some (⟨data, kern⟩, false)

/-- After the first jump back the pid is that of the process. -/
def wait (K : Kernel κ ω) (s : State κ) (min : Option UTime) (ioq : List (List PollFd)) : Option (State κ × Bool) :=
  waitLoop K min ioq 2 s

def look (d : Data) (pd : PollFd) : PollFd :=
  { pd with revents := (d.revents pd.fd &&& ~~~(pollIn ||| pollOut)) |||
      (if pd.reads ∧ d.revents pd.fd &&& pollIn ≠ 0 then pollIn else 0) |||
      (if pd.writes ∧ d.revents pd.fd &&& pollOut ≠ 0 then pollOut else 0) }

def visit (s : State κ) (pds : List PollFd) : State κ × List PollFd × Bool :=
  let seen := pds.map (look s.data)
  (s, seen, seen.any fun pd => pd.revents ≠ 0)

def clear (revents : Int → BitVec 16) (e : Report) : Int → BitVec 16 := Function.update revents e.knote.ident 0

def finish (K : Kernel κ ω) (s : State κ) : State κ :=
  let s := flush K s
  ⟨{ s.data with revents := s.data.evtlist.foldl clear s.data.revents }, s.kern⟩

def fdNew (K : Kernel κ ω) (s : State κ) (osfd : Int) : Option (State κ × Option AddError) :=
  if s.data.fdDataSize ≤ osfd then
    (fdDataExpand K s osfd).map fun r => (r.1, if r.2 then none else some .enomem)
  else some (s, none)

def fdClose (d : Data) (osfd : Int) : Option Errno :=
  if d.refCnt ⟨osfd, .read⟩ ≠ 0 ∨ d.refCnt ⟨osfd, .write⟩ ≠ 0 then some .ebusy else none

/-- What _st_kq_init leaves when every call in it succeeds. Its text stands in event.c as
a comment. -/
def init (kq : Int) (pid : Nat) : Data where
  refCnt _ := 0
  revents _ := 0
  evtlist := []
  addlist := []
  dellist := []
  fdDataSize := Select.fdSetSize
  evtlistSize := 64
  addlistSize := 64
  dellistSize := 64
  kq := kq
  pid := pid

def eventSys (K : Kernel κ ω) (created : κ → Int → Prop) : EventSys (State κ) ω where
  initial s := ∃ kq, created s.kern kq ∧ s.data = init kq (K.getpid s.kern)
  pollsetAdd := pollsetAdd K
  pollsetDel := pollsetDel K
  wait := wait K
  visit := visit
  withdraw := withdraw K
  stay s _ := s
  finish := finish K
  fdNew := fdNew K
  outside s w := ⟨s.data, K.outside s.kern w⟩

end StateThreads.Kqueue
