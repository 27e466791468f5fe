import StateThreads.Event.Ops

/-! The poll event system of event.c. -/
namespace StateThreads.Poll

/-- poll(2) and malloc, on a kernel state κ. The answer of poll is its return value and
the revents of each entry it was given. -/
structure Kernel (κ ω : Type) where
  poll : κ → List PollFd → Int → κ × Int × List (BitVec 16)
  malloc : κ → Int → κ × Bool
  outside : κ → ω → κ

/-- struct _st_polldata, with the array that dispatch builds and the place in it where
the walk over io_q stands. fdcnt is _ST_POLL_OSFD_CNT, an int. -/
structure State (κ : Type) where
  pollfds : List PollFd
  pollfdsSize : Int
  fdcnt : Int
  cursor : Nat
  kern : κ

variable {κ ω : Type}

def pollsetAdd (s : State κ) (pds : List PollFd) : Option (State κ × Option AddError) :=
  if pds.any fun pd => pd.fd < 0 || pd.events = 0 then some (s, some .einval)
  else some ({ s with fdcnt := toInt32 (s.fdcnt + pds.length) }, none)

def pollsetDel (s : State κ) (pds : List PollFd) : State κ := { s with fdcnt := toInt32 (s.fdcnt - pds.length) }

def reserve (K : Kernel κ ω) (s : State κ) : Option (State κ) :=
  if s.pollfdsSize < s.fdcnt then
    let size := toInt32 (s.fdcnt + 10)
    let (kern, ok) := K.malloc s.kern size
    if ok then some { s with kern := kern, pollfds := [], pollfdsSize := size } else none
  else some s

/-- Gather all descriptors into the array and ask the kernel. More entries than fit
fail an assertion. -/
def wait (K : Kernel κ ω) (s : State κ) (min : Option UTime) (ioq : List (List PollFd)) :
    Option (State κ × Bool) := do
  let s ← if s.fdcnt < 0 then none else reserve K s
  let gathered := ioq.flatten
  if s.pollfdsSize < gathered.length then none
  else
    let pollfds := gathered ++ s.pollfds.drop gathered.length
    let asked := pollfds.take s.fdcnt.toNat
    let (kern, nfd, revents) := K.poll s.kern asked (msTimeout min)
    let answered := asked.zipWith (fun pd r => { pd with revents := r }) revents
    some ({ s with kern := kern, cursor := 0, pollfds := answered ++ pollfds.drop answered.length }, decide (0 < nfd))

def visit (s : State κ) (pds : List PollFd) : State κ × List PollFd × Bool :=
  let slice := (s.pollfds.drop s.cursor).take pds.length
  let notify := slice.any fun pd => pd.revents ≠ 0
  ({ s with cursor := s.cursor + pds.length }, if notify then slice else pds, notify)

/-- The poll event system. No counts are kept for a descriptor, so there is nothing to
check when one is opened. -/
def eventSys (K : Kernel κ ω) : EventSys (State κ) ω where
  initial s := s.pollfds = [] ∧ s.pollfdsSize = 64 ∧ s.fdcnt = 0
  pollsetAdd := pollsetAdd
  pollsetDel := pollsetDel
  wait := wait K
  visit := visit
  withdraw := pollsetDel
  stay s _ := s
  finish s := s
  fdNew s _ := some (s, none)
  outside s w := { s with kern := K.outside s.kern w }

end StateThreads.Poll
