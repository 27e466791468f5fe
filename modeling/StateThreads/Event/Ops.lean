import StateThreads.Vp

/-! The table of an event system, _st_eventsys_t. The three dispatch functions have
one shape: wait in the kernel, and if it reports anything walk io_q, set revents of
each pollq, and take the notified ones off the queue and make their threads
runnable. The table holds the parts that differ. -/
namespace StateThreads

/-- What pollset_add or fd_new may leave in errno: their own checks, a failed
reallocation, or an error that epoll_ctl documents. None of them is EINTR. -/
inductive AddError where
  | einval | enomem | emfile | ebadf | eexist | eloop | enoent | enospc | eperm
deriving DecidableEq, Repr

def AddError.errno : AddError → Errno
  | .einval => .einval
  | .enomem => .enomem
  | .emfile => .emfile
  | .ebadf => .ebadf
  | .eexist => .eexist
  | .eloop => .eloop
  | .enoent => .enoent
  | .enospc => .enospc
  | .eperm => .eperm

/- Bits of events and revents; those of epoll have the same values. -/

def pollIn : BitVec 16 := 0x01
def pollPri : BitVec 16 := 0x02
def pollOut : BitVec 16 := 0x04
def pollErr : BitVec 16 := 0x08
def pollHup : BitVec 16 := 0x10
def pollNval : BitVec 16 := 0x20

def PollFd.reads (pd : PollFd) : Bool := pd.events &&& pollIn ≠ 0
def PollFd.writes (pd : PollFd) : Bool := pd.events &&& pollOut ≠ 0
def PollFd.excepts (pd : PollFd) : Bool := pd.events &&& pollPri ≠ 0

def cInt (n : Nat) : Int := (BitVec.ofNat 32 n).toInt

/-- The int handed to poll and epoll_wait: milliseconds, or -1 without a timer. -/
def msTimeout : Option UTime → Int
  | none => -1
  | some t => cInt (t.val / 1000)

/-- An event system with its data and the kernel behind it in σ; ω are the changes
of the world outside the library. A call that does not return is none. -/
structure EventSys (σ ω : Type) where
  initial : σ → Prop
  pollsetAdd : σ → List PollFd → Option (σ × Option AddError)
  pollsetDel : σ → List PollFd → σ
  /-- Dispatch up to its system call, given the time to the first timer and the
  pollfd arrays on io_q; true when the walk over io_q follows. -/
  wait : σ → Option UTime → List (List PollFd) → Option (σ × Bool)
  /-- The loop over one pollfd array, and whether its thread is notified. -/
  visit : σ → List PollFd → σ × List PollFd × Bool
  /-- Bookkeeping for a pollq that leaves io_q. -/
  withdraw : σ → List PollFd → σ
  /-- Bookkeeping for a pollq that stays on io_q. -/
  stay : σ → List PollFd → σ
  /-- What follows the walk. -/
  finish : σ → σ
  fdNew : σ → Int → Option (σ × Option AddError)
  outside : σ → ω → σ

def minTimeout (vp : Vp) : Option UTime :=
  (vp.sleepQ.link .root).map fun thread =>
    if vp.sleepQ.due thread ≤ vp.lastClock then 0 else vp.sleepQ.due thread - vp.lastClock

variable {σ ω : Type}

/-- The walk over io_q. The source reads the next link of an entry after it has been
unlinked, which still leads on to the rest of the queue. -/
def dispatchLoop (E : EventSys σ ω) : List Tid → σ → Vp → Option (σ × Vp)
  | [], evt, vp => some (evt, vp)
  | thread :: q, evt, vp =>
    let (evt, pds, notify) := E.visit evt (vp.pollq thread).pds
    let vp := vp.setPollq thread { vp.pollq thread with pds := pds }
    if notify then do
      let vp ← vp.delIoq thread
      let vp := vp.setPollq thread { vp.pollq thread with onIoq := false }
      let vp ← vp.offSleepq thread
      let vp ← vp.makeRunnable thread
      dispatchLoop E q (E.withdraw evt pds) vp
    else dispatchLoop E q (E.stay evt pds) vp

def dispatch (E : EventSys σ ω) (evt : σ) (vp : Vp) : Option (σ × Vp) := do
  let (evt, found) ← E.wait evt (minTimeout vp) (vp.ioQ.map fun t => (vp.pollq t).pds)
  if found then do
    let (evt, vp) ← dispatchLoop E vp.ioQ evt vp
    some (E.finish evt, vp)
  else some (evt, vp)

end StateThreads
