import Mathlib.Logic.Function.Basic
import StateThreads.Common
import StateThreads.Lib.Run

/-! io.c: st_accept on a system where accept must be serialized between processes. The
processes share the listening socket and the pipe that stands for the lock; the threads are
those of all of them. A step of a thread goes from one system call, or wait, to the next. -/
namespace StateThreads.Serialized
open LabelledRun

abbrev Connection := Nat

inductive Accepted where
  | connection (osfd : Connection)
  | notReady
  | failed (e : Errno)
deriving DecidableEq, Repr

/-- Where a thread stands in st_accept. The flag tells whether p is not NULL, c is the byte
that was read from the pipe, and osfd is kept with err while the lock is given back. -/
inductive Phase where
  | outside
  /-- accept, without a lock. -/
  | accept
  /-- The read of st_read, and the wait in it. -/
  | lock
  | lockPoll
  /-- accept, with the lock. -/
  | locked (c : UInt8)
  /-- The write of st_write, and the wait in it. -/
  | unlock (c : UInt8) (osfd : Accepted)
  | unlockPoll (c : UInt8) (osfd : Accepted)
  /-- Until the socket becomes readable. -/
  | poll (p : Bool)
  | wrap (osfd : Connection)
  /-- ST_ASSERT has failed. -/
  | aborted
  /-- The process ended here. -/
  | dead (last : Phase)
deriving DecidableEq, Repr

def Phase.alive : Phase → Bool
  | .dead _ => false
  | _ => true

structure Listener where
  /-- fd->aux_data, which the processes inherit. -/
  auxData : Bool
  pipe : List UInt8
  /-- How many bytes the pipe can hold. -/
  room : Nat
  backlog : List Connection
  arrived : Nat
  phase : Tid → Phase

inductive Out where
  | void
  | status (r : Int)
  /-- accept has given a descriptor. -/
  | accepted (osfd : Connection)
  /-- st_accept returns an object for it. -/
  | newfd (osfd : Connection)
  /-- It returns NULL with errno, having closed the descriptor it had, if any. -/
  | null (e : Errno) (closed : Option Connection)
  | dropped (osfd : Connection)
deriving DecidableEq, Repr

inductive Label where
  /-- st_netfd_serialize_accept, and whether pipe, the objects and the write came about. -/
  | serializeAccept (made : Bool)
  | enter (t : Tid)
  /-- The system call at which t stands, with an error that does not depend on the pipe and
  the socket, if there is one. -/
  | call (t : Tid) (error : Option Errno)
  /-- st_netfd_poll returns to t. -/
  | polled (t : Tid) (error : Option Errno)
  /-- _st_netfd_new returns to t. -/
  | made (t : Tid) (error : Option Errno)
  | exit (t : Tid)
  | arrive
  /-- The i-th waiting connection is given up by its peer. -/
  | drop (i : Nat)
deriving DecidableEq, Repr

def space : UInt8 := 32

def Listener.move (s : Listener) (t : Tid) (phase : Phase) : Listener :=
  { s with phase := Function.update s.phase t phase }

def stNetfdSerializeAccept (s : Listener) (made : Bool) : Listener × Out :=
  if s.auxData || !made then (s, .status (-1))
  else ({ s with auxData := true, pipe := [space] }, .status 0)

def again (p : Bool) : Phase := if p then .lock else .accept

/-- The rest of the loop, once osfd is there and the lock is given back. -/
def proceed (p : Bool) : Accepted → Phase × Out
  | .connection osfd => (.wrap osfd, .void)
  | .failed e => if e = .eintr then (again p, .void) else (.outside, .null e none)
  | .notReady => (.poll p, .void)

def accept (s : Listener) : Option Errno → Accepted × List Connection
  | some e => (.failed e, s.backlog)
  | none => match s.backlog with
    | [] => (.notReady, [])
    | osfd :: backlog => (.connection osfd, backlog)

def Accepted.out (otherwise : Out) : Accepted → Out
  | .connection osfd => .accepted osfd
  | _ => otherwise

/-- One system call of st_accept, from the phase in which t is. A write to the pipe can fail
only because of a signal, or for want of room. -/
def call (s : Listener) (t : Tid) (error : Option Errno) : Option (Listener × Out) :=
  match s.phase t with
  | .accept =>
    let (osfd, backlog) := accept s error
    let (phase, out) := proceed false osfd
    some ({ s with backlog := backlog }.move t phase, osfd.out out)
  | .lock =>
    match error, s.pipe with
    | some e, _ => if e = .eintr then some (s, .void) else some (s.move t .outside, .null e none)
    | none, [] => some (s.move t .lockPoll, .void)
    | none, c :: pipe => some ({ s with pipe := pipe }.move t (.locked c), .void)
  | .locked c =>
    let (osfd, backlog) := accept s error
    some ({ s with backlog := backlog }.move t (.unlock c osfd), osfd.out .void)
  | .unlock c osfd =>
    match error with
    | some e => if e = .eintr then some (s, .void) else none
    | none =>
      if s.pipe.length < s.room then
        let (phase, out) := proceed true osfd
        some ({ s with pipe := s.pipe ++ [c] }.move t phase, out)
      else some (s.move t (.unlockPoll c osfd), .void)
  | _ => none

/-- A wait that fails in st_read makes st_accept fail; in st_write it makes n other than 1. -/
def polled (s : Listener) (t : Tid) (error : Option Errno) : Option (Listener × Out) :=
  match s.phase t, error with
  | .lockPoll, none => some (s.move t .lock, .void)
  | .lockPoll, some e => some (s.move t .outside, .null e none)
  | .unlockPoll c osfd, none => some (s.move t (.unlock c osfd), .void)
  | .unlockPoll _ _, some _ => some (s.move t .aborted, .void)
  | .poll p, none => some (s.move t (again p), .void)
  | .poll _, some e => some (s.move t .outside, .null e none)
  | _, _ => none

def made (s : Listener) (t : Tid) (error : Option Errno) : Option (Listener × Out) :=
  match s.phase t, error with
  | .wrap osfd, none => some (s.move t .outside, .newfd osfd)
  | .wrap osfd, some e => some (s.move t .outside, .null e (some osfd))
  | _, _ => none

def listenerStep (s : Listener) : Label → Option (Listener × Out)
  | .serializeAccept ok => some (stNetfdSerializeAccept s ok)
  | .enter t => if s.phase t = .outside then some (s.move t (again s.auxData), .void) else none
  | .call t error => call s t error
  | .polled t error => polled s t error
  | .made t error => made s t error
  | .exit t => if (s.phase t).alive then some (s.move t (.dead (s.phase t)), .void) else none
  | .arrive => some ({ s with backlog := s.backlog ++ [s.arrived], arrived := s.arrived + 1 }, .void)
  | .drop i => (s.backlog[i]?).map fun osfd => ({ s with backlog := s.backlog.eraseIdx i }, .dropped osfd)

def listenerEnabled (_ : Listener) (_ : Label) : Bool := true

def listenerMachine : Machine Listener Label Out := ⟨listenerEnabled, listenerStep⟩

abbrev ListenerEvent := Event Listener Label Out

structure Started (s : Listener) : Prop where
  plain : s.auxData = false
  empty : s.pipe = []
  room : 0 < s.room
  backlog : s.backlog = []
  arrived : s.arrived = 0
  outside : ∀ t, s.phase t = .outside

abbrev ListenerRun : List ListenerEvent → Listener → Prop := Run listenerMachine Started

end StateThreads.Serialized
