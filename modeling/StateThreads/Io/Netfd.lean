import Mathlib.Logic.Function.Basic
import StateThreads.Lib.Lifo
import StateThreads.Lib.Run

/-! The descriptor objects of io.c, on a system where accept need not be serialized. A call
that reaches a destructor stops there: its rest is kept until the destructor returns, and
meanwhile the destructor, or another thread if it blocks, makes calls of its own. -/
namespace StateThreads
open LabelledRun

abbrev NetfdId := Nat

abbrev Private := Option Nat × Option Nat

structure Netfd where
  osfd : Int
  inuse : Bool
  privateData : Option Nat
  destructor : Option Nat
  auxData : Option Nat
  next : Option NetfdId
deriving DecidableEq, Repr

structure Netfds where
  obj : NetfdId → Netfd
  freelist : Option NetfdId
  made : List NetfdId

def Netfds.boot : Netfds := ⟨fun _ => ⟨0, false, none, none, none, none⟩, none, []⟩

def Netfds.modify (s : Netfds) (fd : NetfdId) (f : Netfd → Netfd) : Netfds :=
  { s with obj := Function.update s.obj fd (f (s.obj fd)) }

inductive Freer where
  | user
  | close
  | new
deriving DecidableEq, Repr

inductive Rest where
  | free (fd : NetfdId) (freer : Freer)
  | set (fd : NetfdId) (value destructor : Option Nat)
deriving DecidableEq, Repr

/-- How a step ends: in the return of a call, or at the call of a destructor on the private
value of an object. -/
inductive NetfdOut where
  | void
  | status (r : Int)
  | object (fd : Option NetfdId)
  | destroy (fd : NetfdId) (value destructor : Nat)
deriving DecidableEq, Repr

structure Progress where
  netfds : Netfds
  out : NetfdOut
  rest : Option Rest

def Freer.out (closed : Int) : Freer → NetfdOut
  | .user => .void
  | .close => .status closed
  | .new => .object none

/-- st_netfd_free after the destructor. -/
def linkFree (s : Netfds) (fd : NetfdId) : Netfds :=
  { s.modify fd fun o => { o with privateData := none, destructor := none, next := s.freelist } with freelist := some fd }

def stNetfdFreeAuxData (s : Netfds) (fd : NetfdId) : Netfds := s.modify fd fun o => { o with auxData := none }

def stNetfdFree (s : Netfds) (fd : NetfdId) (freer : Freer) (closed : Int) : Progress :=
  if (s.obj fd).inuse = false then ⟨s, freer.out closed, none⟩
  else
    let s := s.modify fd fun o => { o with inuse := false }
    let s := if (s.obj fd).auxData.isSome then stNetfdFreeAuxData s fd else s
    match (s.obj fd).privateData, (s.obj fd).destructor with
    | some value, some destructor => ⟨s, .destroy fd value destructor, some (.free fd freer)⟩
    | _, _ => ⟨linkFree s fd, freer.out closed, none⟩

structure NewAnswers where
  fdNew : Bool
  object : Option NetfdId
  fionbio : Bool
  getfl : Bool
  setfl : Bool
deriving DecidableEq, Repr

def takeNetfd (s : Netfds) (object : Option NetfdId) : Option (Netfds × NetfdId) :=
  match s.freelist with
  | some fd => some ({ s with freelist := (s.obj fd).next }, fd)
  | none => object.map fun fd =>
      ({ s.modify fd fun _ => ⟨0, false, none, none, none, none⟩ with made := fd :: s.made }, fd)

def stNetfdNew (s : Netfds) (osfd : Int) (nonblock isSocket : Bool) (answers : NewAnswers) : Progress :=
  if answers.fdNew = false then ⟨s, .object none, none⟩
  else
    match takeNetfd s answers.object with
    | none => ⟨s, .object none, none⟩
    | some (s, fd) =>
      let s := s.modify fd fun o => { o with osfd := osfd, inuse := true, next := none }
      if nonblock then
        -- use just one system call, or do it the Posix way
        if isSocket && answers.fionbio then ⟨s, .object (some fd), none⟩
        else if answers.getfl = false || answers.setfl = false then stNetfdFree s fd .new 0
        else ⟨s, .object (some fd), none⟩
      else ⟨s, .object (some fd), none⟩

def stNetfdOpen (s : Netfds) (osfd : Int) (answers : NewAnswers) : Progress := stNetfdNew s osfd true false answers

def stNetfdOpenSocket (s : Netfds) (osfd : Int) (answers : NewAnswers) : Progress := stNetfdNew s osfd true true answers

/-- The event system refuses to close a descriptor that somebody polls. -/
def stNetfdClose (s : Netfds) (fd : NetfdId) (fdClose : Bool) (closed : Int) : Progress :=
  if fdClose = false then ⟨s, .status (-1), none⟩ else stNetfdFree s fd .close closed

/-- st_netfd_setspecific after the destructor. -/
def storeSpecific (s : Netfds) (fd : NetfdId) (value destructor : Option Nat) : Netfds :=
  s.modify fd fun o => { o with privateData := value, destructor := destructor }

def stNetfdSetspecific (s : Netfds) (fd : NetfdId) (value destructor : Option Nat) : Progress :=
  if value ≠ (s.obj fd).privateData then
    match (s.obj fd).privateData, (s.obj fd).destructor with
    | some old, some destroy => ⟨s, .destroy fd old destroy, some (.set fd value destructor)⟩
    | _, _ => ⟨storeSpecific s fd value destructor, .void, none⟩
  else ⟨storeSpecific s fd value destructor, .void, none⟩

def stNetfdSerializeAccept (s : Netfds) (fd : NetfdId) : Progress :=
  ⟨s.modify fd fun o => { o with auxData := none }, .status 0, none⟩

/- The objects in use by a program. -/

/-- The objects, and the rests of the calls whose destructor has not returned. A destructor
may block, so the calls need not end in the order in which they were made. -/
structure NetfdSystem where
  netfds : Netfds
  pending : List Rest

inductive NetfdLabel where
  | open (osfd : Int) (answers : NewAnswers)
  | openSocket (osfd : Int) (answers : NewAnswers)
  /-- A connection that st_accept got. Where the mode is inherited it is not set again. -/
  | accepted (osfd : Int) (inherited : Bool) (answers : NewAnswers)
  | free (fd : NetfdId)
  | close (fd : NetfdId) (fdClose : Bool) (closed : Int)
  | setspecific (fd : NetfdId) (value destructor : Option Nat)
  | serializeAccept (fd : NetfdId)
  /-- The destructor that the i-th pending call waits for returns. -/
  | return (i : Nat) (closed : Int)
deriving DecidableEq, Repr

def Progress.system (p : Progress) (pending : List Rest) : NetfdSystem × NetfdOut :=
  (⟨p.netfds, p.rest.toList ++ pending⟩, p.out)

def Rest.resume (s : Netfds) (closed : Int) : Rest → Progress
  | .free fd freer => ⟨linkFree s fd, freer.out closed, none⟩
  | .set fd value destructor => ⟨storeSpecific s fd value destructor, .void, none⟩

def netfdStep (s : NetfdSystem) : NetfdLabel → Option (NetfdSystem × NetfdOut)
  | .open osfd answers => some ((stNetfdOpen s.netfds osfd answers).system s.pending)
  | .openSocket osfd answers => some ((stNetfdOpenSocket s.netfds osfd answers).system s.pending)
  | .accepted osfd inherited answers => some ((stNetfdNew s.netfds osfd (!inherited) true answers).system s.pending)
  | .free fd => some ((stNetfdFree s.netfds fd .user 0).system s.pending)
  | .close fd fdClose closed => some ((stNetfdClose s.netfds fd fdClose closed).system s.pending)
  | .setspecific fd value destructor => some ((stNetfdSetspecific s.netfds fd value destructor).system s.pending)
  | .serializeAccept fd => some ((stNetfdSerializeAccept s.netfds fd).system s.pending)
  | .return i closed => (s.pending[i]?).map fun rest => (rest.resume s.netfds closed).system (s.pending.eraseIdx i)

def netfdEnabled (s : NetfdSystem) : NetfdLabel → Bool
  | .open _ answers | .openSocket _ answers | .accepted _ _ answers => answers.object.all fun fd => fd ∉ s.netfds.made
  | .free fd | .close fd _ _ | .setspecific fd _ _ | .serializeAccept fd => fd ∈ s.netfds.made
  | .return i _ => i < s.pending.length

def netfdMachine : Machine NetfdSystem NetfdLabel NetfdOut := ⟨netfdEnabled, netfdStep⟩

abbrev NetfdEvent := Event NetfdSystem NetfdLabel NetfdOut

def NetfdStarted (s : NetfdSystem) : Prop := s = ⟨.boot, []⟩

theorem netfdStarted_boot : NetfdStarted ⟨.boot, []⟩ := rfl

abbrev NetfdRun : List NetfdEvent → NetfdSystem → Prop := Run netfdMachine NetfdStarted

end StateThreads
