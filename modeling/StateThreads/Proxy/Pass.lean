import StateThreads.Io.Stream
import StateThreads.Lib.Relay

/-! examples/proxy.c: a gateway that pumps the data of a client and of a remote host through
to each other. The bytes that each of them sends are given by their places; what the kernel
answers is given call by call. -/
namespace StateThreads.Proxy
open Transfer Relay

abbrev Byte := UInt8

def ioBufSize : Nat := 16 * 1024
def iovLen : Nat := 256
def iovCount : Nat := ioBufSize / iovLen

/- The bits of testing; TESTING_VERBOSE only prints. -/

def testingReadv : Nat := 0x2
def testingReadResid : Nat := 0x4
def testingWritev : Nat := 0x8
def testingWriteResid : Nat := 0x10

/-- What the kernel answers during one pass, and what the stack and the heap are then: the
address of buf with what it holds, local_iov of st_writev, and whether calloc succeeds. -/
structure Kernel where
  reads : List Call
  readPolls : List Polled
  writes : List Call
  writePolls : List Polled
  buf : Nat
  garbage : Nat → Byte
  calloc : Bool
  localIov : List Iovec
  locals : localIov.length = localMaxiov

def vectorsLen (r : Resid) : Nat := ((r.passed ++ r.rest).map Iovec.len).sum

def readVectors (buf : Nat) : List Iovec := (List.range iovCount).map fun i => ⟨buf + i * iovLen, iovLen⟩

/-- nr, by the variant of st_read that testing asks for. -/
def readIn (testing : Nat) (k : Kernel) : Run Nat Int :=
  if testing &&& testingReadv ≠ 0 then
    if testing &&& testingReadResid ≠ 0 then
      (stReadvResid k.reads k.readPolls (.start (readVectors k.buf))).map fun r =>
        if r.1 = none then (ioBufSize : Int) - vectorsLen r.2 else -1
    else stReadv k.reads k.readPolls (readVectors k.buf)
  else if testing &&& testingReadResid ≠ 0 then
    (stReadResid k.reads k.readPolls k.buf ioBufSize).map fun r => if r.1 = none then (ioBufSize : Int) - r.2 else -1
  else stRead k.reads k.readPolls k.buf ioBufSize

/-- The vectors for the nr bytes from nw on, in an array with room for so many more; none
when it is too small. -/
def writeVectors (buf nr : Nat) : Nat → Nat → Option (List Iovec)
  | room, nw =>
    if nw < nr then
      match room with
      | 0 => none
      | room + 1 =>
        let len := if nr - nw > iovLen then iovLen else nr - nw
        (writeVectors buf nr room (nw + len)).map (⟨buf + nw, len⟩ :: ·)
    else some []

def writeOut (testing : Nat) (k : Kernel) (nr : Nat) : Run Nat Int :=
  if testing &&& testingWritev ≠ 0 then
    match writeVectors k.buf nr iovCount 0 with
    | none => .fault
    | some iov =>
      if testing &&& testingWriteResid ≠ 0 then
        (stWritevResid k.writes k.writePolls (.start iov)).map fun r =>
          if r.1 = none then (nr : Int) - vectorsLen r.2 else -1
      else (stWritev k.calloc k.localIov k.writes k.writePolls iov).map Prod.fst
  else if testing &&& testingWriteResid ≠ 0 then
    (stWriteResid k.writes k.writePolls k.buf nr).map fun r => if r.1 = none then (nr : Int) - r.2 else -1
  else stWrite k.writes k.writePolls k.buf nr

/-- One way of the data, with what reads and writes it: whether 1 is returned, and what has
come in and gone out by then. -/
def through (k : Kernel) (source : Nat → Byte) (read : Run Nat Int) (write : Nat → Run Nat Int) (f : Flow Byte) :
    Flow Byte × Status Bool :=
  match read.status with
  | .fault => (f.pass source k.garbage read.moved [], .fault)
  | .pending => (f.pass source k.garbage read.moved [], .pending)
  | .returned nr =>
    if nr ≤ 0 then (f.pass source k.garbage read.moved [], .returned false)
    else
      let written := write nr.toNat
      (f.pass source k.garbage read.moved written.moved, written.status.map fun nw => nw = nr)

/- The two versions of pass. -/

inductive Build where
  | debug (testing : Nat)
  | simple
deriving DecidableEq, Repr

def pass (build : Build) (k : Kernel) (source : Nat → Byte) : Flow Byte → Flow Byte × Status Bool :=
  match build with
  | .debug testing => through k source (readIn testing k) (writeOut testing k)
  | .simple => through k source (stRead k.reads k.readPolls k.buf ioBufSize) (stWrite k.writes k.writePolls k.buf)

/- handle_request. -/

/-- What st_poll leaves in revents, none when it fails, and the answers for the two passes
that may follow. -/
structure Round where
  ready : Option (Bool × Bool)
  up : Kernel
  down : Kernel

/-- Before the loop: whether socket and st_netfd_open_socket succeed, and the answers for
st_connect. -/
structure Setup where
  socket : Bool
  openSocket : Bool
  connects : List (Option ConnectErrno)
  poll : Option Polled
  soError : Option Nat

inductive Handle where
  | cli | sock
deriving DecidableEq, Repr

inductive Place where
  | connecting | polling | passing | returned | fault
deriving DecidableEq, Repr

structure Request where
  up : Flow Byte
  down : Flow Byte
  opened : List Handle
  closed : List Handle
  place : Place

def Request.close (r : Request) (h : Handle) : Request := { r with closed := r.closed ++ [h] }

/-- done: the client's connection is closed in every case. -/
def Request.done (r : Request) : Request := { r.close .cli with place := .returned }

def Request.settle (r : Request) (status : Status Bool) (next : Request → Request) : Request :=
  match status with
  | .returned true => next r
  | .returned false => (r.close .sock).done
  | .pending => { r with place := .passing }
  | .fault => { r with place := .fault }

section
variable (build : Build) (fromCli fromRmt : Nat → Byte)

def Request.passUp (r : Request) (ready : Bool) (k : Kernel) (next : Request → Request) : Request :=
  if ready then
    let (up, status) := pass build k fromCli r.up
    { r with up }.settle status next
  else next r

def Request.passDown (r : Request) (ready : Bool) (k : Kernel) (next : Request → Request) : Request :=
  if ready then
    let (down, status) := pass build k fromRmt r.down
    { r with down }.settle status next
  else next r

def pump : List Round → Request → Request
  | [], r => { r with place := .polling }
  | round :: rounds, r =>
    match round.ready with
    | none => (r.close .sock).done
    | some (cli, rmt) =>
      r.passUp build fromCli cli round.up fun r => r.passDown build fromRmt rmt round.down fun r => pump rounds r

def handleRequest (setup : Setup) (rounds : List Round) : Request :=
  let r : Request := ⟨.start, .start, [.cli], [], .connecting⟩
  if ¬setup.socket then r.done
  else
    let r := { r with opened := r.opened ++ [.sock] }
    if ¬setup.openSocket then (r.close .sock).done
    else
      match stConnect setup.poll setup.soError false setup.connects with
      | none => r
      | some false => (r.close .sock).done
      | some true => pump build fromCli fromRmt rounds r

end

end StateThreads.Proxy
