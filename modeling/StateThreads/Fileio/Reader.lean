import StateThreads.Lib.Run
import Mathlib.Logic.Function.Basic

/-! stx_fileio.c: stx_file_read, which asks a forked process for a section of a file and reads
the answer from a pipe. A call gives up the processor only inside st_netfd_poll. What is
written to a pipe at once is no longer than PIPE_BUF, and arrives at once. -/
namespace StateThreads.Fileio
open LabelledRun

def toBytes : Nat → Nat → List UInt8
  | 0, _ => []
  | k + 1, n => UInt8.ofNat n :: toBytes k (n / 256)

def ofBytes : List UInt8 → Nat
  | [] => 0
  | b :: bs => b.toNat + 256 * ofBytes bs

def wordSize : Nat := 8

def ssize (bytes : List UInt8) : Int := (BitVec.ofNat 64 (ofBytes bytes)).toInt

def minusOne : List UInt8 := List.replicate wordSize 255

structure Request where
  offset : Int
  nbytes : Int
deriving DecidableEq, Repr

/-- Where the forked process is: at the read of the control pipe, before the write of the
length, between that and the write of the data, or gone. -/
inductive Stage where
  | listening
  | holding (buf : List UInt8)
  | halfway (buf : List UInt8)
  | exited
deriving DecidableEq, Repr

structure Reader where
  control : List Request
  data : List UInt8
  pos : Int
  stage : Stage
deriving DecidableEq, Repr

inductive Wait where
  | send
  | length
  | data (ret : Nat)
deriving DecidableEq, Repr

structure Call where
  offset : Int
  nbytes : Nat
  wait : Wait
deriving DecidableEq, Repr

variable {τ : Type}

/-- A descriptor: the offset of the open file, which parent and child share, the process once
it is started, and the calls that have blocked. -/
structure Descriptor (τ : Type) where
  offset : Nat
  reader : Option Reader
  calls : τ → Option Call

/- returned has the result of stx_file_read and what its last st_read put into the buffer. -/
inductive FileRet where
  | working
  | blocked
  | returned (ret : Int) (buf : List UInt8)
deriving DecidableEq, Repr

/-- The number of requests that the control pipe takes. -/
def controlCapacity : Nat := 4096

/-- read on the data pipe; none is EAGAIN. -/
def Reader.read (r : Reader) (nbyte : Nat) : Option (List UInt8 × Reader) :=
  if r.data = [] ∧ r.stage ≠ .exited then none
  else some (r.data.take nbyte, { r with data := r.data.drop nbyte })

variable [DecidableEq τ]

def Descriptor.block (s : Descriptor τ) (r : Reader) (t : τ) (c : Call) : Descriptor τ × FileRet :=
  ({ s with reader := some r, calls := Function.update s.calls t (some c) }, .blocked)

def Descriptor.finish (s : Descriptor τ) (r : Option Reader) (t : τ) (ret : Int) (buf : List UInt8) :
    Descriptor τ × FileRet :=
  ({ s with reader := r, calls := Function.update s.calls t none }, .returned ret buf)

def readData (s : Descriptor τ) (r : Reader) (t : τ) (c : Call) (ret : Nat) : Descriptor τ × FileRet :=
  match r.read ret with
  | none => s.block r t { c with wait := .data ret }
  | some (buf, r) => s.finish (some r) t buf.length buf

/-- The first st_read, which overwrites as many bytes of ret as it reads. -/
def readLength (s : Descriptor τ) (r : Reader) (t : τ) (c : Call) : Descriptor τ × FileRet :=
  match r.read wordSize with
  | none => s.block r t { c with wait := .length }
  | some (bytes, r) =>
    let ret := ssize (bytes ++ minusOne.drop bytes.length)
    if bytes.length = wordSize ∧ 0 < ret ∧ ret ≤ c.nbytes then readData s r t c ret.toNat
    else s.finish (some r) t ret []

/-- The st_write, whose result is not looked at; without a reader it fails. -/
def sendRequest (s : Descriptor τ) (r : Reader) (t : τ) (c : Call) : Descriptor τ × FileRet :=
  if r.stage = .exited then readLength s r t c
  else if r.control.length < controlCapacity then
    readLength s { r with control := r.control ++ [⟨c.offset, c.nbytes⟩] } t c
  else s.block r t { c with wait := .send }

/-- get_fileio_data; forked is whether the pipes and the process could be made. -/
def getFileioData (s : Descriptor τ) (forked : Bool) : Option Reader :=
  match s.reader with
  | some r => some r
  | none => if forked then some ⟨[], [], 0, .listening⟩ else none

/-- stx_file_read, up to where it blocks. -/
def stxFileRead (s : Descriptor τ) (t : τ) (offset : Int) (nbytes : Nat) (forked : Bool) : Descriptor τ × FileRet :=
  match getFileioData s forked with
  | some r => sendRequest s r t ⟨offset, nbytes, .send⟩
  | none => s.finish none t (-1) []

/-- st_netfd_poll returns in a call that has blocked: with 0, or with -1 after a timeout or an
interrupt. -/
def stxFileResume (s : Descriptor τ) (t : τ) (ready : Bool) : Option (Descriptor τ × FileRet) := do
  let c ← s.calls t
  let r ← s.reader
  match c.wait, ready with
  | .send, true => some (sendRequest s r t c)
  | .send, false => some (readLength s r t c)
  | .length, true => some (readLength s r t c)
  | .data ret, true => some (readData s r t c ret)
  | .length, false | .data _, false => some (s.finish (some r) t (-1) [])

/-- The child seeks when pos is not the offset asked for: pos and the offset of the file
afterwards, or none if lseek fails. -/
def seek (s : Descriptor τ) (r : Reader) (cb : Request) : Option (Int × Nat) :=
  if r.pos ≠ cb.offset then if 0 ≤ cb.offset then some (cb.offset, cb.offset.toNat) else none
  else some (r.pos, s.offset)

/-- The child leaves its loop, or the section it has read goes into its buffer. The read may
be short, and fails if got is none. -/
def fileReaderRead (file : List UInt8) (s : Descriptor τ) (r : Reader) (cb : Request) (got : Option Nat) : Descriptor τ :=
  let exit : Descriptor τ := { s with reader := some { r with stage := .exited } }
  if cb.nbytes ≤ 0 then exit
  else
    match seek s r cb, got with
    | some (pos, offset), some k =>
      let buf := (file.drop offset).take (min k cb.nbytes.toNat)
      { s with offset := offset + buf.length, reader := some { r with pos := pos + buf.length, stage := .holding buf } }
    | _, _ => exit

def fileReader (file : List UInt8) (s : Descriptor τ) (got : Option Nat) : Option (Descriptor τ) := do
  let r ← s.reader
  match r.stage, r.control with
  | .listening, cb :: rest => some (fileReaderRead file s { r with control := rest } cb got)
  | .holding buf, _ =>
    some { s with reader := some { r with data := r.data ++ toBytes wordSize buf.length, stage := .halfway buf } }
  | .halfway buf, _ => some { s with reader := some { r with data := r.data ++ buf, stage := .listening } }
  | .listening, [] | .exited, _ => none

inductive FileOp (τ : Type) where
  | call (t : τ) (offset : Int) (nbytes : Nat) (forked : Bool)
  | ready (t : τ)
  | giveUp (t : τ)
  | child (got : Option Nat)
deriving DecidableEq, Repr

def fileStep (file : List UInt8) (s : Descriptor τ) : FileOp τ → Option (Descriptor τ × FileRet)
  | .call t offset nbytes forked => some (stxFileRead s t offset nbytes forked)
  | .ready t => stxFileResume s t true
  | .giveUp t => stxFileResume s t false
  | .child got => (fileReader file s got).map fun s => (s, .working)

def filereaderMaxRead : Nat := 1024

/-- A thread makes one call at a time, and asks for no more than the child can hold. -/
def fileEnabled (s : Descriptor τ) : FileOp τ → Bool
  | .call t _ nbytes _ => (s.calls t).isNone && decide (0 < nbytes) && decide (nbytes ≤ filereaderMaxRead)
  | .ready t | .giveUp t => (s.calls t).isSome
  | .child _ => true

def fileMachine (file : List UInt8) : Machine (Descriptor τ) (FileOp τ) FileRet where
  enabled := fileEnabled
  step := fileStep file

def FileStarted (s : Descriptor τ) : Prop := s.reader = none ∧ ∀ t, s.calls t = none

abbrev FileEvent (τ : Type) := Event (Descriptor τ) (FileOp τ) FileRet

abbrev FileRun (file : List UInt8) := Run (fileMachine (τ := τ) file) FileStarted

end StateThreads.Fileio
