import StateThreads.Common
import StateThreads.Lib.Transfer

/-! io.c: reading and writing vectors of buffers in full. The bytes are named by their
addresses. What read, write and the like answer is a list, used up call by call; so is
what st_netfd_poll answers, none for success. Looking at a vector that is not there is a
fault. -/
namespace StateThreads
open Transfer

structure Iovec where
  base : Nat
  len : Nat
deriving DecidableEq, Repr

def Iovec.span (v : Iovec) : List Nat := List.range' v.base v.len

def spans (iov : List Iovec) : List Nat := iov.flatMap Iovec.span

/-- *iov and *iov_size. The vectors that *iov has passed and those it points to make up
the array. -/
structure Resid where
  passed : List Iovec
  rest : List Iovec
  size : Int
deriving DecidableEq, Repr

abbrev Call := Answer Errno
abbrev Polled := Option Errno

/-- The bytes that read or write is offered for a single vector, readv or writev for more. -/
def Resid.offered (r : Resid) : Option (List Nat) :=
  if r.size = 1 then r.rest.head?.map Iovec.span
  else if r.size ≤ r.rest.length then some (spans (r.rest.take r.size.toNat))
  else none

def advance : Nat → List Iovec → List Iovec → Int → Option (Nat × Resid)
  | _, _, [], _ => none
  | n, passed, v :: rest, size =>
    if v.len ≤ n then
      let n := n - v.len
      let passed := passed ++ [⟨v.base + v.len, 0⟩]
      let size := size - 1
      if n = 0 then some (n, ⟨passed, rest, size⟩) else advance n passed rest size
    else some (n, ⟨passed, v :: rest, size⟩)

/-- The inner loop, and the vector in which it ends unless it is at the end of the array. -/
def Resid.consume (r : Resid) (n : Nat) : Option Resid := do
  let (n, r) ← advance n r.passed r.rest r.size
  if r.size = 0 then some r
  else match r.rest with
    | [] => none
    | v :: rest => some { r with rest := ⟨v.base + n, v.len - n⟩ :: rest }

/-- The result is errno, none when 0 is returned, with *iov and *iov_size. -/
def stReadvResid : List Call → List Polled → Resid → Run Nat (Option Errno × Resid)
  | [], _, r => if 0 < r.size then .pending else .finish (none, r)
  | call :: calls, polls, r =>
    if 0 < r.size then
      match r.offered with
      | none => .fault
      | some bytes =>
        match call with
        | .failed e =>
          Run.after (.call bytes []) (if e = .eintr then stReadvResid calls polls r else .finish (some e, r))
        | .notReady =>
          Run.after (.call bytes []) (await polls (fun e => .finish (some e, r)) fun polls => stReadvResid calls polls r)
        | .count n =>
          let n := min n bytes.length
          Run.after (.call bytes (bytes.take n))
            (if n = 0 then .finish (none, r)
            else match r.consume n with
              | none => .fault
              | some r =>
                if r.size = 0 then .finish (none, r)
                else await polls (fun e => .finish (some e, r)) fun polls => stReadvResid calls polls r)
    else .finish (none, r)

/-- A count of zero is not the end here. -/
def stWritevResid : List Call → List Polled → Resid → Run Nat (Option Errno × Resid)
  | [], _, r => if 0 < r.size then .pending else .finish (none, r)
  | call :: calls, polls, r =>
    if 0 < r.size then
      match r.offered with
      | none => .fault
      | some bytes =>
        match call with
        | .failed e =>
          Run.after (.call bytes []) (if e = .eintr then stWritevResid calls polls r else .finish (some e, r))
        | .notReady =>
          Run.after (.call bytes []) (await polls (fun e => .finish (some e, r)) fun polls => stWritevResid calls polls r)
        | .count n =>
          let n := min n bytes.length
          Run.after (.call bytes (bytes.take n))
            (match r.consume n with
            | none => .fault
            | some r =>
              if r.size = 0 then .finish (none, r)
              else await polls (fun e => .finish (some e, r)) fun polls => stWritevResid calls polls r)
    else .finish (none, r)

def Resid.start (iov : List Iovec) : Resid := ⟨[], iov, iov.length⟩

/-- *resid = iov.iov_len, of the only vector. -/
def Resid.left (r : Resid) : Nat := ((r.passed ++ r.rest).head?).elim 0 Iovec.len

/- The result of these two is errno with *resid. -/

def stReadResid (calls : List Call) (polls : List Polled) (buf resid : Nat) : Run Nat (Option Errno × Nat) :=
  (stReadvResid calls polls (.start [⟨buf, resid⟩])).map fun r => (r.1, r.2.left)

def stWriteResid (calls : List Call) (polls : List Polled) (buf resid : Nat) : Run Nat (Option Errno × Nat) :=
  (stWritevResid calls polls (.start [⟨buf, resid⟩])).map fun r => (r.1, r.2.left)

def ssize (n : Nat) : Int := if n < 2 ^ 63 then n else n - 2 ^ 64

def stWrite (calls : List Call) (polls : List Polled) (buf nbyte : Nat) : Run Nat Int :=
  (stWriteResid calls polls buf nbyte).map fun r => if r.1 = none then ssize (nbyte - r.2) else -1

/- st_writev. -/

def localMaxiov : Nat := 16

inductive TmpIov where
  | caller | local_ | heap
deriving DecidableEq, Repr

/-- The variables of st_writev, with the caller's array and the two others that tmp_iov may
point to. -/
structure Writev where
  iov : List Iovec
  tmpIov : TmpIov
  localIov : List Iovec
  heapIov : List Iovec
  iovCnt : Nat
  nleft : Nat
deriving DecidableEq, Repr

def Writev.cells (w : Writev) : List Iovec :=
  match w.tmpIov with
  | .caller => w.iov
  | .local_ => w.localIov
  | .heap => w.heapIov

/-- tmp_iov[i] = v, which must lie inside the array. -/
def Writev.store (w : Writev) (i : Nat) (v : Iovec) : Option Writev :=
  if i < w.cells.length then
    match w.tmpIov with
    | .caller => some { w with iov := w.iov.set i v }
    | .local_ => some { w with localIov := w.localIov.set i v }
    | .heap => some { w with heapIov := w.heapIov.set i v }
  else none

def nextUnwritten : List Iovec → Nat → Nat → Option (Nat × Nat)
  | [], _, _ => none
  | v :: iov, n, index => if v.len ≤ n then nextUnwritten iov (n - v.len) (index + 1) else some (index, n)

/-- The array for the remaining vectors, chosen once; none when calloc fails. -/
def Writev.choose (w : Writev) (calloc : Bool) (index : Nat) : Option Writev :=
  if w.tmpIov = .caller then
    if w.iov.length - index ≤ localMaxiov then some { w with tmpIov := .local_ }
    else if calloc then some { w with tmpIov := .heap, heapIov := List.replicate (w.iov.length - index) ⟨0, 0⟩ }
    else none
  else some w

def copyRest : Nat → Nat → Writev → Option Writev
  | 0, _, w => some w
  | todo + 1, index, w => do
    let v ← w.iov[index]?
    let w ← w.store w.iovCnt v
    copyRest todo (index + 1) { w with iovCnt := w.iovCnt + 1 }

def Writev.refill (w : Writev) (index n : Nat) : Option Writev := do
  let v ← w.iov[index]?
  let w ← w.store 0 ⟨v.base + n, v.len - n⟩
  copyRest (w.iov.length - (index + 1)) (index + 1) { w with iovCnt := 1 }

/-- The loop of st_writev; the result is rv with the caller's array. -/
def stWritevLoop (calloc : Bool) (nbyte : Nat) (calls : List Call) (polls : List Polled) (w : Writev) :
    Run Nat (Int × List Iovec) :=
  if w.nleft = 0 then .finish (ssize nbyte, w.iov)
  else if w.iovCnt = 1 then
    match w.cells with
    | [] => .fault
    | v :: _ =>
      (stWrite calls polls v.base w.nleft).map fun n => (if n = ssize w.nleft then ssize nbyte else -1, w.iov)
  else
    match calls with
    | [] => .pending
    | call :: calls =>
      if w.cells.length < w.iovCnt then .fault
      else
        let bytes := spans (w.cells.take w.iovCnt)
        match call with
        | .failed e =>
          Run.after (.call bytes [])
            (if e = .eintr then stWritevLoop calloc nbyte calls polls w else .finish (-1, w.iov))
        | .notReady =>
          Run.after (.call bytes [])
            (await polls (fun _ => .finish (-1, w.iov)) fun polls => stWritevLoop calloc nbyte calls polls w)
        | .count n =>
          let n := min n bytes.length
          Run.after (.call bytes (bytes.take n))
            (if n = w.nleft then .finish (ssize nbyte, w.iov)
            else
              let w := { w with nleft := w.nleft - n }
              match nextUnwritten w.iov (nbyte - w.nleft) 0 with
              | none => .fault
              | some (index, m) =>
                match w.choose calloc index with
                | none => .finish (-1, w.iov)
                | some w =>
                  match w.refill index m with
                  | none => .fault
                  | some w =>
                    await polls (fun _ => .finish (-1, w.iov)) fun polls => stWritevLoop calloc nbyte calls polls w)

/-- local_iov holds whatever was on the stack. -/
def stWritev (calloc : Bool) (localIov : List Iovec) (calls : List Call) (polls : List Polled) (iov : List Iovec) :
    Run Nat (Int × List Iovec) :=
  let nbyte := (iov.map Iovec.len).sum % 2 ^ 64
  stWritevLoop calloc nbyte calls polls ⟨iov, .caller, localIov, [], iov.length, nbyte⟩

end StateThreads
