import StateThreads.Common
import StateThreads.Lib.PointerTree
import Mathlib.Data.Nat.Bitwise

/-! The timeout heap of sched.c, at the level of its pointers. A slot is what the
source calls p, a pointer to a child field or to _ST_SLEEPQ; reading through a
null pointer yields none. The C++ copies heap_insert_new and heap_delete_new
differ only in the name of the root variable. -/
namespace StateThreads
open PointerTree (Slot)

/-- The heap fields of all thread objects, with _ST_SLEEPQ as the root slot. The
flag bit _ST_FL_ON_SLEEPQ is kept with them. -/
structure SleepQ where
  link : Slot Tid → Option Tid
  heapIndex : Tid → Nat
  due : Tid → UTime
  onSleepq : Tid → Bool
  sleepqSize : Nat

def SleepQ.setLink (q : SleepQ) (p : Slot Tid) (v : Option Tid) : SleepQ :=
  { q with link := Function.update q.link p v }

def SleepQ.setIndex (q : SleepQ) (t : Tid) (i : Nat) : SleepQ :=
  { q with heapIndex := Function.update q.heapIndex t i }

/-- The count left by the loop that shifts s right until it is zero. -/
def bits (s : Nat) : Nat := if s = 0 then 0 else Nat.log2 s + 1

/-- The displacement branch of heap_insert: thread takes the place of t at p. -/
def displace (q : SleepQ) (thread t : Tid) (p : Slot Tid) (index : Nat) : SleepQ :=
  let q := q.setLink (.left thread) (q.link (.left t))
  let q := q.setLink (.right thread) (q.link (.right t))
  let q := q.setLink p (some thread)
  q.setIndex thread index

def heapInsertLoop (target : Nat) : Nat → SleepQ → Tid → Slot Tid → Nat → Option (SleepQ × Tid × Slot Tid × Nat)
  | 0, q, thread, p, index => some (q, thread, p, index)
  | bit + 1, q, thread, p, index => do
    let t ← q.link p
    let less := q.due thread < q.due t
    let q := if less then displace q thread t p index else q
    let thread := if less then t else thread
    let at_p ← q.link p
    if target.testBit bit then
      heapInsertLoop target bit q thread (.right at_p) (2 * index + 1)
    else
      heapInsertLoop target bit q thread (.left at_p) (2 * index)

/-- Insert thread at the position in its heap_index; returns the slot that
received the element carried to that position. -/
def heapInsert (q : SleepQ) (thread : Tid) : Option (SleepQ × Slot Tid) := do
  let target := q.heapIndex thread
  let (q, thread, p, index) ← heapInsertLoop target (bits target - 1) q thread .root 1
  let q := q.setIndex thread index
  let q := q.setLink p (some thread)
  let q := (q.setLink (.right thread) none).setLink (.left thread) none
  some (q, p)

def heapLastLoop (q : SleepQ) : Nat → Slot Tid → Option (Slot Tid)
  | 0, p => some p
  | bit + 1, p => do
    let t ← q.link p
    heapLastLoop q bit (if q.sleepqSize.testBit bit then .right t else .left t)

/-- One exchange of the sifting loop: the younger child y of t moves up to p. -/
def exchange (q : SleepQ) (t y : Tid) (p : Slot Tid) : SleepQ × Slot Tid :=
  let tl := q.link (.left y)
  let tr := q.link (.right y)
  let q := q.setLink p (some y)
  let onLeft := q.link (.left t) = some y
  let q := if onLeft then (q.setLink (.left y) (some t)).setLink (.right y) (q.link (.right t))
    else (q.setLink (.left y) (q.link (.left t))).setLink (.right y) (some t)
  let q := (q.setLink (.left t) tl).setLink (.right t) tr
  let indexTmp := q.heapIndex t
  ((q.setIndex t (q.heapIndex y)).setIndex y indexTmp, if onLeft then .left y else .right y)

/- The loop that reestablishes the heap invariant. The source has no bound on it;
fuel is the number of heap elements, and running out of it is a fault. -/
def heapSiftLoop : Nat → SleepQ → Tid → Slot Tid → Option SleepQ
  | 0, _, _, _ => none
  | fuel + 1, q, t, p =>
    match q.link (.left t) with
    | none => some q
    | some l =>
      let y := match q.link (.right t) with
        | none => l
        | some r => if q.due l < q.due r then l else r
      if q.due y < q.due t then
        heapSiftLoop fuel (exchange q t y p).1 t (exchange q t y p).2
      else some q

/-- The branch of heap_delete for a thread that is not the last element t: insert
t in its place and reestablish the heap invariant. -/
def heapReplace (q : SleepQ) (t thread : Tid) : Option SleepQ := do
  let q := q.setIndex t (q.heapIndex thread)
  let (q, p) ← heapInsert q t
  let t ← q.link p
  let q := q.setLink (.left t) (q.link (.left thread))
  let q := q.setLink (.right t) (q.link (.right thread))
  heapSiftLoop (q.sleepqSize + 1) q t p

def heapDelete (q : SleepQ) (thread : Tid) : Option SleepQ := do
  let p ← heapLastLoop q (bits q.sleepqSize - 1) .root
  let t ← q.link p
  let q := q.setLink p none
  let q := { q with sleepqSize := q.sleepqSize - 1 }
  let q ← if t = thread then some q else heapReplace q t thread
  some ((q.setLink (.right thread) none).setLink (.left thread) none)

def stAddSleepQ (q : SleepQ) (lastClock : UTime) (thread : Tid) (timeout : UTime) : Option SleepQ := do
  let q := { q with due := Function.update q.due thread (lastClock + timeout) }
  let q := { q with onSleepq := Function.update q.onSleepq thread true }
  let q := { q with sleepqSize := q.sleepqSize + 1 }
  let q := q.setIndex thread q.sleepqSize
  let (q, _) ← heapInsert q thread
  some q

def stDelSleepQ (q : SleepQ) (thread : Tid) : Option SleepQ := do
  let q ← heapDelete q thread
  some { q with onSleepq := Function.update q.onSleepq thread false }

end StateThreads
