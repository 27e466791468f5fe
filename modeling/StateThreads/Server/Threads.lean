import Mathlib.Logic.Function.Basic
import StateThreads.Common
import StateThreads.Lib.Run

/-! examples/server.c: the threads of one server process. Those of a listening socket accept
connections or are busy with one; the counts of both are kept by the threads themselves, and
each starts a spare thread or ends by them. A step of a thread goes from one blocking call to
the next. -/
namespace StateThreads.Server
open LabelledRun

def maxWaitThreadsDefault : Nat := 8
def fdPerThread : Nat := 2
def minWaitThreads : Nat := 2

/-- What parse_arguments leaves, with the answer of st_getfdlimit. -/
structure Config where
  vpCount : Nat
  skCount : Nat
  fdLimit : Nat
  maxWaitThreads : Nat
  maxThreads : Nat
  processes : 0 < vpCount
  sockets : 0 < skCount

structure Limits where
  minWaitThreads : Nat
  maxWaitThreads : Nat
  maxThreads : Nat
  spare : minWaitThreads ≤ maxWaitThreads
  pool : maxWaitThreads ≤ maxThreads

/-- The part of a process in a number for all of them, rounded up. -/
def perProcess (n vpCount : Nat) : Nat := if n % vpCount ≠ 0 then n / vpCount + 1 else n / vpCount

theorem perProcess_mono {m n : Nat} (le : m ≤ n) (vpCount : Nat) : perProcess m vpCount ≤ perProcess n vpCount := by
  have quotient : m / vpCount ≤ n / vpCount := Nat.div_le_div_right le
  unfold perProcess
  split
  · rename_i rest
    split
    · omega
    · rename_i whole
      -- m is no multiple and n is one, so the quotients differ
      by_contra more
      have same : m / vpCount = n / vpCount := by omega
      have left := Nat.div_add_mod m vpCount
      have right := Nat.div_add_mod n vpCount
      rw [same] at left
      omega
  · split <;> omega

def setThreadThrottling (c : Config) : Limits :=
  let maxWait := if c.maxWaitThreads = 0 then maxWaitThreadsDefault * c.vpCount else c.maxWaitThreads
  let max := if c.maxThreads = 0 then c.fdLimit * c.vpCount / fdPerThread / c.skCount else c.maxThreads
  let maxWait := if maxWait > max then max else maxWait
  have pool : maxWait ≤ max := by grind
  let maxWait' := perProcess maxWait c.vpCount
  ⟨if minWaitThreads > maxWait' then maxWait' else minWaitThreads, maxWait', perProcess max c.vpCount, by grind,
    perProcess_mono pool c.vpCount⟩

/-- Where a thread is in handle_connections: not yet there, in st_accept, in handle_session. -/
inductive Work where
  | fresh | accept | session
deriving DecidableEq, Repr

structure Workers where
  waitThreads : Nat → Int
  busyThreads : Nat → Int
  rqstCount : Nat → Int
  role : Tid → Option (Nat × Work)

namespace Workers

def boot : Workers := ⟨fun _ => 0, fun _ => 0, fun _ => 0, fun _ => none⟩

def set (s : Workers) (t : Tid) (role : Option (Nat × Work)) : Workers :=
  { s with role := Function.update s.role t role }

def addWait (s : Workers) (i : Nat) (n : Int) : Workers :=
  { s with waitThreads := Function.update s.waitThreads i (s.waitThreads i + n) }

def addBusy (s : Workers) (i : Nat) (n : Int) : Workers :=
  { s with busyThreads := Function.update s.busyThreads i (s.busyThreads i + n) }

def zero (s : Workers) (i : Nat) : Workers :=
  { s with
    waitThreads := Function.update s.waitThreads i 0
    busyThreads := Function.update s.busyThreads i 0
    rqstCount := Function.update s.rqstCount i 0 }

def totalThreads (s : Workers) (i : Nat) : Int := s.waitThreads i + s.busyThreads i

section
variable (s : Workers) (t : Tid) (role : Option (Nat × Work)) (i j : Nat) (n : Int)

@[simp] theorem set_role : (s.set t role).role = Function.update s.role t role := rfl
@[simp] theorem set_wait : (s.set t role).waitThreads = s.waitThreads := rfl
@[simp] theorem set_busy : (s.set t role).busyThreads = s.busyThreads := rfl
@[simp] theorem addWait_role : (s.addWait i n).role = s.role := rfl
@[simp] theorem addWait_wait : (s.addWait i n).waitThreads j = s.waitThreads j + if j = i then n else 0 := by
  by_cases same : j = i <;> simp [addWait, same]
@[simp] theorem addWait_busy : (s.addWait i n).busyThreads = s.busyThreads := rfl
@[simp] theorem addBusy_role : (s.addBusy i n).role = s.role := rfl
@[simp] theorem addBusy_wait : (s.addBusy i n).waitThreads = s.waitThreads := rfl
@[simp] theorem addBusy_busy : (s.addBusy i n).busyThreads j = s.busyThreads j + if j = i then n else 0 := by
  by_cases same : j = i <;> simp [addBusy, same]

end

end Workers

inductive WorkOut where
  | void
  /-- A spare thread is created, or cannot be. -/
  | spawned (t : Tid)
  | failed
  /-- The thread returns. -/
  | returned
deriving DecidableEq, Repr

/-- The head of the loop of t, and what follows it. -/
def loop (lim : Limits) (s : Workers) (t : Tid) (i : Nat) : Workers × WorkOut :=
  if s.waitThreads i ≤ lim.maxWaitThreads then (s.set t (some (i, .accept)), .void)
  else ((s.addWait i (-1)).set t none, .returned)

/-- From a connection of t to its session; created is what st_thread_create answers, if it is
called. -/
def serve (lim : Limits) (s : Workers) (t : Tid) (i : Nat) (created : Option Tid) : Workers × WorkOut :=
  let s := ((s.addWait i (-1)).addBusy i 1).set t (some (i, .session))
  if s.waitThreads i < lim.minWaitThreads ∧ s.totalThreads i < lim.maxThreads then
    match created with
    | some u => ((s.set u (some (i, .fresh))).addWait i 1, .spawned u)
    | none => (s, .failed)
  else (s, .void)

/-- After the session; handle_session counts a request that it has answered. -/
def finish (s : Workers) (i : Nat) (served : Bool) : Workers :=
  let s := if served then { s with rqstCount := Function.update s.rqstCount i (s.rqstCount i + 1) } else s
  (s.addWait i 1).addBusy i (-1)

inductive WorkLabel where
  | begin (t : Tid)
  /-- st_accept returns to t, with NULL unless accepted. -/
  | accept (t : Tid) (accepted : Bool) (created : Option Tid)
  | session (t : Tid) (served : Bool)
deriving DecidableEq, Repr

def handleConnections (lim : Limits) (s : Workers) : WorkLabel → Option (Workers × WorkOut)
  | .begin t => match s.role t with
    | some (i, .fresh) => some (loop lim s t i)
    | _ => none
  | .accept t accepted created => match s.role t with
    | some (i, .accept) => some (if accepted then serve lim s t i created else loop lim s t i)
    | _ => none
  | .session t served => match s.role t with
    | some (i, .session) => some (loop lim (finish s i served) t i)
    | _ => none

def workEnabled (s : Workers) : WorkLabel → Bool
  | .accept _ _ (some u) => s.role u = none
  | _ => true

def workMachine (lim : Limits) : Machine Workers WorkLabel WorkOut := ⟨workEnabled, handleConnections lim⟩

/-- The inner loop of start_threads for the socket i, over the answers of st_thread_create. -/
def startSocket (i : Nat) : List (Option Tid) → Workers → Workers
  | [], s => s
  | some t :: created, s => startSocket i created ((s.set t (some (i, .fresh))).addWait i 1)
  | none :: created, s => startSocket i created s

def startThreads : Nat → List (List (Option Tid)) → Workers → Option Workers
  | _, [], s => some s
  | i, created :: rest, s =>
    let s := startSocket i created (s.zero i)
    if s.waitThreads i = 0 then none else startThreads (i + 1) rest s

/-- max_wait_threads calls for each socket, whose threads are different ones. -/
structure Starts (lim : Limits) (created : List (List (Option Tid))) (s : Workers) : Prop where
  calls : ∀ answers ∈ created, answers.length = lim.maxWaitThreads
  fresh : (created.flatten.filterMap id).Nodup
  start : startThreads 0 created .boot = some s

abbrev WorkEvent := Event Workers WorkLabel WorkOut

abbrev WorkRun (lim : Limits) (created : List (List (Option Tid))) : List WorkEvent → Workers → Prop :=
  Run (workMachine lim) (Starts lim created)

end StateThreads.Server
