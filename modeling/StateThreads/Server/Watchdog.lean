import Mathlib.Logic.Function.Basic
import StateThreads.Lib.Run

/-! examples/server.c: the watchdog, which starts the server processes, replaces those that
end, and passes signals on to them. Its loop is cut where a signal can come in: in wait, and
between wait and the blocking of signals. -/
namespace StateThreads.Server
open LabelledRun

abbrev Pid := Int

/-- A child process that wait has not reported yet: its my_index, and whether it has ended. -/
structure Child where
  myIndex : Nat
  ended : Bool
deriving DecidableEq, Repr

structure Watchdog where
  vpCount : Nat
  vpPids : Nat → Pid
  /-- The number of elements that calloc gave for vp_pids. -/
  allocated : Nat
  child : Pid → Option Child
  /-- What wait has returned, while the other process is not forked yet. -/
  reaped : Option Pid
  terminated : Bool

namespace Watchdog

def forked (w : Watchdog) (i : Nat) (pid : Pid) : Watchdog :=
  { w with child := Function.update w.child pid (some ⟨i, false⟩) }

def store (w : Watchdog) (i : Nat) (pid : Pid) : Option Watchdog :=
  if i < w.allocated then some { w with vpPids := Function.update w.vpPids i pid } else none

def find (w : Watchdog) (pid : Pid) : Nat :=
  ((List.range w.vpCount).find? fun i => w.vpPids i = pid).getD w.vpCount

/-- The processes to which wdog_sighandler forwards a signal. -/
def forwards (w : Watchdog) : List Pid := ((List.range w.vpCount).map w.vpPids).filter (0 < ·)

end Watchdog

/-- The first loop of start_processes, from index i on; fork fails with none. The result is
none when the server exits. -/
def startProcesses : Nat → List (Option Pid) → Watchdog → Option Watchdog
  | _, [], w => some w
  | i, none :: _, w => if i = 0 then none else some { w with vpCount := i }
  | i, some pid :: forks, w => do
    let w ← (w.forked i pid).store i pid
    startProcesses (i + 1) forks w

/-- Before it, with the array from calloc. -/
def Watchdog.boot (vpCount : Nat) : Watchdog := ⟨vpCount, fun _ => 0, vpCount, fun _ => none, none, false⟩

inductive DogLabel where
  | exit (pid : Pid)
  | wait (pid : Pid)
  /-- wait fails for want of children. -/
  | noChild
  | fork (answer : Option Pid)
  | signal (term : Bool)
deriving DecidableEq, Repr

inductive DogOut where
  | void
  /-- The index of the process that is replaced, and the new one. -/
  | replaced (i : Nat) (pid : Option Pid)
  | forwarded (pids : List Pid)
deriving DecidableEq, Repr

def watchdogStep (w : Watchdog) : DogLabel → Option (Watchdog × DogOut)
  | .exit pid => some ({ w with child := Function.update w.child pid ((w.child pid).map ({ · with ended := true })) }, .void)
  | .wait pid => some ({ w with child := Function.update w.child pid none, reaped := some pid }, .void)
  | .noChild => some ({ w with terminated := true }, .void)
  | .fork answer => do
    let pid ← w.reaped
    let i := w.find pid
    -- a failed fork leaves -1 in the array
    let w := { w with reaped := none }
    let w := match answer with
      | some new => w.forked i new
      | none => w
    let w ← w.store i (answer.getD (-1))
    some (w, .replaced i answer)
  | .signal term => some ({ w with terminated := term }, .forwarded w.forwards)

def watchdogEnabled (w : Watchdog) : DogLabel → Bool
  | .exit pid => !w.terminated && (w.child pid).isSome
  | .wait pid => !w.terminated && w.reaped.isNone && (w.child pid).any Child.ended
  | .noChild => !w.terminated && w.reaped.isNone
  | .fork answer => !w.terminated && w.reaped.isSome && answer.all fun pid => 0 < pid ∧ w.child pid = none
  | .signal _ => !w.terminated

def watchdogMachine : Machine Watchdog DogLabel DogOut := ⟨watchdogEnabled, watchdogStep⟩

abbrev DogEvent := Event Watchdog DogLabel DogOut

structure Forked (w : Watchdog) (vpCount : Nat) (forks : List (Option Pid)) : Prop where
  calls : forks.length = vpCount
  positive : ∀ pid, some pid ∈ forks → 0 < pid
  distinct : (forks.filterMap id).Nodup
  start : startProcesses 0 forks (.boot vpCount) = some w

def DogStarted (w : Watchdog) : Prop := ∃ vpCount forks, Forked w vpCount forks

abbrev DogRun : List DogEvent → Watchdog → Prop := Run watchdogMachine DogStarted

end StateThreads.Server
