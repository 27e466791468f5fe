import StateThreads.System

/-! sync.c: the time functions, used by a program beside the rest of the library. -/
namespace StateThreads
open LabelledRun

variable {σ ω : Type}

/-- The library with the function that st_utime reads the clock by, NULL being none. -/
structure TimedSystem (σ : Type) where
  lib : System σ
  utime : Option Nat

inductive TimeOut where
  | lib (out : Option Ret)
  | status (error : Option Errno)
  | wason (wason : Bool)
  | time (time : Nat)
  | utime (utime : UTime)
deriving DecidableEq, Repr

def stSetUtimeFunction (s : TimedSystem σ) (func : Option Nat) : TimedSystem σ × TimeOut :=
  if s.lib.vp.activeCount ≠ 0 then (s, .status (some .einval)) else ({ s with utime := func }, .status none)

def stUtimeLastClock (vp : Vp) : UTime := vp.lastClock

def stTimecacheSet (vp : Vp) (on : Bool) (time : Nat) (now : UTime) : Vp × Bool :=
  (if on then { vp with currTime := time, lastTset := now } else { vp with currTime := 0 }, vp.currTime ≠ 0)

def stTime (vp : Vp) (time : Nat) : Nat := if vp.currTime ≠ 0 then vp.currTime else time

inductive TimeLabel (ω : Type) where
  | lib (l : Label ω)
  | setUtimeFunction (func : Option Nat)
  | utimeLastClock
  | timecacheSet (on : Bool) (time : Nat) (now : UTime)
  | time (time : Nat)

def timedStep (E : EventSys σ ω) (s : TimedSystem σ) : TimeLabel ω → Option (TimedSystem σ × TimeOut)
  | .lib l => (step E s.lib l).map fun r => ({ s with lib := r.1 }, .lib r.2)
  | .setUtimeFunction func => some (stSetUtimeFunction s func)
  | .utimeLastClock => some (s, .utime (stUtimeLastClock s.lib.vp))
  | .timecacheSet on time now =>
    let (vp, wason) := stTimecacheSet s.lib.vp on time now
    some ({ s with lib := ⟨vp, s.lib.evt⟩ }, .wason wason)
  | .time time => some (s, .time (stTime s.lib.vp time))

def timedEnabled (E : EventSys σ ω) (s : TimedSystem σ) : TimeLabel ω → Bool
  | .lib l => enabled E s.lib l
  | _ => (s.lib.vp.thr s.lib.vp.current).context = .user

def timedMachine (E : EventSys σ ω) : Machine (TimedSystem σ) (TimeLabel ω) TimeOut := ⟨timedEnabled E, timedStep E⟩

abbrev TimeEvent (σ ω : Type) := Event (TimedSystem σ) (TimeLabel ω) TimeOut

def TimedStarted (E : EventSys σ ω) (s : TimedSystem σ) : Prop := Started E s.lib

abbrev TimedRun (E : EventSys σ ω) := Run (timedMachine E) (TimedStarted E)

end StateThreads
