import StateThreads.Stack.Pool

/-! key.c, with the part of st_thread_exit that frees private data. A call that reaches a
destructor stops there, and its rest is kept for the thread until the destructor returns;
meanwhile the destructor makes other calls of the library, and may block in them. -/
namespace StateThreads.Key
open LabelledRun

def keysMax : Nat := 16

inductive Rest where
  | set (key : Nat) (value : Option Nat)
  | exit (key retval : Nat)
deriving DecidableEq, Repr

variable {σ ω : Type}

/-- The library with the globals of key.c, the key tables and what the threads inside a
destructor have left to do. A key table is named by the stack it was carved from, that of the
primordial thread by none. -/
structure KeySystem (σ : Type) where
  lib : PoolSystem σ
  keyMax : Nat
  destructors : Nat → Option Nat
  table : Option StkId → Nat → Option Nat
  pending : Tid → Option Rest

inductive KeyOut where
  | lib (out : Option Ret)
  /-- The key that st_key_create makes, none with EAGAIN. -/
  | key (key : Option Nat)
  | status (error : Option Errno)
  | got (value : Option Nat)
  | destroy (key value destructor : Nat)
deriving DecidableEq, Repr

namespace KeySystem

def me (s : KeySystem σ) : Tid := s.lib.sys.vp.current

def privateData (s : KeySystem σ) (thread : Tid) : Nat → Option Nat := s.table (s.lib.stack thread)

def store (s : KeySystem σ) (key : Nat) (value : Option Nat) : KeySystem σ :=
  let mine := Function.update (s.privateData s.me) key value
  { s with table := Function.update s.table (s.lib.stack s.me) mine }

def wait (s : KeySystem σ) (rest : Option Rest) : KeySystem σ :=
  { s with pending := Function.update s.pending s.me rest }

/-- The key that an int names, if it has been created. -/
def valid (s : KeySystem σ) (key : Int) : Option Nat :=
  if key < 0 ∨ key ≥ s.keyMax then none else some key.toNat

def destructible (s : KeySystem σ) (thread : Tid) (key : Nat) : Option (Nat × Nat) := do
  let value ← s.privateData thread key
  let destructor ← s.destructors key
  some (value, destructor)

end KeySystem

def stKeyCreate (s : KeySystem σ) (destructor : Option Nat) : KeySystem σ × KeyOut :=
  if s.keyMax ≥ keysMax then (s, .key none)
  else
    let s' := { s with keyMax := s.keyMax + 1, destructors := Function.update s.destructors s.keyMax destructor }
    (s', .key (some s.keyMax))

def stThreadSetspecific (s : KeySystem σ) (key : Int) (value : Option Nat) : KeySystem σ × KeyOut :=
  match s.valid key with
  | none => (s, .status (some .einval))
  | some key =>
    if value ≠ s.privateData s.me key then
      match s.destructible s.me key with
      | some (old, destructor) => (s.wait (some (.set key value)), .destroy key old destructor)
      | none => (s.store key value, .status none)
    else (s, .status none)

def stThreadGetspecific (s : KeySystem σ) (key : Int) : Option Nat :=
  match s.valid key with
  | none => none
  | some key => s.privateData s.me key

def stThreadCleanup (s : KeySystem σ) (thread : Tid) : (turns key : Nat) → Option (Nat × Nat × Nat)
  | 0, _ => none
  | turns + 1, key =>
    match s.destructible thread key with
    | some (value, destructor) => some (key, value, destructor)
    | none => stThreadCleanup s thread turns (key + 1)

/-- st_thread_exit when _st_thread_cleanup has come to a key. The number of keys is read in
every turn, so it is the present one. -/
def stThreadExit (E : EventSys σ ω) (layout : Layout) (s : KeySystem σ) (key retval : Nat) :
    Option (KeySystem σ × KeyOut) :=
  match stThreadCleanup s s.me (s.keyMax - key) key with
  | some (key, value, destructor) => some (s.wait (some (.exit key retval)), .destroy key value destructor)
  | none => do
    let (lib, out) ← poolStep E layout s.lib (.lib (.call (.threadExit retval)))
    some ({ s.wait none with lib := lib }, .lib out)

inductive KeyLabel (ω : Type) where
  | lib (l : PoolLabel ω)
  | create (destructor : Option Nat)
  | setspecific (key : Int) (value : Option Nat)
  | getspecific (key : Int)
  | exit (retval : Nat)
  /-- The destructor that the current thread is inside of returns. -/
  | returned

/-- The stack whose key table st_thread_create zeroes. -/
def KeySystem.wipes (s : KeySystem σ) : PoolLabel ω → Option StkId
  | .create _ _ _ stkSize answers =>
    (stStackNew s.lib.pool (adjustStkSize s.lib.pool.pagesize stkSize) answers).bind Prod.snd
  | _ => none

def wiped (table : Option StkId → Nat → Option Nat) : Option StkId → Option StkId → Nat → Option Nat
  | none => table
  | some ts => Function.update table (some ts) fun _ => none

def keyStep (E : EventSys σ ω) (layout : Layout) (s : KeySystem σ) : KeyLabel ω → Option (KeySystem σ × KeyOut)
  | .lib l => do
    let (lib, out) ← poolStep E layout s.lib l
    some ({ s with lib := lib, table := wiped s.table (s.wipes l) }, .lib out)
  | .create destructor => some (stKeyCreate s destructor)
  | .setspecific key value => some (stThreadSetspecific s key value)
  | .getspecific key => some (s, .got (stThreadGetspecific s key))
  | .exit retval => stThreadExit E layout s 0 retval
  | .returned =>
    match s.pending s.me with
    | none => none
    | some (.set key value) => some ((s.store key value).wait none, .status none)
    | some (.exit key retval) => stThreadExit E layout (s.store key none) (key + 1) retval

/-- Threads exit by a label of this machine only. -/
def exits : PoolLabel ω → Bool
  | .lib (.call (.threadExit _)) => true
  | _ => false

/-- Destructors call neither the functions of key.c nor st_thread_exit. -/
def keyEnabled (E : EventSys σ ω) (s : KeySystem σ) : KeyLabel ω → Bool
  | .lib l => poolEnabled E s.lib l && !exits l
  | .create _ | .setspecific _ _ | .getspecific _ | .exit _ =>
    (s.lib.sys.vp.thr s.me).context = .user && (s.pending s.me).isNone
  | .returned => (s.lib.sys.vp.thr s.me).context = .user && (s.pending s.me).isSome

def keyMachine (E : EventSys σ ω) (layout : Layout) : Machine (KeySystem σ) (KeyLabel ω) KeyOut where
  enabled := keyEnabled E
  step := keyStep E layout

/-- After st_init: the key tables of the idle thread and of the primordial one are zeroed.
Keys may have been created before it. -/
def KeyStarted (E : EventSys σ ω) (layout : Layout) (s : KeySystem σ) : Prop :=
  PoolStarted E layout s.lib ∧ s.keyMax ≤ keysMax ∧ (∀ key, s.table none key = none) ∧
    (∀ key, s.privateData s.lib.sys.vp.idleThread key = none) ∧ ∀ thread, s.pending thread = none

abbrev KeyEvent (σ ω : Type) := Event (KeySystem σ) (KeyLabel ω) KeyOut

abbrev KeyRun (E : EventSys σ ω) (layout : Layout) := Run (keyMachine E layout) (KeyStarted E layout)

end StateThreads.Key
