import StateThreads.System
import StateThreads.Lib.Ring

/-! stk.c, and the stacks of the threads that sched.c creates and ends. A stack object is
named by the answer of calloc; stacks are never unmapped. The links of the free list are
those of _st_free_stacks, the node none, and of the stack objects. -/
namespace StateThreads
open LabelledRun

abbrev StkId := Nat

structure Stk where
  vaddr : Int
  vaddrSize : Int
  stkSize : Int
  stkBottom : Int
  stkTop : Int
  sp : Int
deriving DecidableEq, Repr

/-- The globals of stk.c with the page size, the stack objects, and which of them ever got
a segment. -/
structure Pool where
  pagesize : Int
  randomizeStacks : Bool
  links : Ring.Links (Option StkId)
  numFreeStacks : Int
  stk : StkId → Stk
  made : List StkId

structure StkAnswers where
  object : Option StkId
  segment : Option Int
  random : Nat
deriving DecidableEq, Repr

def Pool.boot (pagesize : Int) (randomizeStacks : Bool) : Pool :=
  ⟨pagesize, randomizeStacks, .init none, 0, fun _ => ⟨0, 0, 0, 0, 0, 0⟩, []⟩

/- The loop of _st_stack_new over the free list from qp on. Fuel is one more than the
number of free stacks, and running out of it is a fault. -/
def Pool.search (pool : Pool) (stackSize : Int) : Nat → Option StkId → Option (Option StkId)
  | 0, _ => none
  | _ + 1, none => some none
  | fuel + 1, some ts =>
    if stackSize ≤ (pool.stk ts).stkSize then some (some ts)
    else do
      let qp ← pool.links.next (some ts)
      pool.search stackSize fuel qp

/-- mmap does not map a segment of no bytes, nor one of more than there are: a negative
size is a large size_t. -/
def stNewStkSegment (size : Int) (answer : Option Int) : Option Int := if 0 < size then answer else none

def Pool.extra (pool : Pool) : Int := if pool.randomizeStacks then pool.pagesize else 0

def Pool.vaddrSize (pool : Pool) (stackSize : Int) : Int :=
  toInt32 (toInt32 (stackSize + toInt32 (2 * pool.pagesize)) + pool.extra)

/-- (random() % extra) & ~0xf -/
def Pool.offset (pool : Pool) (random : Nat) : Int :=
  if pool.extra = 0 then 0 else (random % pool.extra.toNat / 16 * 16 : Nat)

def Pool.newStk (pool : Pool) (stackSize vaddr : Int) (random : Nat) : Stk where
  vaddr := vaddr
  vaddrSize := pool.vaddrSize stackSize
  stkSize := stackSize
  stkBottom := vaddr + pool.pagesize + pool.offset random
  stkTop := vaddr + pool.pagesize + stackSize + pool.offset random
  sp := 0

def stStackNew (pool : Pool) (stackSize : Int) (answers : StkAnswers) : Option (Pool × Option StkId) := do
  let qp ← pool.links.next none
  match ← pool.search stackSize (pool.numFreeStacks.toNat + 1) qp with
  | some ts =>
    let links ← pool.links.remove (some ts)
    some ({ pool with links := links.clear (some ts), numFreeStacks := pool.numFreeStacks - 1 }, some ts)
  | none =>
    match answers.object with
    | none => some (pool, none)
    | some ts =>
      match stNewStkSegment (pool.vaddrSize stackSize) answers.segment with
      | none => some (pool, none)
      | some vaddr =>
        let stk := Function.update pool.stk ts (pool.newStk stackSize vaddr answers.random)
        some ({ pool with stk := stk, made := ts :: pool.made }, some ts)

def stStackFree (pool : Pool) : Option StkId → Option Pool
  | none => some pool
  | some ts => do
    let last ← pool.links.prev none
    let links ← pool.links.insertBefore (some ts) last
    some { pool with links := links, numFreeStacks := pool.numFreeStacks + 1 }

/- st_thread_create. -/

def defaultStackSize : Int := 64 * 1024

/-- Adjust stack size. -/
def adjustStkSize (pagesize stkSize : Int) : Int :=
  let stkSize := if stkSize = 0 then defaultStackSize else stkSize
  toInt32 ((toInt32 (toInt32 (stkSize + pagesize) - 1)).tdiv pagesize * pagesize)

/-- The sizes of what lies at the top of a stack: the key table, the thread object and the
pad. With the alignment they take less than the smallest page. -/
structure Layout where
  keys : Nat
  thread : Nat
  pad : Nat
  object : 0 < thread
  small : keys + thread + 63 + pad < 4096

structure Carving where
  ptds : Int
  thread : Int
  sp : Int
deriving DecidableEq, Repr

/-- The thread object and the key table off a stack that grows down. -/
def carve (layout : Layout) (stkTop : Int) : Carving :=
  let ptds := stkTop - layout.keys
  let thread := ptds - layout.thread
  let sp := if thread % 64 ≠ 0 then thread - thread % 64 else thread
  ⟨ptds, thread, sp - layout.pad⟩

def Pool.carved (pool : Pool) (layout : Layout) (ts : StkId) : Pool :=
  { pool with stk := Function.update pool.stk ts { pool.stk ts with sp := (carve layout (pool.stk ts).stkTop).sp } }

/- The machine. -/

variable {σ ω : Type}

structure PoolSystem (σ : Type) where
  sys : System σ
  pool : Pool
  stack : Tid → Option StkId

inductive PoolLabel (ω : Type) where
  | lib (l : Label ω)
  | create (thread : Tid) (joinable : Bool) (cvar : Option CondId) (stkSize : Int) (answers : StkAnswers)
  | randomize (on : Bool)

def Vp.ends (vp : Vp) : Label ω → Bool
  | .call (.threadExit _) => (vp.thr vp.current).term = none
  | .resume => (vp.thr vp.current).context = .exiting
  | _ => false

def PoolSystem.frees (s : PoolSystem σ) (l : Label ω) : Option StkId :=
  if s.sys.vp.ends l && !(s.sys.vp.thr s.sys.vp.current).flags.primordial then s.stack s.sys.vp.current else none

def poolStep (E : EventSys σ ω) (layout : Layout) (s : PoolSystem σ) :
    PoolLabel ω → Option (PoolSystem σ × Option Ret)
  | .lib l => do
    let pool ← stStackFree s.pool (s.frees l)
    let (sys, out) ← step E s.sys l
    some (⟨sys, pool, s.stack⟩, out)
  | .create thread joinable cvar stkSize answers => do
    let (pool, stack) ← stStackNew s.pool (adjustStkSize s.pool.pagesize stkSize) answers
    match stack with
    | none => do
      let (sys, out) ← step E s.sys (.call (.threadCreate none joinable cvar))
      some (⟨sys, pool, s.stack⟩, out)
    | some ts => do
      let pool := pool.carved layout ts
      let (sys, out) ← step E s.sys (.call (.threadCreate (some thread) joinable cvar))
      if joinable ∧ cvar = none then do
        let pool ← stStackFree pool (some ts)
        some (⟨sys, pool, s.stack⟩, out)
      else some (⟨sys, pool, Function.update s.stack thread (some ts)⟩, out)
  | .randomize on =>
    some ({ s with pool := { s.pool with randomizeStacks := on } },
      some (.value (if s.pool.randomizeStacks then 1 else 0)))

/-- Threads are created by the second kind of label only. -/
def Label.creates : Label ω → Bool
  | .call (.threadCreate _ _ _) => true
  | _ => false

def poolEnabled (E : EventSys σ ω) (s : PoolSystem σ) : PoolLabel ω → Bool
  | .lib l => enabled E s.sys l && !l.creates
  | .create thread joinable cvar stkSize answers =>
    enabled E s.sys (.call (.threadCreate (some thread) joinable cvar)) && decide (IsInt stkSize) &&
      answers.object.all fun ts => ts ∉ s.pool.made
  | .randomize _ => (s.sys.vp.thr s.sys.vp.current).context = .user

def poolMachine (E : EventSys σ ω) (layout : Layout) : Machine (PoolSystem σ) (PoolLabel ω) (Option Ret) where
  enabled := poolEnabled E
  step := poolStep E layout

/-- A page size that getpagesize may return. -/
def PageSize (p : Int) : Prop := ∃ k : Nat, 12 ≤ k ∧ k ≤ 30 ∧ p = 2 ^ k

/-- After st_init, which has made the idle thread on a stack of the default size. -/
def PoolStarted (E : EventSys σ ω) (layout : Layout) (s : PoolSystem σ) : Prop :=
  Started E s.sys ∧ ∃ pagesize randomize answers pool ts, PageSize pagesize ∧
    stStackNew (.boot pagesize randomize) (adjustStkSize pagesize 0) answers = some (pool, some ts) ∧
    s.pool = pool.carved layout ts ∧ s.stack = Function.update (fun _ => none) s.sys.vp.idleThread (some ts)

abbrev PoolEvent (σ ω : Type) := Event (PoolSystem σ) (PoolLabel ω) (Option Ret)

abbrev PoolRun (E : EventSys σ ω) (layout : Layout) := Run (poolMachine E layout) (PoolStarted E layout)

end StateThreads
