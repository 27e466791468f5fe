import StateThreads.Common
import StateThreads.Lib.Simulation
import StateThreads.Md.Correct

/-! Threads that share one processor and hand it to each other with _ST_SWITCH_CONTEXT and
_ST_RESTORE_CONTEXT. What runs between two switches is compiled code: it may do anything to
registers and memory but write to the context of a thread that is switched away. -/
namespace StateThreads.Md
open ByteMemory X86 LabelledRun

variable {w : Nat} {R : Type}

structure Threads (w : Nat) (R : Type) where
  cpu : Cpu w R
  current : Tid
  saved : List Tid

inductive Act (w : Nat) (R : Type) where
  /-- The running thread gets as far as this. -/
  | work (after : Cpu w R)
  /-- MD_INIT_CONTEXT(t, sp, main), from the call of MD_SETJMP to the end, on a context that
  the allocator has handed out. -/
  | create (t : Tid) (sp : BitVec w)
  /-- _ST_SWITCH_CONTEXT, from the call of MD_SETJMP on; _st_vp_schedule then gets as far as
  the call of MD_LONGJMP on another context. -/
  | switch (scheduled : Cpu w R) (next : Tid)
  /-- The memory of a thread that has exited is free again. -/
  | retire (t : Tid)

def keeps (a : BitVec w) (n : Nat) (m m' : Mem w) : Bool :=
  (List.range n).all fun i => m' (a + BitVec.ofNat w i) = m (a + BitVec.ofNat w i)

def Code.setjmp (A : Code w R) (c : Cpu w R) (env : BitVec w) : Bool :=
  A.savesTo c = env && decide (Apart env A.size (c.regs A.sp) (w / 8))

def Code.longjmp (A : Code w R) (c : Cpu w R) (env : BitVec w) : Bool :=
  A.restoresFrom c = env && A.restoresWith c = 1

variable [DecidableEq R] (A : Code w R) (ctx : Tid → BitVec w)

def enabled (s : Threads w R) : Act w R → Bool
  | .work after => s.saved.all fun t => keeps (ctx t) A.size s.cpu.mem after.mem
  | .create t _ => t ≠ s.current && t ∉ s.saved && A.setjmp s.cpu (ctx t) &&
      (s.current :: s.saved).all fun u => Apart (ctx t) A.size (ctx u) A.size
  | .switch scheduled next => A.setjmp s.cpu (ctx s.current) && A.longjmp scheduled (ctx next) &&
      decide (next ∈ s.current :: s.saved) && (exec A.save s.cpu).all fun c =>
        (s.current :: s.saved).all fun t => keeps (ctx t) A.size c.mem scheduled.mem
  | .retire t => t ∈ s.saved

/-- A thread that is resumed returns from MD_SETJMP; the output is what it finds. -/
def step (s : Threads w R) : Act w R → Option (Threads w R × Option (Frame w × BitVec w))
  | .work after => some ({ s with cpu := after }, none)
  | .create t sp => (exec A.save s.cpu).map fun c =>
      (⟨{ c with mem := store c.mem (ctx t + BitVec.ofNat w A.spSlot) sp }, s.current, t :: s.saved⟩, none)
  | .switch scheduled next => do
      let _ ← exec A.save s.cpu
      let c ← exec A.restore scheduled
      some (⟨c, next, (s.current :: s.saved).filter fun t => t ≠ next⟩, some (A.seen c, c.regs A.ret))
  | .retire t => some ({ s with saved := s.saved.filter fun u => u ≠ t }, none)

def machine : Machine (Threads w R) (Act w R) (Option (Frame w × BitVec w)) where
  enabled := enabled A ctx
  step := step A ctx

def Fresh (s : Threads w R) : Prop := s.saved = []

/- The purpose: a thread goes on where it was. -/

structure Fibers (w : Nat) where
  current : Tid
  frames : Tid → Option (Frame w)

inductive FiberAct (w : Nat) where
  | work
  /-- The thread t will return to the creator's frame, on a stack of its own. -/
  | create (t : Tid) (creator : Frame w) (sp : BitVec w)
  | switch (own : Frame w) (next : Tid)
  | retire (t : Tid)

def Fibers.enabled (s : Fibers w) : FiberAct w → Bool
  | .work => true
  | .create t _ _ => t ≠ s.current && (s.frames t).isNone
  | .switch _ next => next = s.current || (s.frames next).isSome
  | .retire t => (s.frames t).isSome

/-- The frame of a thread is used once. -/
def Fibers.step (s : Fibers w) : FiberAct w → Option (Fibers w × Option (Frame w × BitVec w))
  | .work => some (s, none)
  | .create t creator sp => some ({ s with frames := Function.update s.frames t (some { creator with sp := sp }) }, none)
  | .switch own next =>
    let frames := Function.update s.frames s.current (some own)
    (frames next).map fun f => (⟨next, Function.update frames next none⟩, some (f, 1))
  | .retire t => some ({ s with frames := Function.update s.frames t none }, none)

def Fibers.machine : Machine (Fibers w) (FiberAct w) (Option (Frame w × BitVec w)) where
  enabled := Fibers.enabled
  step := Fibers.step

def Fibers.Fresh (s : Fibers w) : Prop := s.frames = fun _ => none

def fiberAct (e : Event (Threads w R) (Act w R) (Option (Frame w × BitVec w))) : FiberAct w :=
  match e.label with
  | .work _ => .work
  | .create t sp => .create t (A.entry e.pre.cpu) sp
  | .switch _ next => .switch (A.entry e.pre.cpu) next
  | .retire t => .retire t

structure Related (s : Threads w R) (f : Fibers w) : Prop where
  current : f.current = s.current
  frames : f.frames = fun t => if t ∈ s.saved then some (A.held s.cpu.mem (ctx t)) else none
  running : s.current ∉ s.saved
  apart : ∀ t ∈ s.current :: s.saved, ∀ u ∈ s.current :: s.saved, t ≠ u → Apart (ctx t) A.size (ctx u) A.size

omit [DecidableEq R] in
theorem keeps_iff {a : BitVec w} {n : Nat} {m m' : Mem w} (fits : n ≤ 2 ^ w) :
    keeps a n m m' = true ↔ SameBytes a n m m' := by
  simp only [keeps, List.all_eq_true, List.mem_range, decide_eq_true_eq]
  constructor
  · intro same b inside
    have there := same (b - a).toNat inside
    rwa [BitVec.ofNat_toNat, BitVec.setWidth_eq, show a + (b - a) = b by grind] at there
  · intro same i small
    apply same
    rw [Within, offset_sub, BitVec.toNat_ofNat, Nat.mod_eq_of_lt (by omega)]
    exact small

variable {A ctx}

theorem Code.Correct.setjmp (correct : A.Correct) {c : Cpu w R} {env : BitVec w} (call : A.setjmp c env = true) :
    ∃ c', exec A.save c = some c' ∧ A.held c'.mem env = A.entry c ∧
      ∀ b k, Apart env A.size b k → SameBytes b k c.mem c'.mem := by
  simp only [Code.setjmp, Bool.and_eq_true, decide_eq_true_eq] at call
  obtain ⟨rfl, clear⟩ := call
  obtain ⟨c', run, -, -, held, rest⟩ := correct.save c clear
  exact ⟨c', run, held, rest⟩

theorem Code.Correct.longjmp (correct : A.Correct) {c : Cpu w R} {env : BitVec w} (call : A.longjmp c env = true) :
    ∃ c', exec A.restore c = some c' ∧ A.seen c' = A.held c.mem env ∧ c'.regs A.ret = 1 ∧ c'.mem = c.mem := by
  simp only [Code.longjmp, Bool.and_eq_true, decide_eq_true_eq] at call
  obtain ⟨rfl, one⟩ := call
  obtain ⟨c', run, seen, ret, mem⟩ := correct.restore c
  refine ⟨c', run, seen, ?_, mem⟩
  rw [ret, one]
  apply BitVec.eq_of_toNat_eq
  simp

theorem Related.kept (correct : A.Correct) {s : Threads w R} {f : Fibers w} (related : Related A ctx s f) {t : Tid}
    {m : Mem w} (same : t ∈ s.saved → SameBytes (ctx t) A.size s.cpu.mem m) :
    f.frames t = if t ∈ s.saved then some (A.held m (ctx t)) else none := by
  rw [related.frames]
  dsimp only
  split
  · rename_i member
    rw [correct.buffer _ _ _ (same member)]
  · rfl

section
variable (correct : A.Correct) (fits : A.size ≤ 2 ^ w) {s s' : Threads w R} {f : Fibers w} {out : Option (Frame w × BitVec w)} (related : Related A ctx s f)
include correct related

include fits in
theorem Related.work {after : Cpu w R} (ok : enabled A ctx s (.work after) = true)
    (run : step A ctx s (.work after) = some (s', out)) :
    ∃ f', f.enabled .work = true ∧ f.step .work = some (f', out) ∧ Related A ctx s' f' := by
  cases run
  refine ⟨f, rfl, rfl, related.current, ?_, related.running, related.apart⟩
  funext t
  apply related.kept correct
  intro member
  exact (keeps_iff fits).mp (List.all_eq_true.mp ok t member)

theorem Related.create {t : Tid} {sp : BitVec w} (ok : enabled A ctx s (.create t sp) = true)
    (run : step A ctx s (.create t sp) = some (s', out)) :
    ∃ f', f.enabled (.create t (A.entry s.cpu) sp) = true ∧ f.step (.create t (A.entry s.cpu) sp) = some (f', out) ∧
      Related A ctx s' f' := by
  simp only [enabled, Bool.and_eq_true, decide_eq_true_eq] at ok
  obtain ⟨⟨⟨other, new⟩, call⟩, clear⟩ := ok
  have clear : ∀ u ∈ s.current :: s.saved, Apart (ctx t) A.size (ctx u) A.size := fun u member =>
    of_decide_eq_true (List.all_eq_true.mp clear u member)
  obtain ⟨c, saves, held, rest⟩ := correct.setjmp call
  simp only [step, saves, Option.map_some, Option.some.injEq, Prod.mk.injEq] at run
  obtain ⟨rfl, rfl⟩ := run
  obtain ⟨ownSp, restSp⟩ := correct.setSp c.mem (ctx t) sp
  refine ⟨_, ?_, rfl, related.current, ?_, ?_, ?_⟩
  · rw [Fibers.enabled, related.current, related.frames]
    simp [other, new]
  · funext u
    by_cases here : u = t
    · subst here
      simp [ownSp, held]
    · have kept := related.kept correct (t := u) (m := store c.mem (ctx t + BitVec.ofNat w A.spSlot) sp) fun member =>
        have elsewhere := clear u (List.mem_cons_of_mem _ member)
        (rest _ _ elsewhere).trans (restSp _ _ elsewhere)
      simpa [here] using kept
  · simp [related.running, Ne.symm other]
  · have old : ∀ u ∈ s.current :: t :: s.saved, u ≠ t → u ∈ s.current :: s.saved := by
      intro u member away
      simpa [away] using member
    intro u hu v hv differ
    by_cases first : u = t
    · subst first
      exact clear v (old v hv (Ne.symm differ))
    · by_cases second : v = t
      · subst second
        exact (clear u (old u hu first)).symm
      · exact related.apart u (old u hu first) v (old v hv second) differ

omit correct in
theorem Related.retire {t : Tid} (ok : enabled A ctx s (.retire t) = true)
    (run : step A ctx s (.retire t) = some (s', out)) :
    ∃ f', f.enabled (.retire t) = true ∧ f.step (.retire t) = some (f', out) ∧ Related A ctx s' f' := by
  cases run
  have member : t ∈ s.saved := of_decide_eq_true ok
  refine ⟨_, ?_, rfl, related.current, ?_, ?_, ?_⟩
  · rw [Fibers.enabled, related.frames]
    simp [member]
  · funext u
    by_cases here : u = t
    · subst here
      simp
    · simp [here, related.frames]
  · simp [related.running]
  · have old : ∀ u ∈ s.current :: s.saved.filter (fun u => u ≠ t), u ∈ s.current :: s.saved := by
      intro u member
      obtain rfl | there := List.mem_cons.mp member
      · exact List.mem_cons_self ..
      · exact List.mem_cons_of_mem _ (List.mem_of_mem_filter there)
    exact fun u hu v hv => related.apart u (old u hu) v (old v hv)

include fits in
theorem Related.switch {scheduled : Cpu w R} {next : Tid} (ok : enabled A ctx s (.switch scheduled next) = true)
    (run : step A ctx s (.switch scheduled next) = some (s', out)) :
    ∃ f', f.enabled (.switch (A.entry s.cpu) next) = true ∧
      f.step (.switch (A.entry s.cpu) next) = some (f', out) ∧ Related A ctx s' f' := by
  simp only [enabled, Bool.and_eq_true, decide_eq_true_eq] at ok
  obtain ⟨⟨⟨sets, jumps⟩, member⟩, kept⟩ := ok
  obtain ⟨c, saves, held, rest⟩ := correct.setjmp sets
  obtain ⟨c', restores, seen, ret, mem⟩ := correct.longjmp jumps
  rw [saves] at kept
  have between : ∀ t ∈ s.current :: s.saved, SameBytes (ctx t) A.size c.mem scheduled.mem := fun t there =>
    (keeps_iff fits).mp (List.all_eq_true.mp kept t there)
  simp only [step, saves, restores, Option.bind_eq_bind, Option.bind_some, Option.some.injEq, Prod.mk.injEq] at run
  obtain ⟨rfl, rfl⟩ := run
  -- the contexts of all threads, the one that is switched away included
  have frames : ∀ t, Function.update f.frames s.current (some (A.entry s.cpu)) t =
      if t ∈ s.current :: s.saved then some (A.held scheduled.mem (ctx t)) else none := by
    intro t
    by_cases here : t = s.current
    · subst here
      rw [Function.update_self, if_pos (List.mem_cons_self ..),
        correct.buffer _ _ _ (between _ (List.mem_cons_self ..)), held]
    · rw [Function.update_of_ne here, related.kept correct fun there =>
        (rest _ _ (related.apart _ (List.mem_cons_self ..) t (List.mem_cons_of_mem _ there) (Ne.symm here))).trans
          (between t (List.mem_cons_of_mem _ there))]
      simp [here]
  have resumed := frames next
  rw [if_pos member] at resumed
  refine ⟨⟨next, Function.update (Function.update f.frames s.current (some (A.entry s.cpu))) next none⟩, ?_, ?_, rfl, ?_, ?_,
    ?_⟩
  · rw [Fibers.enabled, related.current, related.frames]
    simpa using member
  · rw [Fibers.step, related.current, resumed, seen, ret]
    rfl
  · funext t
    by_cases here : t = next
    · subst here
      simp
    · dsimp only
      rw [Function.update_of_ne here, frames, mem]
      simp [here]
  · simp
  · have old : ∀ u ∈ next :: (s.current :: s.saved).filter (fun t => t ≠ next), u ∈ s.current :: s.saved := by
      intro u there
      obtain rfl | there := List.mem_cons.mp there
      · exact member
      · exact List.mem_of_mem_filter there
    exact fun u hu v hv => related.apart u (old u hu) v (old v hv)

end

/-- The machine with the assembler code refines the one in which a switch is a step. -/
theorem machine_simulates (correct : A.Correct) (fits : A.size ≤ 2 ^ w) :
    Simulation (machine A ctx) Fresh Fibers.machine Fibers.Fresh (fiberAct A) (Related A ctx) where
  initial s fresh := by
    refine ⟨⟨s.current, fun _ => none⟩, rfl, rfl, ?_, ?_, ?_⟩ <;> simp [show s.saved = [] from fresh]
  step e f fired related := by
    have ok := fired.enabled
    have run := fired.step
    unfold fiberAct
    generalize e.label = l at ok run
    cases l with
    | work after => exact related.work correct fits ok run
    | create t sp => exact related.create correct ok run
    | switch scheduled next => exact related.switch correct fits ok run
    | retire t => exact related.retire ok run

end StateThreads.Md
