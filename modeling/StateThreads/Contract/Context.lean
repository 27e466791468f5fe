import StateThreads.Md.Coroutine

/-! The context switch of md.S, on the machines for which it is written here. -/
namespace StateThreads.Md
open ByteMemory X86 LabelledRun

inductive Target where
  | i386 | amd64

def Target.width : Target → Nat
  | .i386 => 32
  | .amd64 => 64

def Target.Reg : Target → Type
  | .i386 => I386
  | .amd64 => Amd64

instance Target.decEqReg (target : Target) : DecidableEq target.Reg :=
  match target with
  | .i386 => inferInstanceAs (DecidableEq I386)
  | .amd64 => inferInstanceAs (DecidableEq Amd64)

def Target.code : (target : Target) → Code target.width target.Reg
  | .i386 => I386.code
  | .amd64 => Amd64.code

theorem Target.correct (target : Target) : target.code.Correct := by
  cases target with
  | i386 => exact I386.correct
  | amd64 => exact Amd64.correct

theorem Target.fits (target : Target) : target.code.size ≤ 2 ^ target.width := by
  cases target <;> decide

theorem Target.low32_setWidth (target : Target) (x : BitVec 32) : low32 (x.setWidth target.width) = x := by
  cases target with
  | i386 => exact BitVec.setWidth_eq x
  | amd64 =>
    show (x.setWidth 64).setWidth 32 = x
    simp

/-- _st_md_cxt_save returns 0 to its caller and changes the buffer only; a later
_st_md_cxt_restore, in whatever state the processor is and as long as the buffer is
untouched, returns to the same place with the same registers and stack, changes no memory,
and has its argument for a result, or 1 in place of 0. -/
theorem context_roundtrip (target : Target) (c : Cpu target.width target.Reg)
    (clear : Apart (target.code.savesTo c) target.code.size (c.regs target.code.sp) (target.width / 8)) :
    ∃ c₁, exec target.code.save c = some c₁ ∧ low32 (c₁.regs target.code.ret) = 0 ∧
      target.code.seen c₁ = target.code.entry c ∧
      (∀ b k, Apart (target.code.savesTo c) target.code.size b k → SameBytes b k c.mem c₁.mem) ∧
      ∀ c₂, target.code.restoresFrom c₂ = target.code.savesTo c →
        SameBytes (target.code.savesTo c) target.code.size c₁.mem c₂.mem →
        ∃ c₃, exec target.code.restore c₂ = some c₃ ∧ target.code.seen c₃ = target.code.seen c₁ ∧ c₃.mem = c₂.mem ∧
          low32 (c₃.regs target.code.ret) = if target.code.restoresWith c₂ = 0 then 1 else target.code.restoresWith c₂ := by
  obtain ⟨c₁, saves, seen, ret, held, rest⟩ := target.correct.save c clear
  refine ⟨c₁, saves, ?_, seen, rest, fun c₂ same untouched => ?_⟩
  · rw [ret, low32]
    apply BitVec.eq_of_toNat_eq
    simp
  · obtain ⟨c₃, restores, found, value, mem⟩ := target.correct.restore c₂
    refine ⟨c₃, restores, ?_, mem, ?_⟩
    · rw [found, same, target.correct.buffer _ _ _ untouched, held, seen]
    · rw [value, target.low32_setWidth]

def Amd64.calls (c : Cpu 64 Amd64) (arg sp own : BitVec 64) : Cpu 64 Amd64 :=
  (((c.set rdi arg).set rsi 1).set rsp sp).set rbx own

def Amd64.reset : Cpu 64 Amd64 := ⟨fun _ => 0, fun _ => 0, false, 0⟩

/-- On amd64, with the context below the stack. -/
theorem context_roundtrip_amd64 : ∃ c₁ : Cpu 64 Amd64,
    exec Amd64.stMdCxtSave (Amd64.calls Amd64.reset 0x800 0x1000 7) = some c₁ ∧ low32 (c₁.regs .rax) = 0 ∧
    ∀ c₂ : Cpu 64 Amd64, c₂.regs .rdi = 0x800 → SameBytes 0x800 64 c₁.mem c₂.mem →
      ∃ c₃, exec Amd64.stMdCxtRestore c₂ = some c₃ ∧ Amd64.code.seen c₃ = Amd64.code.seen c₁ := by
  have clear : Apart (0x800 : BitVec 64) 64 0x1000 8 := by decide
  obtain ⟨c₁, saves, ret, -, -, later⟩ := context_roundtrip .amd64 (Amd64.calls Amd64.reset 0x800 0x1000 7) clear
  refine ⟨c₁, saves, ret, fun c₂ same untouched => ?_⟩
  obtain ⟨c₃, restores, seen, -⟩ := later c₂ same untouched
  exact ⟨c₃, restores, seen⟩

/-- Every run of threads that switch with this code is one of the machine in which a switch
stores the frame of the running thread and hands the next one its own: for every order of
switches, a thread returns from _ST_SWITCH_CONTEXT with the registers, the stack and the
place it left with, and a new one on its own stack. -/
theorem context_switch_refines (target : Target) (ctx : Tid → BitVec target.width)
    (hist : List (Event (Threads target.width target.Reg) (Act target.width target.Reg)
      (Option (Frame target.width × BitVec target.width)))) (s : Threads target.width target.Reg)
    (run : Run (machine target.code ctx) Fresh hist s) :
    ∃ hist' f, Run Fibers.machine Fibers.Fresh hist' f ∧ Related target.code ctx s f ∧
      hist'.map (·.label) = hist.map (fiberAct target.code) ∧ hist'.map (·.out) = hist.map (·.out) :=
  (machine_simulates target.correct target.fits).run run

/- Two threads on amd64. -/

namespace Amd64

def contexts (t : Tid) : BitVec 64 := BitVec.ofNat 64 (0x2000 + 0x100 * t)

def boot : Threads 64 Amd64 := ⟨calls reset (contexts 1) 0x1000 3, 0, []⟩

def after (s : Threads 64 Amd64) (a : Act 64 Amd64) : Threads 64 Amd64 := ((step code contexts s a).map Prod.fst).getD s

def handOver (s : Threads 64 Amd64) (sp own : BitVec 64) (next : Tid) : List (Act 64 Amd64) :=
  let ready := calls s.cpu (contexts s.current) sp own
  let saved := (exec stMdCxtSave ready).getD ready
  [.work ready, .switch (calls saved (contexts next) 0x900 0) next]

def created : Threads 64 Amd64 := after boot (.create 1 0x5000)

def switched : Threads 64 Amd64 := (handOver created 0xF00 5 1).foldl after created

/-- Thread 0 creates thread 1 and switches to it, and is switched back to. -/
def thereAndBack : List (Act 64 Amd64) :=
  .create 1 0x5000 :: (handOver created 0xF00 5 1 ++ handOver switched 0x4F00 9 0)

end Amd64

theorem context_switch_refines_there_and_back : ∃ hist s hist' f,
    Run (machine Target.amd64.code Amd64.contexts) Fresh hist s ∧
    hist.map (·.out) = [some (⟨[5, 0, 0, 0, 0, 0], 0xF08, 0⟩, 1), none, some (⟨[3, 0, 0, 0, 0, 0], 0x5000, 0⟩, 1), none,
      none] ∧ Run Fibers.machine Fibers.Fresh hist' f ∧ Related Target.amd64.code Amd64.contexts s f ∧
    hist'.map (·.out) = hist.map (·.out) := by
  obtain ⟨hist, s, run, seen⟩ := Run.found (M := machine Target.amd64.code Amd64.contexts) Amd64.thereAndBack
    (show Fresh Amd64.boot from rfl)
    (p := fun hist _ => decide (hist.map (·.out) = [some (⟨[5, 0, 0, 0, 0, 0], 0xF08, 0⟩, 1), none,
      some (⟨[3, 0, 0, 0, 0, 0], 0x5000, 0⟩, 1), none, none])) (by decide +kernel)
  obtain ⟨hist', f, run', related, -, outs⟩ := context_switch_refines .amd64 Amd64.contexts hist s run
  exact ⟨hist, s, hist', f, run, of_decide_eq_true seen, run', related, outs⟩

end StateThreads.Md
