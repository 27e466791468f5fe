import Mathlib.Logic.Function.Basic
import StateThreads.Lib.Memory

/-! A part of the x86 instruction set, for registers and addresses of w bits. The code of a
function is a list; it ends with a jump out of it or a return. -/
namespace X86
open ByteMemory

structure Cpu (w : Nat) (R : Type) where
  regs : R → BitVec w
  mem : Mem w
  zf : Bool
  pc : BitVec w

/-- In the order of the assembler, the source first. An operation named 32 has operands of
32 bits and clears the rest of the register that it writes. -/
inductive Instr (R : Type) where
  | store (src : R) (disp : Nat) (base : R)
  | load (disp : Nat) (base : R) (dst : R)
  | lea (disp : Nat) (base : R) (dst : R)
  | xor (src dst : R)
  | test32 (r : R)
  | imm32 (value : Nat) (dst : R)
  | mov32 (src dst : R)
  | cmove32 (src dst : R)
  | inc (dst : R)
  /-- A jump over the next instruction, unless the last result was zero. -/
  | jnzOver
  | jmp (r : R)
  | ret (sp : R)

variable {w : Nat} {R : Type} [DecidableEq R]

def Cpu.set (c : Cpu w R) (r : R) (x : BitVec w) : Cpu w R := { c with regs := Function.update c.regs r x }

def low32 (x : BitVec w) : BitVec 32 := x.setWidth 32

def Cpu.at (c : Cpu w R) (disp : Nat) (base : R) : BitVec w := c.regs base + BitVec.ofNat w disp

def exec : List (Instr R) → Cpu w R → Option (Cpu w R)
  | [], _ => none
  | .store src disp base :: rest, c => exec rest { c with mem := ByteMemory.store c.mem (c.at disp base) (c.regs src) }
  | .load disp base dst :: rest, c => exec rest (c.set dst (ByteMemory.load c.mem (c.at disp base)))
  | .lea disp base dst :: rest, c => exec rest (c.set dst (c.at disp base))
  | .xor src dst :: rest, c =>
    let x := c.regs src ^^^ c.regs dst
    exec rest { c.set dst x with zf := x = 0 }
  | .test32 r :: rest, c => exec rest { c with zf := low32 (c.regs r) = 0 }
  | .imm32 value dst :: rest, c => exec rest (c.set dst ((BitVec.ofNat 32 value).setWidth w))
  | .mov32 src dst :: rest, c => exec rest (c.set dst ((low32 (c.regs src)).setWidth w))
  | .cmove32 src dst :: rest, c => exec rest (c.set dst ((low32 (c.regs (if c.zf then src else dst))).setWidth w))
  | .inc dst :: rest, c => exec rest { c.set dst (c.regs dst + 1) with zf := c.regs dst + 1 = 0 }
  | .jnzOver :: next :: rest, c => if c.zf then exec (next :: rest) c else exec rest c
  | [.jnzOver], _ => none
  | .jmp r :: _, c => some { c with pc := c.regs r }
  | .ret sp :: _, c => some { c.set sp (c.regs sp + BitVec.ofNat w (w / 8)) with pc := ByteMemory.load c.mem (c.regs sp) }

@[simp] theorem Cpu.set_self (c : Cpu w R) (r : R) (x : BitVec w) : (c.set r x).regs r = x := by
  simp [Cpu.set]

@[simp] theorem Cpu.set_other (c : Cpu w R) {r s : R} (x : BitVec w) (other : s ≠ r) : (c.set r x).regs s = c.regs s := by
  simp [Cpu.set, other]

@[simp] theorem Cpu.set_mem (c : Cpu w R) (r : R) (x : BitVec w) : (c.set r x).mem = c.mem := rfl

/- Blocks of moves with one base register. -/

def storeBlock (base : R) (l : List (R × Nat)) : List (Instr R) := l.map fun p => .store p.1 p.2 base

theorem exec_storeBlock (base : R) (l : List (R × Nat)) (rest : List (Instr R)) (c : Cpu w R) :
    exec (storeBlock base l ++ rest) c =
      exec rest { c with mem := storeAll c.mem (l.map fun p => (c.at p.2 base, c.regs p.1)) } := by
  induction l generalizing c with
  | nil => rfl
  | cons p l ih => exact ih _

def loadBlock (base : R) (l : List (Nat × R)) : List (Instr R) := l.map fun p => .load p.1 base p.2

def loaded (m : Mem w) (a : BitVec w) (l : List (Nat × R)) (regs : R → BitVec w) : R → BitVec w :=
  l.foldl (fun regs p => Function.update regs p.2 (load m (a + BitVec.ofNat w p.1))) regs

theorem exec_loadBlock {base : R} {l : List (Nat × R)} (away : ∀ p ∈ l.dropLast, p.2 ≠ base) (rest : List (Instr R))
    (c : Cpu w R) : exec (loadBlock base l ++ rest) c = exec rest { c with regs := loaded c.mem (c.regs base) l c.regs } := by
  induction l generalizing c with
  | nil => rfl
  | cons p l ih =>
    cases l with
    | nil => rfl
    | cons q l =>
      have first : p.2 ≠ base := away p (by simp)
      have later := ih (fun r member => away r (by simp [member])) (c.set p.2 (load c.mem (c.at p.1 base)))
      have same : (c.set p.2 (load c.mem (c.at p.1 base))).regs base = c.regs base := c.set_other _ first.symm
      rw [same] at later
      exact later

end X86
