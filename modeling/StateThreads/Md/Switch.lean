import StateThreads.Lib.X86

/-! The two functions of md.S that save and restore a context, for i386 and amd64. -/
namespace StateThreads.Md
open ByteMemory X86

/-- What a caller finds after a return: the registers that a function keeps, the stack
pointer and the place of the next instruction. -/
structure Frame (w : Nat) where
  callee : List (BitVec w)
  sp : BitVec w
  pc : BitVec w
deriving DecidableEq

structure Code (w : Nat) (R : Type) where
  callee : List R
  sp : R
  ret : R
  slot : R → Nat
  spSlot : Nat
  pcSlot : Nat
  size : Nat
  save : List (Instr R)
  restore : List (Instr R)
  savesTo : Cpu w R → BitVec w
  restoresFrom : Cpu w R → BitVec w
  restoresWith : Cpu w R → BitVec 32

variable {w : Nat} {R : Type}

def Code.entry (A : Code w R) (c : Cpu w R) : Frame w :=
  ⟨A.callee.map c.regs, c.regs A.sp + BitVec.ofNat w (w / 8), load c.mem (c.regs A.sp)⟩

def Code.seen (A : Code w R) (c : Cpu w R) : Frame w := ⟨A.callee.map c.regs, c.regs A.sp, c.pc⟩

def Code.held (A : Code w R) (m : Mem w) (env : BitVec w) : Frame w :=
  ⟨A.callee.map fun r => load m (env + BitVec.ofNat w (A.slot r)), load m (env + BitVec.ofNat w A.spSlot),
    load m (env + BitVec.ofNat w A.pcSlot)⟩

/- amd64. -/

inductive Amd64 where
  | rax | rbx | rcx | rdx | rsi | rdi | rbp | rsp | r8 | r9 | r10 | r11 | r12 | r13 | r14 | r15
deriving DecidableEq, Repr

namespace Amd64

/- The layout of __jmp_buf. -/
def jbRbx : Nat := 0
def jbRbp : Nat := 1
def jbR12 : Nat := 2
def jbR13 : Nat := 3
def jbR14 : Nat := 4
def jbR15 : Nat := 5
def jbRsp : Nat := 6
def jbPc : Nat := 7

/-- _st_md_cxt_save(__jmp_buf env) -/
def stMdCxtSave : List (Instr Amd64) :=
  [.store rbx (jbRbx * 8) rdi, .store rbp (jbRbp * 8) rdi, .store r12 (jbR12 * 8) rdi, .store r13 (jbR13 * 8) rdi,
    .store r14 (jbR14 * 8) rdi, .store r15 (jbR15 * 8) rdi, .lea 8 rsp rdx, .store rdx (jbRsp * 8) rdi,
    .load 0 rsp rax, .store rax (jbPc * 8) rdi, .xor rax rax, .ret rsp]

/-- _st_md_cxt_restore(__jmp_buf env, int val) -/
def stMdCxtRestore : List (Instr Amd64) :=
  [.load (jbRbx * 8) rdi rbx, .load (jbRbp * 8) rdi rbp, .load (jbR12 * 8) rdi r12, .load (jbR13 * 8) rdi r13,
    .load (jbR14 * 8) rdi r14, .load (jbR15 * 8) rdi r15, .test32 rsi, .imm32 1 rax, .cmove32 rax rsi,
    .mov32 rsi rax, .load (jbPc * 8) rdi rdx, .load (jbRsp * 8) rdi rsp, .jmp rdx]

def slot : Amd64 → Nat
  | rbx => jbRbx * 8
  | rbp => jbRbp * 8
  | r12 => jbR12 * 8
  | r13 => jbR13 * 8
  | r14 => jbR14 * 8
  | r15 => jbR15 * 8
  | _ => 0

/-- The arguments are in rdi and esi. -/
def code : Code 64 Amd64 where
  callee := [rbx, rbp, r12, r13, r14, r15]
  sp := rsp
  ret := rax
  slot := slot
  spSlot := jbRsp * 8
  pcSlot := jbPc * 8
  size := 64
  save := stMdCxtSave
  restore := stMdCxtRestore
  savesTo c := c.regs rdi
  restoresFrom c := c.regs rdi
  restoresWith c := low32 (c.regs rsi)

end Amd64

/- i386. -/

inductive I386 where
  | eax | ebx | ecx | edx | esi | edi | ebp | esp
deriving DecidableEq, Repr

namespace I386

def jbBx : Nat := 0
def jbSi : Nat := 1
def jbDi : Nat := 2
def jbBp : Nat := 3
def jbSp : Nat := 4
def jbPc : Nat := 5

def stMdCxtSave : List (Instr I386) :=
  [.load 4 esp eax, .store ebx (jbBx * 4) eax, .store esi (jbSi * 4) eax, .store edi (jbDi * 4) eax, .lea 4 esp ecx,
    .store ecx (jbSp * 4) eax, .load 0 esp ecx, .store ecx (jbPc * 4) eax, .store ebp (jbBp * 4) eax, .xor eax eax,
    .ret esp]

def stMdCxtRestore : List (Instr I386) :=
  [.load 4 esp ecx, .load 8 esp eax, .load (jbPc * 4) ecx edx, .load (jbBx * 4) ecx ebx, .load (jbSi * 4) ecx esi,
    .load (jbDi * 4) ecx edi, .load (jbBp * 4) ecx ebp, .load (jbSp * 4) ecx esp, .test32 eax, .jnzOver, .inc eax,
    .jmp edx]

def slot : I386 → Nat
  | ebx => jbBx * 4
  | esi => jbSi * 4
  | edi => jbDi * 4
  | ebp => jbBp * 4
  | _ => 0

/-- The arguments are on the stack, above the return address. -/
def code : Code 32 I386 where
  callee := [ebx, esi, edi, ebp]
  sp := esp
  ret := eax
  slot := slot
  spSlot := jbSp * 4
  pcSlot := jbPc * 4
  size := 24
  save := stMdCxtSave
  restore := stMdCxtRestore
  savesTo c := load c.mem (c.at 4 esp)
  restoresFrom c := load c.mem (c.at 4 esp)
  restoresWith c := load c.mem (c.at 8 esp)

end I386

/- What the rest of the library relies on. -/

/-- Returns once from save with 0, and again from each restore with another value. -/
structure Code.Correct [DecidableEq R] (A : Code w R) : Prop where
  buffer : ∀ m m' env, SameBytes env A.size m m' → A.held m' env = A.held m env
  save : ∀ c, Apart (A.savesTo c) A.size (c.regs A.sp) (w / 8) → ∃ c', exec A.save c = some c' ∧
    A.seen c' = A.entry c ∧ c'.regs A.ret = 0 ∧ A.held c'.mem (A.savesTo c) = A.entry c ∧
    ∀ b k, Apart (A.savesTo c) A.size b k → SameBytes b k c.mem c'.mem
  restore : ∀ c, ∃ c', exec A.restore c = some c' ∧ A.seen c' = A.held c.mem (A.restoresFrom c) ∧
    c'.regs A.ret = (if A.restoresWith c = 0 then 1 else A.restoresWith c).setWidth w ∧ c'.mem = c.mem
  setSp : ∀ m env x, A.held (store m (env + BitVec.ofNat w A.spSlot) x) env = { A.held m env with sp := x } ∧
    ∀ b k, Apart env A.size b k → SameBytes b k m (store m (env + BitVec.ofNat w A.spSlot) x)

end StateThreads.Md
