import StateThreads.Md.Switch

/-! The assembler code saves and restores a frame, on both machines. -/
namespace StateThreads.Md
open ByteMemory X86

variable {w : Nat} {R : Type}

def Code.slots (A : Code w R) : List Nat := A.callee.map A.slot ++ [A.spSlot, A.pcSlot]

structure Code.LaidOut (A : Code w R) : Prop where
  whole : w % 8 = 0
  some_ : 0 < w / 8
  inside : ∀ i ∈ A.slots, i + w / 8 ≤ A.size
  apart : A.slots.Pairwise fun i j => i + w / 8 ≤ j ∨ j + w / 8 ≤ i
  fits : A.size ≤ 2 ^ w

theorem Code.spSlot_mem (A : Code w R) : A.spSlot ∈ A.slots := by simp [Code.slots]

theorem Code.pcSlot_mem (A : Code w R) : A.pcSlot ∈ A.slots := by simp [Code.slots]

theorem Code.slot_mem (A : Code w R) {r : R} (member : r ∈ A.callee) : A.slot r ∈ A.slots :=
  List.mem_append_left _ (List.mem_map_of_mem member)

section
variable {A : Code w R} (laid : A.LaidOut)
include laid

theorem Code.LaidOut.load_slot {m m' : Mem w} {env : BitVec w} (same : SameBytes env A.size m m') {i : Nat}
    (member : i ∈ A.slots) : load m' (env + BitVec.ofNat w i) = load m (env + BitVec.ofNat w i) := by
  apply load_congr laid.whole
  intro b inside
  apply same
  have room := laid.inside i member
  have fits := laid.fits
  -- the byte is i and less than a word past the start of the buffer
  unfold Within at inside ⊢
  have small : (BitVec.ofNat w i).toNat = i := by
    rw [BitVec.toNat_ofNat, Nat.mod_eq_of_lt (by have := laid.some_; omega)]
  have path : b - env = (b - (env + BitVec.ofNat w i)) + BitVec.ofNat w i := by grind
  rw [path, BitVec.toNat_add, small]
  exact Nat.lt_of_le_of_lt (Nat.mod_le _ _) (by omega)

theorem Code.LaidOut.buffer {m m' : Mem w} {env : BitVec w} (same : SameBytes env A.size m m') :
    A.held m' env = A.held m env := by
  unfold Code.held
  rw [laid.load_slot same A.spSlot_mem, laid.load_slot same A.pcSlot_mem]
  congr 1
  apply List.map_congr_left
  intro r member
  exact laid.load_slot same (A.slot_mem member)

theorem Code.LaidOut.load_store {m : Mem w} {env x : BitVec w} {i j : Nat} (hi : i ∈ A.slots) (hj : j ∈ A.slots)
    (other : i + w / 8 ≤ j ∨ j + w / 8 ≤ i) :
    load (store m (env + BitVec.ofNat w i) x) (env + BitVec.ofNat w j) = load m (env + BitVec.ofNat w j) := by
  have fits := laid.fits
  have first := laid.inside i hi
  have second := laid.inside j hj
  apply load_store_apart laid.whole
  obtain below | above := other
  · exact offset_apart env below (by omega) laid.some_ laid.some_
  · exact (offset_apart env above (by omega) laid.some_ laid.some_).symm

theorem Code.LaidOut.setSp (m : Mem w) (env x : BitVec w) :
    A.held (store m (env + BitVec.ofNat w A.spSlot) x) env = { A.held m env with sp := x } ∧
      ∀ b k, Apart env A.size b k → SameBytes b k m (store m (env + BitVec.ofNat w A.spSlot) x) := by
  have order := laid.apart
  rw [Code.slots, List.pairwise_append] at order
  obtain ⟨-, last, before⟩ := order
  constructor
  · unfold Code.held
    rw [load_store_same laid.whole]
    have pc : load (store m (env + BitVec.ofNat w A.spSlot) x) (env + BitVec.ofNat w A.pcSlot) =
        load m (env + BitVec.ofNat w A.pcSlot) := by
      apply laid.load_store A.spSlot_mem A.pcSlot_mem
      simpa using last
    rw [pc]
    congr 1
    apply List.map_congr_left
    intro r member
    apply laid.load_store A.spSlot_mem (A.slot_mem member)
    exact (before _ (List.mem_map_of_mem member) A.spSlot (by simp)).symm
  · intro b k apart
    exact store_apart x (apart.part (laid.inside _ A.spSlot_mem) laid.some_)

def filled (env : BitVec w) (l : List (Nat × BitVec w)) : List (BitVec w × BitVec w) :=
  l.map fun p => (env + BitVec.ofNat w p.1, p.2)

theorem Code.LaidOut.filled_apart {env b : BitVec w} {k : Nat} {l : List (Nat × BitVec w)}
    (places : ∀ p ∈ l, p.1 ∈ A.slots) (apart : Apart env A.size b k) (m : Mem w) :
    SameBytes b k m (storeAll m (filled env l)) := by
  apply storeAll_apart
  intro q member
  obtain ⟨p, there, rfl⟩ := List.mem_map.mp member
  exact apart.part (laid.inside _ (places p there)) laid.some_

theorem Code.LaidOut.held_filled {m : Mem w} {env : BitVec w} {l : List (Nat × BitVec w)} {regs : R → BitVec w}
    {sp pc : BitVec w} (places : (l.map Prod.fst).Perm A.slots) (values : ∀ r ∈ A.callee, (A.slot r, regs r) ∈ l)
    (spValue : (A.spSlot, sp) ∈ l) (pcValue : (A.pcSlot, pc) ∈ l) :
    A.held (storeAll m (filled env l)) env = ⟨A.callee.map regs, sp, pc⟩ := by
  have gaps : (l.map Prod.fst).Pairwise fun i j => i + w / 8 ≤ j ∨ j + w / 8 ≤ i :=
    (places.pairwise_iff (fun h => h.symm)).mpr laid.apart
  have fits : ∀ p ∈ l, p.1 + w / 8 ≤ 2 ^ w := by
    intro p member
    exact Nat.le_trans (laid.inside p.1 (places.mem_iff.mp (List.mem_map_of_mem member))) laid.fits
  have distinct := offsets_apart env laid.some_ gaps fits
  have word : ∀ {i : Nat} {x : BitVec w}, (i, x) ∈ l → load (storeAll m (filled env l)) (env + BitVec.ofNat w i) = x := by
    intro i x member
    have there : (env + BitVec.ofNat w i, x) ∈ filled env l := List.mem_map.mpr ⟨(i, x), member, rfl⟩
    have stored := load_storeAll laid.whole (m := m) distinct there
    exact stored
  unfold Code.held
  rw [word spValue, word pcValue]
  congr 1
  apply List.map_congr_left
  intro r member
  exact word (values r member)

end

namespace Amd64

theorem laidOut : code.LaidOut := by
  constructor <;> decide

def words (c : Cpu 64 Amd64) : List (Nat × BitVec 64) :=
  [(0, c.regs rbx), (8, c.regs rbp), (16, c.regs r12), (24, c.regs r13), (32, c.regs r14), (40, c.regs r15)]

theorem saveTail_exec (c : Cpu 64 Amd64) (m m₁ m₂ : Mem 64) (first : m₁ = store m (c.at 48 rdi) (c.at 8 rsp))
    (second : m₂ = store m₁ (c.at 56 rdi) (load m₁ (c.regs rsp))) :
    exec [.lea 8 rsp rdx, .store rdx 48 rdi, .load 0 rsp rax, .store rax 56 rdi, .xor rax rax, .ret rsp] { c with mem := m } =
      some { regs := Function.update (Function.update (Function.update c.regs rdx (c.at 8 rsp)) rax 0) rsp (c.at 8 rsp)
             mem := m₂, zf := true, pc := load m₂ (c.regs rsp) } := by
  subst first second
  simp [exec, Cpu.set, Cpu.at]

theorem save_exec (c : Cpu 64 Amd64) (clear : Apart (c.regs rdi) 64 (c.regs rsp) 8) :
    exec code.save c = some
      { regs := Function.update (Function.update (Function.update c.regs rdx (c.at 8 rsp)) rax 0) rsp (c.at 8 rsp)
        mem := storeAll c.mem (filled (c.regs rdi) (words c ++ [(48, c.at 8 rsp), (56, load c.mem (c.regs rsp))]))
        zf := true, pc := load c.mem (c.regs rsp) } := by
  have block : code.save = storeBlock rdi [(rbx, 0), (rbp, 8), (r12, 16), (r13, 24), (r14, 32), (r15, 40)] ++
    [.lea 8 rsp rdx, .store rdx 48 rdi, .load 0 rsp rax, .store rax 56 rdi, .xor rax rax, .ret rsp] := rfl
  have kept : ∀ l : List (Nat × BitVec 64), (∀ p ∈ l, p.1 ∈ code.slots) →
      load (storeAll c.mem (filled (c.regs rdi) l)) (c.regs rsp) = load c.mem (c.regs rsp) := by
    intro l places
    exact load_congr laidOut.whole (laidOut.filled_apart places clear c.mem)
  have seven := kept (words c ++ [(48, c.at 8 rsp)]) (by simp [words]; decide)
  have eight := kept (words c ++ [(48, c.at 8 rsp), (56, load c.mem (c.regs rsp))]) (by simp [words]; decide)
  rw [block, exec_storeBlock, saveTail_exec c _ (storeAll c.mem (filled (c.regs rdi) (words c ++ [(48, c.at 8 rsp)])))
    (storeAll c.mem (filled (c.regs rdi) (words c ++ [(48, c.at 8 rsp), (56, load c.mem (c.regs rsp))]))) rfl
    (by rw [seven]; rfl), eight]

theorem restoreTail_exec (c : Cpu 64 Amd64) : ∃ c', exec [.test32 rsi, .imm32 1 rax, .cmove32 rax rsi, .mov32 rsi rax,
      .load 56 rdi rdx, .load 48 rdi rsp, .jmp rdx] c = some c' ∧
    c'.regs rax = (if low32 (c.regs rsi) = 0 then 1 else low32 (c.regs rsi)).setWidth 64 ∧
    c'.regs rsp = load c.mem (c.at 48 rdi) ∧ c'.pc = load c.mem (c.at 56 rdi) ∧ c'.mem = c.mem ∧
    ∀ r ∈ code.callee, c'.regs r = c.regs r := by
  refine ⟨_, rfl, ?_, ?_, ?_, rfl, ?_⟩
  · by_cases zero : (c.regs rsi).setWidth 32 = 0#32
    · simp [zero, Cpu.set, low32]
    · simp [zero, Cpu.set, low32]
  · simp [Cpu.set, Cpu.at]
  · simp [Cpu.set, Cpu.at]
  · simp [code, Cpu.set]

def block : List (Nat × Amd64) := [(0, rbx), (8, rbp), (16, r12), (24, r13), (32, r14), (40, r15)]

theorem correct : code.Correct where
  buffer m m' env same := laidOut.buffer same
  save c clear := by
    refine ⟨_, save_exec c clear, ?_, ?_, ?_, ?_⟩
    · simp [Code.seen, Code.entry, code, Cpu.at]
    · simp [code]
    · apply laidOut.held_filled
      · exact List.Perm.refl _
      · simp [code, words, slot, jbRbx, jbRbp, jbR12, jbR13, jbR14, jbR15]
      · simp [words, code, jbRsp, Cpu.at]
      · simp [words, code, jbPc]
    · intro b k apart
      exact laidOut.filled_apart (by simp [words]; decide) apart c.mem
  restore c := by
    have split : code.restore = loadBlock rdi block ++ [.test32 rsi, .imm32 1 rax, .cmove32 rax rsi, .mov32 rsi rax,
      .load 56 rdi rdx, .load 48 rdi rsp, .jmp rdx] := rfl
    obtain ⟨c', run, ret, sp, pc, mem, callee⟩ := restoreTail_exec { c with regs := loaded c.mem (c.regs rdi) block c.regs }
    refine ⟨c', ?_, ?_, ret, mem⟩
    · rw [split, exec_loadBlock (by decide), run]
    · unfold Code.seen Code.held
      rw [List.map_congr_left callee, pc, show c'.regs code.sp = _ from sp]
      simp [code, Cpu.at, loaded, block, slot, jbRbx, jbRbp, jbR12, jbR13, jbR14, jbR15, jbRsp, jbPc]
  setSp := laidOut.setSp

end Amd64

namespace I386

theorem laidOut : code.LaidOut := by
  constructor <;> decide

def words (c : Cpu 32 I386) : List (Nat × BitVec 32) := [(0, c.regs ebx), (4, c.regs esi), (8, c.regs edi)]

theorem saveTail_exec (c : Cpu 32 I386) (env : BitVec 32) (m m₁ m₂ : Mem 32)
    (first : m₁ = store m (env + BitVec.ofNat 32 16) (c.at 4 esp))
    (second : m₂ = store (store m₁ (env + BitVec.ofNat 32 20) (load m₁ (c.regs esp))) (env + BitVec.ofNat 32 12)
      (c.regs ebp)) :
    ∃ c', exec [.lea 4 esp ecx, .store ecx 16 eax, .load 0 esp ecx, .store ecx 20 eax, .store ebp 12 eax, .xor eax eax,
        .ret esp] { c.set eax env with mem := m } = some c' ∧ c'.regs eax = 0 ∧ c'.regs esp = c.at 4 esp ∧
      c'.pc = load m₂ (c.regs esp) ∧ c'.mem = m₂ ∧ ∀ r ∈ code.callee, c'.regs r = c.regs r := by
  subst first second
  refine ⟨_, rfl, ?_, ?_, ?_, ?_, ?_⟩ <;> simp [Cpu.set, Cpu.at, code]

def block : List (Nat × I386) := [(20, edx), (0, ebx), (4, esi), (8, edi), (12, ebp), (16, esp)]

theorem restoreTail_exec (c : Cpu 32 I386) : ∃ c', exec [.test32 eax, .jnzOver, .inc eax, .jmp edx] c = some c' ∧
    c'.regs eax = (if c.regs eax = 0 then 1 else c.regs eax) ∧ c'.pc = c.regs edx ∧ c'.mem = c.mem ∧
    ∀ r, r ≠ eax → c'.regs r = c.regs r := by
  by_cases zero : c.regs eax = 0#32
  · refine ⟨{ c.set eax (c.regs eax + 1) with zf := c.regs eax + 1 = 0, pc := c.regs edx }, ?_, ?_, ?_, ?_, ?_⟩
    · simp [exec, low32, zero, Cpu.set]
    · simp [zero]
    · rfl
    · rfl
    · intro r other
      exact c.set_other _ other
  · refine ⟨{ c with zf := false, pc := c.regs edx }, ?_, ?_, rfl, rfl, fun _ _ => rfl⟩
    · simp [exec, low32, zero]
    · simp [zero]

theorem correct : code.Correct where
  buffer m m' env same := laidOut.buffer same
  save c clear := by
    have split : code.save = .load 4 esp eax :: (storeBlock eax [(ebx, 0), (esi, 4), (edi, 8)] ++ [.lea 4 esp ecx,
      .store ecx 16 eax, .load 0 esp ecx, .store ecx 20 eax, .store ebp 12 eax, .xor eax eax, .ret esp]) := rfl
    have kept : ∀ l : List (Nat × BitVec 32), (∀ p ∈ l, p.1 ∈ code.slots) →
        load (storeAll c.mem (filled (code.savesTo c) l)) (c.regs esp) = load c.mem (c.regs esp) := by
      intro l places
      exact load_congr laidOut.whole (laidOut.filled_apart places clear c.mem)
    have four := kept (words c ++ [(16, c.at 4 esp)]) (by simp [words]; decide)
    have six := kept (words c ++ [(16, c.at 4 esp), (20, load c.mem (c.regs esp)), (12, c.regs ebp)])
      (by simp [words]; decide)
    obtain ⟨c', run, ret, sp, pc, mem, callee⟩ := saveTail_exec c (code.savesTo c)
      (storeAll c.mem (filled (code.savesTo c) (words c)))
      (storeAll c.mem (filled (code.savesTo c) (words c ++ [(16, c.at 4 esp)])))
      (storeAll c.mem (filled (code.savesTo c)
        (words c ++ [(16, c.at 4 esp), (20, load c.mem (c.regs esp)), (12, c.regs ebp)]))) rfl (by rw [four]; rfl)
    refine ⟨c', ?_, ?_, ret, ?_, ?_⟩
    · rw [split, exec, exec_storeBlock]
      exact run
    · unfold Code.seen Code.entry
      rw [List.map_congr_left callee, show c'.regs code.sp = _ from sp, pc, six]
      rfl
    · rw [mem]
      apply laidOut.held_filled
      · have places : [0, 4, 8, 16, 20, 12].Perm code.slots := by decide
        exact places
      · simp [code, words, slot, jbBx, jbSi, jbDi, jbBp]
      · simp [words, code, jbSp, Cpu.at]
      · simp [words, code, jbPc]
    · intro b k apart
      rw [mem]
      exact laidOut.filled_apart (by simp [words]; decide) apart c.mem
  restore c := by
    have split : code.restore = .load 4 esp ecx :: .load 8 esp eax ::
      (loadBlock ecx block ++ [.test32 eax, .jnzOver, .inc eax, .jmp edx]) := rfl
    obtain ⟨c', run, ret, pc, mem, others⟩ := restoreTail_exec { c with
      regs := loaded c.mem (code.restoresFrom c) block
        ((c.set ecx (code.restoresFrom c)).set eax (load c.mem (c.at 8 esp))).regs }
    refine ⟨c', ?_, ?_, ?_, mem⟩
    · rw [split, exec, exec, exec_loadBlock (by decide)]
      exact run
    · have regs : ∀ r ∈ code.callee, c'.regs r = load c.mem (code.restoresFrom c + BitVec.ofNat 32 (code.slot r)) := by
        intro r member
        have other : r ≠ eax := by
          rintro rfl
          revert member
          decide
        rw [others r other]
        simp only [code, List.mem_cons, List.not_mem_nil, or_false] at member
        obtain rfl | rfl | rfl | rfl := member <;> rfl
      unfold Code.seen Code.held
      rw [List.map_congr_left regs, pc, show c'.regs code.sp = _ from others esp (by decide)]
      rfl
    · rw [show c'.regs code.ret = _ from ret]
      have val : code.restoresWith c = load c.mem (c.at 8 esp) := rfl
      rw [val, BitVec.setWidth_eq]
      rfl
  setSp := laidOut.setSp

end I386

end StateThreads.Md
