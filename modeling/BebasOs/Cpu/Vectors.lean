/-
Every interrupt as a process sees it: the end of the handler of `intsetup.s` gives the registers back from the frame.
Only `main_interrupt_handler` itself is left open: it returns with the stack as it was.
-/
import BebasOs.Cpu.Preemption

namespace BebasOs.Cpu

open X86 BebasOs.Process

variable {p : Processor} {r : Registers} {s t : State} {stack : List UInt32}
  {esp0 number code savedEsp : UInt32} {v : ℕ} {error : Option UInt32}

/-! ## The return -/

/-- From the return of `main_interrupt_handler` on. -/
def fromMain (p : Processor) (s : State) : Option Registers := do
  let s ← s.popad
  let s ← s.popSeg p.gdt .gs
  let s ← s.popSeg p.gdt .fs
  let s ← s.popSeg p.gdt .es
  let s ← s.popSeg p.gdt .ds
  let s ← s.dropDwords 2
  iret p s

/-- What a call of C code that returns leaves: the stack with the frame, and the segments of the kernel. All other
registers may have changed. -/
structure Returned (s t : State) : Prop where
  stack : t.stack = s.stack
  esp : t.esp = s.esp
  cs : t.cs = s.cs
  ss : t.ss = s.ss

/-- The registers that the process has after the return: its own, but for null selectors. -/
def givenBack (gdt : List Descriptor) (r : Registers) : Registers :=
  { r with
    es := visible gdt 3 r.es
    ds := visible gdt 3 r.ds
    fs := visible gdt 3 r.fs
    gs := visible gdt 3 r.gs }

/-- The return to a process: its registers come from the frame, whatever the C code has left in them. -/
theorem Framed.fromMain {upper : SReg → UInt16} {r : UserRegisters}
    (h : Framed (processor upper) r.toRegisters savedEsp number code stack s) :
    fromMain (processor upper) s = some (givenBack globalDescriptorTable r.toRegisters) := by
  have hkernel : rpl gdtKernelCodeSegmentSelector = 0 := by decide
  have hload (selector : UInt16) (hm : selector ∈ [r.es, r.ds, r.fs, r.gs]) :
      loadable (processor upper).gdt 0 selector = true := loadable_mono (Nat.zero_le 3) (r.data selector hm)
  have hes := hload r.es (by simp)
  have hds := hload r.ds (by simp)
  have hfs := hload r.fs (by simp)
  have hgs := hload r.gs (by simp)
  have hiret : ¬(r.eflags.toNat.testBit 17 = true ∨ rpl r.cs ≤ 0 ∨
      ¬ returnable (processor upper).gdt r.cs r.ss = true) := by
    rw [r.protectedMode, r.ring, show returnable (processor upper).gdt r.cs r.ss = true from r.code]
    decide
  unfold BebasOs.Cpu.fromMain State.popad State.popSeg State.pop State.loadSeg State.setSeg State.dropDwords
  simp only [h.stack, frameDwords, List.cons_append, List.nil_append, Option.bind_eq_bind, Option.bind_some,
    toUInt16_extend, h.cs, hkernel, hes, hds, hfs, hgs, if_true]
  rw [if_pos (by simp), Option.bind_some]
  unfold iret
  simp only [List.drop_succ_cons, List.drop_zero, toUInt16_extend, hkernel]
  rw [if_neg hiret, r.ring]
  rfl

/-! ## Interrupts as a process sees them -/

/-- Every interrupt of a process, with an error code exactly on the vectors whose stub expects one, comes to
`main_interrupt_handler` with the number, the code and the registers in its frame, apart from `esp` where the RPL of
`ds` is 0. When that returns, whatever it has done to the registers, the process has its own again, unless one of its
data segments was null by a selector other than 0. -/
theorem interrupt_returns (upper : SReg → UInt16) (r : UserRegisters) (esp0 : UInt32) (stack : List UInt32)
    (h : error.isSome ↔ v ∈ errorCodeVectors) :
    ∃ s, vectorHandler (processor upper) v (interruptWith (processor upper) gdtKernelCodeSegmentSelector
        gdtKernelDataSegmentSelector esp0 stack r.toRegisters error) = some s ∧
      frameOf s = some (vectorFrame (processor upper) r.toRegisters esp0 v (error.getD 0)) ∧
      ∀ t, Returned s t → ∃ r', fromMain (processor upper) t = some r' ∧
        (r' = r.toRegisters ↔ ∀ selector ∈ [r.es, r.ds, r.fs, r.gs], isNull selector = true → selector = 0) := by
  have hl : loadable globalDescriptorTable 0 gdtKernelDataSegmentSelector = true := by decide
  obtain ⟨s, hs, hf⟩ := vectorHandler_spec (p := processor upper) hl esp0 stack r.toRegisters h
  refine ⟨s, hs, frameOf_framed hf, fun t ht => ?_⟩
  have hft : Framed (processor upper) r.toRegisters (frameEsp r.toRegisters esp0) (UInt32.ofNat v)
      (error.getD 0) stack t :=
    ⟨ht.stack.trans hf.stack, ht.cs.trans hf.cs, ht.ss.trans hf.ss⟩
  refine ⟨_, hft.fromMain, ?_⟩
  have hes := visible_eq_iff (r.data r.es (by simp))
  have hds := visible_eq_iff (r.data r.ds (by simp))
  have hfs := visible_eq_iff (r.data r.fs (by simp))
  have hgs := visible_eq_iff (r.data r.gs (by simp))
  unfold givenBack
  rw [Registers.ext_iff]
  simp only [hes, hds, hfs, hgs, true_and, and_true, List.forall_mem_cons, List.not_mem_nil,
    false_implies, implies_true]

/-- A page fault, whose error code says that a process has read a page that is not there. -/
theorem interrupt_returns_pageFault :
    ∃ s, vectorHandler zeroProcessor 14 (interruptWith zeroProcessor gdtKernelCodeSegmentSelector
        gdtKernelDataSegmentSelector 0xC0400000 [] userData.toRegisters (some 4)) = some s ∧
      frameOf s = some (vectorFrame zeroProcessor userData.toRegisters 0xC0400000 14 4) ∧
      ∀ t, Returned s t → ∃ r', fromMain zeroProcessor t = some r' ∧ (r' = userData.toRegisters ↔
        ∀ selector ∈ [userData.es, userData.ds, userData.fs, userData.gs], isNull selector = true → selector = 0) :=
  interrupt_returns (fun _ => 0) userData 0xC0400000 []
    (show (some 4 : Option UInt32).isSome ↔ 14 ∈ errorCodeVectors by decide)

end BebasOs.Cpu
