/-
The handler of `intsetup.s` up to the call of `main_interrupt_handler`, for all the vectors: the stubs in front of it,
what it pushes, and the frame that the C code gets.
-/
import BebasOs.Lib.Return
import BebasOs.Cpu.Interrupt

namespace BebasOs.Cpu

open X86 BebasOs.Process

/-! ## Stubs -/

def noErrorCodeInterruptHandler (vector : ℕ) : List Instr := [.pushImm 0, .pushImm (UInt32.ofNat vector)]

def errorCodeInterruptHandler (vector : ℕ) : List Instr := [.pushImm (UInt32.ofNat vector)]

/-- The vectors whose stub expects an error code. -/
def errorCodeVectors : List ℕ := [8, 10, 11, 12, 13, 14, 17, 30]

/-- The stub that the entry of `isr_stub_table` points to. -/
def isrStub (vector : ℕ) : List Instr :=
  if vector ∈ errorCodeVectors then errorCodeInterruptHandler vector else noErrorCodeInterruptHandler vector

/-- `call_generic_handler` up to the call of `main_interrupt_handler`. -/
def toMain (p : Processor) (s : State) : Option State := do
  let s ← run p callGenericHandler s
  let s ← if s.zero then some s else run p interprivilegeInterrupt s
  run p segmentRegisterSetup s

/-- The handler of a vector up to the call. -/
def vectorHandler (p : Processor) (vector : ℕ) (s : State) : Option State := (run p (isrStub vector) s).bind (toMain p)

/-- The handler of the timer is the one of vector 32. -/
theorem genericHandler_eq (p : Processor) (s : State) : genericHandler p s = vectorHandler p 32 s := rfl

variable {p : Processor} {r : Registers} {s t : State} {stack : List UInt32}
  {esp0 number code savedEsp : UInt32} {v : ℕ} {error : Option UInt32}

theorem nonnull_kernelData : isNull gdtKernelDataSegmentSelector = false := by decide

/-! ## The frame -/

/-- The dwords of a frame, with the `esp` and `ss` that the processor has pushed before. -/
def frameDwords (p : Processor) (r : Registers) (savedEsp number code : UInt32) : List UInt32 :=
  [r.edi, r.esi, r.ebp, savedEsp, r.ebx, r.edx, r.ecx, r.eax, p.extend .gs r.gs, p.extend .fs r.fs, p.extend .es r.es,
    p.extend .ds r.ds, number, code, r.eip, p.extend .cs r.cs, r.eflags, r.esp, p.extend .ss r.ss]

/-- The state at `call_generic_handler`: the registers of the process, but for those that the interrupt has set. -/
def atHandler (p : Processor) (esp0 : UInt32) (stack : List UInt32) (r : Registers) (number code : UInt32) : State where
  toRegisters := { r with
    esp := esp0 - 4 - 4 - 4 - 4 - 4 - 4 - 4
    cs := gdtKernelCodeSegmentSelector
    ss := gdtKernelDataSegmentSelector
    eflags := r.eflags &&& ~~~0x34300 }
  stack := (frameDwords p r 0 number code).drop 12 ++ stack

/-- The stub evens out whether there is an error code. -/
theorem run_isrStub (p : Processor) (esp0 : UInt32) (stack : List UInt32) (r : Registers)
    (h : error.isSome ↔ v ∈ errorCodeVectors) :
    run p (isrStub v) (interruptWith p gdtKernelCodeSegmentSelector gdtKernelDataSegmentSelector esp0 stack r error) =
      some (atHandler p esp0 stack r (UInt32.ofNat v) (error.getD 0)) := by
  cases error with
  | none =>
    rw [isrStub, if_neg (h.not.1 (by decide))]
    simp only [noErrorCodeInterruptHandler, run, exec, State.push, Option.bind_some, interruptWith, interrupt,
      atHandler, frameDwords, List.drop_succ_cons, List.drop_zero, List.cons_append, List.nil_append,
      Option.getD_none]
  | some e =>
    rw [isrStub, if_pos (h.1 rfl)]
    simp only [errorCodeInterruptHandler, run, exec, State.push, Option.bind_some, interruptWith, interrupt, atHandler,
      frameDwords, List.drop_succ_cons, List.drop_zero, List.cons_append, List.nil_append, Option.getD_some]

/-- The test of the handler: the dword of `ds`, whatever its upper half holds. -/
theorem and_extend_eq_zero (p : Processor) (r : SReg) (selector : UInt16) :
    p.extend r selector &&& 0x3 = 0 ↔ rpl selector = 0 := by
  have h1 := selector.toNat_lt
  have h2 := (p.upper r).toNat_lt
  have hand : (p.extend r selector &&& 0x3).toNat = selector.toNat % 4 := by
    rw [UInt32.toNat_and, Processor.extend, UInt32.toNat_ofNat']
    show _ &&& (2 ^ 2 - 1) = _
    rw [Nat.and_two_pow_sub_one_eq_mod]
    omega
  rw [← UInt32.toNat_inj, hand]
  rfl

/-- The pushes of the general registers, of the flags and of `eax` again. -/
def pushGeneral : List Instr := [.pushad, .pushf, .push .eax]

/-- The test of the saved `ds`. -/
def testSegment : List Instr := [.load .eax .esp 52, .and .eax 0x3]

/-- The state after the pushes of the general registers. -/
def generalPushed (s : State) : State :=
  { s with
    esp := s.esp - 4 - 4 - 4 - 4 - 4 - 4 - 4 - 4 - 4 - 4
    stack := s.eax :: (s.eflags &&& 0xFCFFFF) :: ([s.edi, s.esi, s.ebp, s.esp, s.ebx, s.edx, s.ecx, s.eax] ++ s.stack) }

theorem run_pushGeneral (p : Processor) (s : State) : run p pushGeneral s = some (generalPushed s) := by
  simp only [pushGeneral, generalPushed, run, exec, State.push, State.reg, Option.bind_some, List.cons_append,
    List.nil_append]

/-- The state between the pushes and the pops: a frame and two dwords before it. -/
structure Saved (p : Processor) (r : Registers) (savedEsp number code : UInt32) (stack : List UInt32) (s : State) :
    Prop where
  stack : ∃ a f, s.stack = a :: f :: (frameDwords p r savedEsp number code ++ stack)
  cs : s.cs = gdtKernelCodeSegmentSelector
  ss : s.ss = gdtKernelDataSegmentSelector

theorem Saved.nonnull_ss (h : Saved p r savedEsp number code stack s) : isNull s.ss = false := by
  rw [h.ss]
  exact nonnull_kernelData

theorem Saved.testSegment (h : Saved p r savedEsp number code stack s) :
    ∃ t, run p testSegment s = some t ∧ Saved p r savedEsp number code stack t ∧ t.zero = decide (rpl r.ds = 0) := by
  obtain ⟨a, f, hstack⟩ := h.stack
  have hload : s.load .esp 52 = some (p.extend .ds r.ds) := by
    refine (State.load_esp (n := 13) h.nonnull_ss (by decide)).trans ?_
    rw [hstack]
    rfl
  refine ⟨{ s with
    eax := p.extend .ds r.ds &&& 0x3
    eflags := logicFlags s.eflags (p.extend .ds r.ds &&& 0x3) }, ?_, ⟨⟨a, f, hstack⟩, h.cs, h.ss⟩, ?_⟩
  · unfold BebasOs.Cpu.testSegment
    rw [run_load hload]
    rfl
  · show (logicFlags _ _).toNat.testBit 6 = _
    rw [zero_logicFlags]
    exact decide_eq_decide.2 (and_extend_eq_zero p .ds r.ds)

theorem Saved.interprivilegeInterrupt (h : Saved p r savedEsp number code stack s) :
    ∃ t, run p interprivilegeInterrupt s = some t ∧ Saved p r r.esp number code stack t := by
  obtain ⟨a, f, hstack⟩ := h.stack
  have hload : s.load .esp 76 = some r.esp := by
    refine (State.load_esp (n := 19) h.nonnull_ss (by decide)).trans ?_
    rw [hstack]
    rfl
  have hlen : 5 < s.stack.length := by
    rw [hstack]
    simp [frameDwords]
  have hstore : (s.setReg r.esp .eax).storeAt .esp 20 r.esp =
      some { s.setReg r.esp .eax with stack := s.stack.set 5 r.esp } :=
    State.storeAt_esp (s := s.setReg r.esp .eax) (n := 5) h.nonnull_ss (by decide) hlen _
  refine ⟨{ s.setReg r.esp .eax with stack := s.stack.set 5 r.esp }, ?_, ⟨a, f, ?_⟩, h.cs, h.ss⟩
  · unfold BebasOs.Cpu.interprivilegeInterrupt
    rw [run_load hload, run]
    show ((s.setReg r.esp .eax).storeAt .esp 20 r.esp).bind _ = _
    rw [hstore]
    rfl
  · show s.stack.set 5 r.esp = _
    rw [hstack]
    rfl

/-- The state in which the C code is called. -/
structure Framed (p : Processor) (r : Registers) (savedEsp number code : UInt32) (stack : List UInt32) (s : State) :
    Prop where
  stack : s.stack = frameDwords p r savedEsp number code ++ stack
  cs : s.cs = gdtKernelCodeSegmentSelector
  ss : s.ss = gdtKernelDataSegmentSelector

theorem Saved.segmentRegisterSetup (hl : loadable p.gdt 0 gdtKernelDataSegmentSelector = true)
    (h : Saved p r savedEsp number code stack s) :
    ∃ t, run p segmentRegisterSetup s = some t ∧ Framed p r savedEsp number code stack t := by
  obtain ⟨a, f, hstack⟩ := h.stack
  have hax : (s.eax &&& 0xFFFF0000 ||| UInt16.toUInt32 0x10).toUInt16 = gdtKernelDataSegmentSelector := by
    rw [UInt32.toUInt16_or, UInt32.toUInt16_and, UInt16.toUInt16_toUInt32]
    show _ &&& 0 ||| _ = _
    rw [UInt16.and_zero, UInt16.zero_or]
    rfl
  have hcpl : rpl gdtKernelCodeSegmentSelector = 0 := by decide
  unfold BebasOs.Cpu.segmentRegisterSetup
  simp only [run, exec, State.loadSeg, State.setReg, State.setSeg, State.reg, State.pop, hax, h.cs, hcpl, hl, hstack,
    if_true, Option.bind_some, Option.map_some]
  exact ⟨_, rfl, ⟨rfl, rfl, h.ss⟩⟩

/-- The state after the pushes of the segment registers. -/
def segmentsSaved (p : Processor) (esp0 : UInt32) (stack : List UInt32) (r : Registers)
    (number code : UInt32) : State where
  toRegisters := { r with
    esp := esp0 - 4 - 4 - 4 - 4 - 4 - 4 - 4 - 4 - 4 - 4 - 4
    cs := gdtKernelCodeSegmentSelector
    ss := gdtKernelDataSegmentSelector
    eflags := r.eflags &&& ~~~0x34300 }
  stack := (frameDwords p r 0 number code).drop 8 ++ stack

theorem run_pushSegs (p : Processor) (esp0 : UInt32) (stack : List UInt32) (r : Registers) (number code : UInt32) :
    run p [.pushSeg .ds, .pushSeg .es, .pushSeg .fs, .pushSeg .gs] (atHandler p esp0 stack r number code) =
      some (segmentsSaved p esp0 stack r number code) := by
  simp only [run, exec, State.push, State.seg, Option.bind_some, atHandler, segmentsSaved, frameDwords,
    List.drop_succ_cons, List.drop_zero, List.cons_append, List.nil_append]

theorem saved_generalPushed (p : Processor) (esp0 : UInt32) (stack : List UInt32) (r : Registers)
    (number code : UInt32) :
    Saved p r (esp0 - 44) number code stack (generalPushed (segmentsSaved p esp0 stack r number code)) := by
  have hesp : (segmentsSaved p esp0 stack r number code).esp = esp0 - 44 := by
    show esp0 - 4 - 4 - 4 - 4 - 4 - 4 - 4 - 4 - 4 - 4 - 4 = esp0 - 44
    grind
  refine ⟨⟨r.eax, (segmentsSaved p esp0 stack r number code).eflags &&& 0xFCFFFF, ?_⟩, rfl, rfl⟩
  unfold generalPushed
  rw [hesp]
  rfl

/-- The `esp` that the handler saves. It takes a process whose `ds` has the RPL 0 for the kernel. -/
def frameEsp (r : Registers) (esp0 : UInt32) : UInt32 := if rpl r.ds = 0 then esp0 - 44 else r.esp

/-- From the pushes on the handler comes to the call, with a frame of the process. -/
theorem toMain_spec (hl : loadable p.gdt 0 gdtKernelDataSegmentSelector = true) (esp0 : UInt32) (stack : List UInt32)
    (r : Registers) (number code : UInt32) : ∃ t, toMain p (atHandler p esp0 stack r number code) = some t ∧
      Framed p r (frameEsp r esp0) number code stack t := by
  have hparts : callGenericHandler =
      [.pushSeg .ds, .pushSeg .es, .pushSeg .fs, .pushSeg .gs] ++ (pushGeneral ++ testSegment) := rfl
  obtain ⟨s, hs, hsaved, hzero⟩ := (saved_generalPushed p esp0 stack r number code).testSegment
  have hcall : run p callGenericHandler (atHandler p esp0 stack r number code) = some s := by
    rw [hparts, run_append, run_pushSegs, Option.bind_some, run_append, run_pushGeneral, Option.bind_some]
    exact hs
  unfold toMain frameEsp
  simp only [Option.bind_eq_bind, hcall, Option.bind_some, hzero, decide_eq_true_eq]
  by_cases hds : rpl r.ds = 0
  · rw [if_pos hds, if_pos hds]
    exact hsaved.segmentRegisterSetup hl
  · obtain ⟨t, ht, hsaved⟩ := hsaved.interprivilegeInterrupt
    rw [if_neg hds, if_neg hds, ht, Option.bind_some]
    exact hsaved.segmentRegisterSetup hl

theorem vectorHandler_spec (hl : loadable p.gdt 0 gdtKernelDataSegmentSelector = true) (esp0 : UInt32)
    (stack : List UInt32) (r : Registers) (h : error.isSome ↔ v ∈ errorCodeVectors) :
    ∃ t, vectorHandler p v
        (interruptWith p gdtKernelCodeSegmentSelector gdtKernelDataSegmentSelector esp0 stack r error) = some t ∧
      Framed p r (frameEsp r esp0) (UInt32.ofNat v) (error.getD 0) stack t := by
  unfold vectorHandler
  rw [run_isrStub p esp0 stack r h, Option.bind_some]
  exact toMain_spec hl esp0 stack r _ _

/-! ## What the C code gets -/

/-- The frame that the handler passes on. -/
def savedFrame (p : Processor) (r : Registers) (esp0 : UInt32) : InterruptFrame where
  cpu := ⟨⟨r.edi, r.esi⟩, ⟨r.ebp, frameEsp r esp0⟩, ⟨r.ebx, r.edx, r.ecx, r.eax⟩,
    ⟨p.extend .gs r.gs, p.extend .fs r.fs, p.extend .es r.es, p.extend .ds r.ds⟩⟩
  intNumber := 32
  intStack := ⟨0, r.eip, p.extend .cs r.cs, r.eflags⟩

/-- The frame that `main_interrupt_handler` gets for a vector. -/
def vectorFrame (p : Processor) (r : Registers) (esp0 : UInt32) (vector : ℕ) (code : UInt32) : InterruptFrame :=
  { savedFrame p r esp0 with
    intNumber := UInt32.ofNat vector
    intStack := ⟨code, r.eip, p.extend .cs r.cs, r.eflags⟩ }

theorem frameOf_framed (h : Framed p r (frameEsp r esp0) (UInt32.ofNat v) code stack s) :
    frameOf s = some (vectorFrame p r esp0 v code) := by
  unfold frameOf
  rw [h.stack]
  rfl

end BebasOs.Cpu
