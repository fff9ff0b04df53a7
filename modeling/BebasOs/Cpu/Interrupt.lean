/-
The way of the registers of an interrupted process through the kernel: the segments of `gdt.c`, the handler of
`intsetup.s`, the frame and the context of `interrupt.c`, and `process_context_switch` of `context_switch.s`.
-/
import BebasOs.Lib.X86
import BebasOs.Process.Scheduler

namespace BebasOs.Cpu

open X86 BebasOs.Process

/-! ## Segments -/

/-- The descriptors of `global_descriptor_table`; the entries after them are zero. -/
def globalDescriptorTable : List Descriptor :=
  [⟨0, false, 0, false⟩, ⟨0xA, true, 0, true⟩, ⟨0x2, true, 0, true⟩, ⟨0xA, true, 3, true⟩, ⟨0x2, true, 3, true⟩,
    ⟨0x9, false, 0, true⟩] ++ List.replicate 26 ⟨0, false, 0, false⟩

def gdtKernelCodeSegmentSelector : UInt16 := 0x8

def gdtKernelDataSegmentSelector : UInt16 := 0x10

/-- The processor with the table of the kernel. -/
def processor (upper : SReg → UInt16) : Processor := ⟨globalDescriptorTable, upper⟩

/-! ## The handler -/

/-- `interrupt_handler_32`, an interrupt without an error code. -/
def interruptHandler32 : List Instr := [.pushImm 0, .pushImm 32]

/-- `call_generic_handler`, up to its test. -/
def callGenericHandler : List Instr :=
  [.pushSeg .ds, .pushSeg .es, .pushSeg .fs, .pushSeg .gs, .pushad, .pushf, .push .eax, .load .eax .esp 52,
    .and .eax 0x3]

def interprivilegeInterrupt : List Instr := [.load .eax .esp 76, .store .esp 20 .eax]

/-- `segment_register_setup`, up to the call. -/
def segmentRegisterSetup : List Instr :=
  [.movLow .eax 0x10, .movSeg .ds .eax, .movSeg .es .eax, .movSeg .fs .eax, .movSeg .gs .eax, .pop .eax, .popf,
    .mov .ebp .esp]

/-- The handler of the timer, up to the call of `main_interrupt_handler`. -/
def genericHandler (p : Processor) (s : State) : Option State := do
  let s ← run p interruptHandler32 s
  let s ← run p callGenericHandler s
  let s ← if s.zero then some s else run p interprivilegeInterrupt s
  run p segmentRegisterSetup s

/-! ## Frames and contexts -/

structure InterruptStack where
  errorCode : UInt32
  eip : UInt32
  cs : UInt32
  eflags : UInt32

structure InterruptFrame where
  cpu : CPURegister
  intNumber : UInt32
  intStack : InterruptStack

/-- The argument of `main_interrupt_handler`: the dwords on the stack, in the order of the fields of the packed
structures. -/
def frameOf (s : State) : Option InterruptFrame :=
  match s.stack with
  | edi :: esi :: ebp :: esp :: ebx :: edx :: ecx :: eax :: gs :: fs :: es :: ds :: intNumber :: errorCode :: eip ::
      cs :: eflags :: _ =>
    some ⟨⟨⟨edi, esi⟩, ⟨ebp, esp⟩, ⟨ebx, edx, ecx, eax⟩, ⟨gs, fs, es, ds⟩⟩, intNumber, ⟨errorCode, eip, cs, eflags⟩⟩
  | _ => none

/-- The `ctx` of the timer branch of `main_interrupt_handler`. -/
def contextOf (frame : InterruptFrame) : Context := ⟨frame.cpu, frame.intStack.eip, frame.intStack.eflags, none⟩

/-- The timer branch, up to the switch: the context is saved into the process control block of the running process. -/
def saveFrame (k : Kernel) (frame : InterruptFrame) : Kernel := schedulerSaveContext k (contextOf frame)

/-! ## The switch -/

/-- A `struct Context` as an argument; `pageDirectory` is the address of its page directory. -/
def contextWords (ctx : Context) (pageDirectory : UInt32) : List UInt32 :=
  [ctx.cpu.index.edi, ctx.cpu.index.esi, ctx.cpu.stack.ebp, ctx.cpu.stack.esp, ctx.cpu.general.ebx, ctx.cpu.general.edx,
    ctx.cpu.general.ecx, ctx.cpu.general.eax, ctx.cpu.segment.gs, ctx.cpu.segment.fs, ctx.cpu.segment.es,
    ctx.cpu.segment.ds, ctx.eip, ctx.eflags, pageDirectory]

/-- The body of `process_context_switch`, up to its `iret`. -/
def processContextSwitch : List Instr :=
  [.lea .ecx .esp 0x04, .movImm .eax 0x23, .push .eax, .load .eax .ecx 12, .push .eax, .load .eax .ecx 52, .push .eax,
    .movImm .eax 0x1B, .push .eax, .load .eax .ecx 48, .push .eax, .load .edi .ecx 0, .load .esi .ecx 4,
    .load .ebp .ecx 8,
    .load .ebx .ecx 16, .load .edx .ecx 20, .load .eax .ecx 28, .loadSeg .gs .ecx 32, .loadSeg .fs .ecx 36,
    .loadSeg .es .ecx 40, .loadSeg .ds .ecx 44, .load .ecx .ecx 24]

/-- What the kernel's own code leaves to `process_context_switch`: any general registers and flags, the segments of the
kernel, and on the stack the return address `ret`, the context and what was there before. -/
structure Call where
  registers : Registers
  ret : UInt32
  pageDirectory : UInt32
  stack : List UInt32
  cs : registers.cs = gdtKernelCodeSegmentSelector
  ss : registers.ss = gdtKernelDataSegmentSelector
  ds : registers.ds = gdtKernelDataSegmentSelector

/-- The state that the switch begins in. -/
def Call.state (c : Call) (ctx : Context) : State := ⟨c.registers, c.ret :: contextWords ctx c.pageDirectory ++ c.stack⟩

/-- The registers that a context resumes with. -/
def resume (p : Processor) (c : Call) (ctx : Context) : Option Registers :=
  (run p processContextSwitch (c.state ctx)).bind (iret p)

end BebasOs.Cpu
