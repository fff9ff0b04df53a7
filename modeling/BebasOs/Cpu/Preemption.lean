/-
A process that the timer interrupts resumes with its own registers, except for the selectors by which the handler takes
it for the kernel, or which the switch cannot load: see `Restorable`.
-/
import BebasOs.Cpu.Handler
import BebasOs.Process.Contexts

namespace BebasOs.Cpu

open X86 BebasOs.Process Fat32

variable {p : Processor} {upper : SReg → UInt16} {c : Call} {ctx : Context}

/-! ## The switch -/

/-- The instructions of the switch that push what `iret` pops. -/
def pushReturn : List Instr := processContextSwitch.take 11

/-- Those that load the general registers, `ecx` apart. -/
def loadGeneral : List Instr := (processContextSwitch.drop 11).take 6

/-- Those that load the segment registers, and `ecx`. -/
def loadSegments : List Instr := processContextSwitch.drop 17

theorem switch_parts : processContextSwitch = pushReturn ++ (loadGeneral ++ loadSegments) := rfl

theorem Call.nonnull_ds (c : Call) : isNull c.registers.ds = false := by
  rw [c.ds]
  exact nonnull_kernelData

/-- The state after the pushes: `ecx` points to the context, which lies six dwords from the top. -/
def Call.pushed (c : Call) (ctx : Context) : State where
  toRegisters := { c.registers with
    eax := ctx.eip
    ecx := c.registers.esp + 4
    esp := c.registers.esp - 4 - 4 - 4 - 4 - 4 }
  stack := [ctx.eip, 0x1B, ctx.eflags, ctx.cpu.stack.esp, 0x23, c.ret] ++ (contextWords ctx c.pageDirectory ++ c.stack)

/-- The state after the loads of the general registers. -/
def Call.general (c : Call) (ctx : Context) : State :=
  { c.pushed ctx with
    edi := ctx.cpu.index.edi
    esi := ctx.cpu.index.esi
    ebp := ctx.cpu.stack.ebp
    ebx := ctx.cpu.general.ebx
    edx := ctx.cpu.general.edx
    eax := ctx.cpu.general.eax }

theorem run_pushReturn (p : Processor) (c : Call) (ctx : Context) :
    run p pushReturn (c.state ctx) = some (c.pushed ctx) := by
  have hds := c.nonnull_ds
  let s₁ := (((c.state ctx).setReg (c.registers.esp + 4) .ecx).setReg 0x23 .eax).push 0x23
  have h1 : s₁.load .ecx 12 = some ctx.cpu.stack.esp := by
    have h : s₁.reg .ecx + 12 = s₁.esp + UInt32.ofNat (4 * 5) := by
      show c.registers.esp + 4 + 12 = c.registers.esp - 4 + 20
      grind
    exact State.load_of_distance (by decide) hds h (by decide)
  let s₂ := (s₁.setReg ctx.cpu.stack.esp .eax).push ctx.cpu.stack.esp
  have h2 : s₂.load .ecx 52 = some ctx.eflags := by
    have h : s₂.reg .ecx + 52 = s₂.esp + UInt32.ofNat (4 * 16) := by
      show c.registers.esp + 4 + 52 = c.registers.esp - 4 - 4 + 64
      grind
    exact State.load_of_distance (by decide) hds h (by decide)
  let s₃ := (((s₂.setReg ctx.eflags .eax).push ctx.eflags).setReg 0x1B .eax).push 0x1B
  have h3 : s₃.load .ecx 48 = some ctx.eip := by
    have h : s₃.reg .ecx + 48 = s₃.esp + UInt32.ofNat (4 * 17) := by
      show c.registers.esp + 4 + 48 = c.registers.esp - 4 - 4 - 4 - 4 + 68
      grind
    exact State.load_of_distance (by decide) hds h (by decide)
  show run p (.load .eax .ecx 12 :: _) s₁ = _
  rw [run_load h1]
  show run p (.load .eax .ecx 52 :: _) s₂ = _
  rw [run_load h2]
  show run p (.load .eax .ecx 48 :: _) s₃ = _
  rw [run_load h3]
  rfl

/-- The dwords of the context, as the switch loads them. -/
theorem load_pushed (c : Call) (ctx : Context) {disp : UInt32} {j : ℕ} (hdisp : disp = UInt32.ofNat (4 * j))
    (hj : j < 15) :
    (c.pushed ctx).load .ecx disp = (contextWords ctx c.pageDirectory ++ c.stack)[j]? := by
  have h : (c.pushed ctx).reg .ecx + disp = (c.pushed ctx).esp + UInt32.ofNat (4 * (6 + j)) := by
    have hsum : UInt32.ofNat (4 * (6 + j)) = 24 + UInt32.ofNat (4 * j) := by
      rw [Nat.mul_add, UInt32.ofNat_add]
      rfl
    rw [hdisp, hsum]
    show c.registers.esp + 4 + UInt32.ofNat (4 * j) =
      c.registers.esp - 4 - 4 - 4 - 4 - 4 + (24 + UInt32.ofNat (4 * j))
    grind
  rw [State.load_of_distance (by decide) c.nonnull_ds h (by omega)]
  show ([ctx.eip, 0x1B, ctx.eflags, ctx.cpu.stack.esp, 0x23, c.ret] ++
    (contextWords ctx c.pageDirectory ++ c.stack))[6 + j]? = _
  rw [List.getElem?_append_right (by simp)]
  simp

theorem run_loadGeneral (p : Processor) (c : Call) (ctx : Context) :
    run p loadGeneral (c.pushed ctx) = some (c.general ctx) := by
  have h0 : (c.pushed ctx).load .ecx 0 = some ctx.cpu.index.edi := load_pushed c ctx (j := 0) rfl (by decide)
  have h4 : (c.pushed ctx).load .ecx 4 = some ctx.cpu.index.esi := load_pushed c ctx (j := 1) rfl (by decide)
  have h8 : (c.pushed ctx).load .ecx 8 = some ctx.cpu.stack.ebp := load_pushed c ctx (j := 2) rfl (by decide)
  have h16 : (c.pushed ctx).load .ecx 16 = some ctx.cpu.general.ebx := load_pushed c ctx (j := 4) rfl (by decide)
  have h20 : (c.pushed ctx).load .ecx 20 = some ctx.cpu.general.edx := load_pushed c ctx (j := 5) rfl (by decide)
  have h28 : (c.pushed ctx).load .ecx 28 = some ctx.cpu.general.eax := load_pushed c ctx (j := 7) rfl (by decide)
  show run p [.load .edi .ecx 0, .load .esi .ecx 4, .load .ebp .ecx 8, .load .ebx .ecx 16, .load .edx .ecx 20,
    .load .eax .ecx 28] (c.pushed ctx) = _
  simp (disch := decide) only [run, exec, State.load_setReg, h0, h4, h8, h16, h20, h28, Option.map_some,
    Option.bind_some]
  rfl

/-- The selectors of a context can be loaded. -/
structure Loadable (gdt : List Descriptor) (cpl : ℕ) (segment : CPURegister.Segment) : Prop where
  gs : loadable gdt cpl segment.gs.toUInt16 = true
  fs : loadable gdt cpl segment.fs.toUInt16 = true
  es : loadable gdt cpl segment.es.toUInt16 = true
  ds : loadable gdt cpl segment.ds.toUInt16 = true

/-- The state after the switch, before `iret`. -/
def Call.loaded (c : Call) (ctx : Context) : State :=
  { c.general ctx with
    ecx := ctx.cpu.general.ecx
    gs := ctx.cpu.segment.gs.toUInt16
    fs := ctx.cpu.segment.fs.toUInt16
    es := ctx.cpu.segment.es.toUInt16
    ds := ctx.cpu.segment.ds.toUInt16 }

/-- The last load goes through the data segment of the context, and faults when that is null. -/
theorem run_loadSegments (c : Call) (h : Loadable p.gdt 0 ctx.cpu.segment) : run p loadSegments (c.general ctx) =
    if isNull ctx.cpu.segment.ds.toUInt16 then none else some (c.loaded ctx) := by
  have hgs := h.gs
  have hfs := h.fs
  have hes := h.es
  have hds := h.ds
  have hcs : rpl (c.general ctx).cs = 0 := by
    show rpl c.registers.cs = 0
    rw [c.cs]
    decide
  have h24 : (c.general ctx).load .ecx 24 = some ctx.cpu.general.ecx := load_pushed c ctx (j := 6) rfl (by decide)
  have h32 : (c.general ctx).load .ecx 32 = some ctx.cpu.segment.gs := load_pushed c ctx (j := 8) rfl (by decide)
  have h36 : (c.general ctx).load .ecx 36 = some ctx.cpu.segment.fs := load_pushed c ctx (j := 9) rfl (by decide)
  have h40 : (c.general ctx).load .ecx 40 = some ctx.cpu.segment.es := load_pushed c ctx (j := 10) rfl (by decide)
  have h44 : (c.general ctx).load .ecx 44 = some ctx.cpu.segment.ds := load_pushed c ctx (j := 11) rfl (by decide)
  show run p [.loadSeg .gs .ecx 32, .loadSeg .fs .ecx 36, .loadSeg .es .ecx 40, .loadSeg .ds .ecx 44,
    .load .ecx .ecx 24]
    (c.general ctx) = _
  simp (disch := decide) only [run, exec, h32, h36, h40, h44, Option.bind_some, State.load_setSeg, State.cs_setSeg,
    State.loadSeg, hcs, hgs, hfs, hes, hds, if_true]
  rw [State.load_setSeg_ds (by decide) c.nonnull_ds]
  split
  · rfl
  · simp (disch := decide) only [State.load_setSeg, h24]
    rfl

/-- The registers of a context, as a return to ring 3 leaves them. -/
def restored (gdt : List Descriptor) (ctx : Context) : Registers where
  eax := ctx.cpu.general.eax
  ecx := ctx.cpu.general.ecx
  edx := ctx.cpu.general.edx
  ebx := ctx.cpu.general.ebx
  esp := ctx.cpu.stack.esp
  ebp := ctx.cpu.stack.ebp
  esi := ctx.cpu.index.esi
  edi := ctx.cpu.index.edi
  es := visible gdt 3 ctx.cpu.segment.es.toUInt16
  cs := 0x1B
  ss := 0x23
  ds := visible gdt 3 ctx.cpu.segment.ds.toUInt16
  fs := visible gdt 3 ctx.cpu.segment.fs.toUInt16
  gs := visible gdt 3 ctx.cpu.segment.gs.toUInt16
  eip := ctx.eip
  eflags := ctx.eflags

/-- What a context resumes with: nothing when its data segment is null. -/
theorem resume_eq (c : Call) (h : Loadable p.gdt 0 ctx.cpu.segment) (hvm : ctx.eflags.toNat.testBit 17 = false)
    (hret : returnable p.gdt 0x1B 0x23 = true) :
    resume p c ctx = if isNull ctx.cpu.segment.ds.toUInt16 then none else some (restored p.gdt ctx) := by
  unfold resume
  rw [switch_parts, run_append, run_pushReturn, Option.bind_some, run_append, run_loadGeneral, Option.bind_some,
    run_loadSegments c h]
  split
  · rfl
  · have hcpl : ¬ rpl 0x1B ≤ rpl (c.loaded ctx).cs := by
      show ¬ rpl 0x1B ≤ rpl c.registers.cs
      rw [c.cs]
      decide
    have hok : ¬ (ctx.eflags.toNat.testBit 17 = true ∨ rpl 0x1B ≤ rpl (c.loaded ctx).cs ∨
        ¬ returnable p.gdt 0x1B 0x23 = true) := by
      rw [hvm, hret]
      simp [hcpl]
    show (if _ then _ else _) = _
    exact (if_neg hok).trans rfl

/-! ## The handler -/

variable {r : Registers} {esp0 : UInt32}

/-- The timer interrupts a process. -/
def interrupted (p : Processor) (esp0 : UInt32) (stack : List UInt32) (r : Registers) : State :=
  interrupt p gdtKernelCodeSegmentSelector gdtKernelDataSegmentSelector esp0 stack r

/-- The handler passes on the frame of the process; the vector of the timer has no error code. -/
theorem handler_frame (upper : SReg → UInt16) (esp0 : UInt32) (stack : List UInt32) (r : Registers) :
    ∃ t, genericHandler (processor upper) (interrupted (processor upper) esp0 stack r) = some t ∧
      frameOf t = some (savedFrame (processor upper) r esp0) := by
  have hdata : loadable globalDescriptorTable 0 gdtKernelDataSegmentSelector = true := by decide
  have hcode : (none : Option UInt32).isSome ↔ 32 ∈ errorCodeVectors := by decide
  obtain ⟨t, ht, hframed⟩ := vectorHandler_spec (p := processor upper) hdata esp0 stack r hcode
  exact ⟨t, (genericHandler_eq _ _).trans ht, frameOf_framed hframed⟩

/-! ## Processes -/

/-- The registers of a process in ring 3: its segments are those of the table with which code runs there, or that it can
load. -/
structure UserRegisters extends Registers where
  ring : rpl cs = 3
  code : returnable globalDescriptorTable cs ss = true
  data : ∀ selector ∈ [es, ds, fs, gs], loadable globalDescriptorTable 3 selector = true
  protectedMode : eflags.toNat.testBit 17 = false

/-- A selector of the only segment of a kind. -/
theorem only_descriptor {f : Descriptor → Bool} {i : ℕ} {selector : UInt16}
    (hf : ∀ j < 32, globalDescriptorTable[j]?.any f = true → j = i)
    (h : (descriptor globalDescriptorTable selector).any f = true) : selector.toNat = 8 * i + rpl selector := by
  unfold descriptor at h
  split at h
  · cases h
  · obtain ⟨d, hd, -⟩ := (Option.any_eq_true _ _).1 h
    have hlt : selector.toNat / 8 < 32 := (List.getElem?_eq_some_iff.1 hd).1
    have hi := hf _ hlt h
    unfold rpl
    omega

/-- The table has one segment for the code of ring 3, and one for its stack. -/
theorem ring3_selectors {cs ss : UInt16} (hring : rpl cs = 3) (h : returnable globalDescriptorTable cs ss = true) :
    cs = 0x1B ∧ ss = 0x23 := by
  have hcode : ∀ j < 32, (globalDescriptorTable[j]?.any fun d => d.nonSystem && d.code && d.present &&
      if d.conforming then d.privilegeLevel ≤ 3 else d.privilegeLevel = 3) = true → j = 3 := by decide
  have hstack : ∀ j < 32, (globalDescriptorTable[j]?.any fun d => d.nonSystem && d.writable && d.present &&
      d.privilegeLevel == 3) = true → j = 4 := by decide
  unfold returnable at h
  rw [hring, Bool.and_eq_true, Bool.and_eq_true, Bool.and_eq_true, Bool.and_eq_true, beq_iff_eq] at h
  obtain ⟨⟨-, hcs⟩, ⟨-, hrpl⟩, hss⟩ := h
  have h1 := only_descriptor hcode hcs
  have h2 := only_descriptor hstack hss
  rw [hring] at h1
  rw [hrpl] at h2
  exact ⟨UInt16.toNat_inj.1 h1, UInt16.toNat_inj.1 h2⟩

/-- What the handler and the switch bring through: the data segment is there and tells of ring 3, or the process has the
`esp` of the kernel, and no other data segment is the null segment by a selector other than 0. -/
structure Restorable (r : Registers) (esp0 : UInt32) : Prop where
  ds : isNull r.ds = false
  esp : rpl r.ds ≠ 0 ∨ r.esp = esp0 - 44
  others : ∀ selector ∈ [r.es, r.fs, r.gs], isNull selector = true → selector = 0

theorem frameEsp_eq_iff : frameEsp r esp0 = r.esp ↔ rpl r.ds ≠ 0 ∨ r.esp = esp0 - 44 := by
  unfold frameEsp
  split
  · rename_i h
    simp only [h, ne_eq, not_true, false_or]
    exact eq_comm
  · rename_i h
    simp [h]

theorem visible_eq_iff {gdt : List Descriptor} {cpl : ℕ} {selector : UInt16}
    (h : loadable gdt cpl selector = true) :
    visible gdt cpl selector = selector ↔ (isNull selector = true → selector = 0) := by
  rw [visible_of_loadable h]
  split
  · rename_i hn
    simp only [hn, true_implies]
    exact eq_comm
  · rename_i hn
    simp [hn]

/-- What is saved is restored to the registers of the process, apart from `esp` and null segments. -/
theorem restored_eq_iff (r : UserRegisters)
    (hctx : ctx.captured = (contextOf (savedFrame p r.toRegisters esp0)).captured) (hds : isNull r.ds = false) :
    restored globalDescriptorTable ctx = r.toRegisters ↔ Restorable r.toRegisters esp0 := by
  obtain ⟨hcs, hss⟩ := ring3_selectors r.ring r.code
  have hcpu : ctx.cpu = (savedFrame p r.toRegisters esp0).cpu := congrArg Captured.cpu hctx
  have heip : ctx.eip = r.eip := congrArg Captured.eip hctx
  have heflags : ctx.eflags = r.eflags := congrArg Captured.eflags hctx
  have hes := visible_eq_iff (r.data r.es (by simp))
  have hfs := visible_eq_iff (r.data r.fs (by simp))
  have hgs := visible_eq_iff (r.data r.gs (by simp))
  have hvds : visible globalDescriptorTable 3 r.ds = r.ds := by
    rw [visible_eq_iff (r.data r.ds (by simp)), hds]
    rintro ⟨⟩
  unfold restored
  rw [hcpu, heip, heflags, Registers.ext_iff]
  simp only [savedFrame, toUInt16_extend, frameEsp_eq_iff, hes, hfs, hgs, hvds, hcs, hss, true_and, and_true]
  constructor
  · rintro ⟨h1, h2, h3, h4⟩
    exact ⟨hds, h1, by simpa only [List.forall_mem_cons] using ⟨h2, h3, h4, List.forall_mem_nil _⟩⟩
  · rintro ⟨-, hesp, hothers⟩
    exact ⟨hesp, hothers _ (by simp), hothers _ (by simp), hothers _ (by simp)⟩

variable {k : Kernel} {i : ℕ}

/-- What a process resumes with, from the frame that was saved into its control block. -/
theorem resume_saved (upper : SReg → UInt16) (r : UserRegisters) (esp0 : UInt32)
    (h : processGetCurrentRunningPcb k = some i) (c : Call) :
    resume (processor upper) c ((saveFrame k (savedFrame (processor upper) r.toRegisters esp0)).pcb i).context =
      some r.toRegisters ↔ Restorable r.toRegisters esp0 := by
  have hctx := (pcb_save (contextOf (savedFrame (processor upper) r.toRegisters esp0)) h i).1
  rw [if_pos rfl] at hctx
  unfold saveFrame
  generalize
    ((schedulerSaveContext k (contextOf (savedFrame (processor upper) r.toRegisters esp0))).pcb i).context = ctx
    at hctx ⊢
  have hcpu : ctx.cpu.segment = (savedFrame (processor upper) r.toRegisters esp0).cpu.segment :=
    congrArg (fun captured => captured.cpu.segment) hctx
  have heflags : ctx.eflags = r.eflags := congrArg Captured.eflags hctx
  have hload (selector : UInt16) (hsel : selector ∈ [r.es, r.ds, r.fs, r.gs]) :
      loadable globalDescriptorTable 0 selector = true := loadable_mono (by decide) (r.data selector hsel)
  have hloadable : Loadable (processor upper).gdt 0 ctx.cpu.segment := by
    rw [hcpu]
    constructor
    · exact (toUInt16_extend (processor upper) .gs r.gs).symm ▸ hload _ (by simp)
    · exact (toUInt16_extend (processor upper) .fs r.fs).symm ▸ hload _ (by simp)
    · exact (toUInt16_extend (processor upper) .es r.es).symm ▸ hload _ (by simp)
    · exact (toUInt16_extend (processor upper) .ds r.ds).symm ▸ hload _ (by simp)
  have hds : ctx.cpu.segment.ds.toUInt16 = r.ds := by
    rw [hcpu]
    exact toUInt16_extend (processor upper) .ds r.ds
  have hret : returnable globalDescriptorTable 0x1B 0x23 = true := by decide
  rw [resume_eq c hloadable (heflags ▸ r.protectedMode) hret, hds]
  by_cases hn : isNull r.ds = true
  · rw [if_pos hn]
    constructor
    · intro h
      cases h
    · intro h
      rw [h.ds] at hn
      cases hn
  · rw [if_neg hn, Option.some_inj]
    exact restored_eq_iff r hctx (Bool.not_eq_true _ ▸ hn)

/-- A process that the timer interrupts resumes with its own registers exactly when they are `Restorable`: the handler
saves the `esp` of the kernel when the RPL of `ds` is 0, the switch faults on a null `ds`, and `iret` clears null
segments. -/
theorem resumes_iff (upper : SReg → UInt16) (r : UserRegisters) (esp0 : UInt32) (stack : List UInt32)
    (h : processGetCurrentRunningPcb k = some i) (c : Call) :
    ∃ t frame, genericHandler (processor upper) (interrupted (processor upper) esp0 stack r.toRegisters) = some t ∧
      frameOf t = some frame ∧
      (resume (processor upper) c ((saveFrame k frame).pcb i).context = some r.toRegisters ↔
        Restorable r.toRegisters esp0) := by
  obtain ⟨t, ht, hframe⟩ := handler_frame upper esp0 stack r.toRegisters
  exact ⟨t, _, ht, hframe, resume_saved upper r esp0 h c⟩

/-- The kernel with a process in slot 0 that runs. -/
def runningKernel : Kernel := { bootKernel (powerOn zeroDisk) with manager := ⟨onlyFirst, 1, 0⟩ }

theorem running_first : processGetCurrentRunningPcb runningKernel = some 0 := by
  rw [saved_onlyFirst rfl]
  rfl

/-- The registers of a process with the selector `ds`; the other data segments are the one of the user. -/
def userRegisters (ds : UInt16) (h : loadable globalDescriptorTable 3 ds = true) : UserRegisters where
  toRegisters := ⟨1, 2, 3, 4, 0xBFFFFFFC, 5, 6, 7, 0x23, 0x1B, 0x23, ds, 0x23, 0x23, 0, 0x202⟩
  ring := rfl
  code := by decide
  data := by simp [h, show loadable globalDescriptorTable 3 0x23 = true by decide]
  protectedMode := by decide

/-- The kernel calls the switch with its own segments. -/
def kernelCall : Call where
  registers := ⟨0, 0, 0, 0, 0xC0400000, 0, 0, 0, 0x10, 0x8, 0x10, 0x10, 0x10, 0x10, 0, 0x2⟩
  ret := 0
  pageDirectory := 0
  stack := []
  cs := rfl
  ss := rfl
  ds := rfl

/-- A processor that leaves zeros above a selector that it pushes. -/
def zeroProcessor : Processor := processor fun _ => 0

/-- A process with the data segment of the user. -/
def userData : UserRegisters := userRegisters 0x23 (by decide)

/-- A process with the same segment, by a selector of RPL 0. -/
def userDataRpl0 : UserRegisters := userRegisters 0x20 (by decide)

theorem resumes_iff_userData : ∃ t frame,
    genericHandler zeroProcessor (interrupted zeroProcessor 0xC0400000 [] userData.toRegisters) = some t ∧
      frameOf t = some frame ∧
      (resume zeroProcessor kernelCall ((saveFrame runningKernel frame).pcb 0).context = some userData.toRegisters ↔
        Restorable userData.toRegisters 0xC0400000) :=
  resumes_iff (fun _ => 0) userData 0xC0400000 [] running_first kernelCall

/-- A process with the selector 0x20 in `ds` does not resume with its own registers. -/
theorem resume_differs : ∃ t frame,
    genericHandler zeroProcessor (interrupted zeroProcessor 0xC0400000 [] userDataRpl0.toRegisters) = some t ∧
      frameOf t = some frame ∧
      resume zeroProcessor kernelCall ((saveFrame runningKernel frame).pcb 0).context ≠
        some userDataRpl0.toRegisters := by
  obtain ⟨t, ht, hframe⟩ := handler_frame (fun _ => 0) 0xC0400000 [] userDataRpl0.toRegisters
  refine ⟨t, _, ht, hframe, fun h => ?_⟩
  have hesp := ((resume_saved (fun _ => 0) userDataRpl0 0xC0400000 running_first kernelCall).1 h).esp
  revert hesp
  decide

end BebasOs.Cpu
