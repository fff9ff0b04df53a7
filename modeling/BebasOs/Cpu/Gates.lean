/-
`gdt.c` and `idt.c`: the tables as the code fills them in, bit-field by bit-field, against what the processor reads in
them. They are the segments that the rest of the model takes for granted, and gates that a process can go through only
to the system calls.
-/
import BebasOs.Lib.Descriptors
import BebasOs.Cpu.Vectors

namespace BebasOs.Cpu

open Bytes BitField X86 BebasOs.Process

/-! ## Segment descriptors -/

structure SegmentDescriptor where
  segmentLow : ℕ
  baseLow : ℕ
  baseMid : ℕ
  typeBit : ℕ
  nonSystem : ℕ
  privilegeLevel : ℕ
  present : ℕ
  limitHigh : ℕ
  avl : ℕ
  l : ℕ
  db : ℕ
  granularity : ℕ
  baseHigh : ℕ
deriving Inhabited

/-- The eight bytes of the packed structure. -/
def SegmentDescriptor.word (d : SegmentDescriptor) : ℕ :=
  pack [(16, d.segmentLow), (16, d.baseLow), (8, d.baseMid), (4, d.typeBit), (1, d.nonSystem), (2, d.privilegeLevel),
    (1, d.present), (4, d.limitHigh), (1, d.avl), (1, d.l), (1, d.db), (1, d.granularity), (8, d.baseHigh)]

def zeroDescriptor : SegmentDescriptor := ⟨0, 0, 0, 0, 0, 0, 0, 0, 0, 0, 0, 0, 0⟩

/-- A segment of code or data; they differ in their type and privilege. -/
def flatDescriptor (typeBit privilegeLevel : ℕ) : SegmentDescriptor :=
  { zeroDescriptor with
    segmentLow := 0xFFFF
    typeBit := typeBit
    nonSystem := 1
    privilegeLevel := privilegeLevel
    present := 1
    limitHigh := 0xF
    db := 1
    granularity := 1 }

/-- `sizeof(struct TSSEntry)`. -/
def sizeofTssEntry : ℕ := 104

def tssDescriptor : SegmentDescriptor :=
  { zeroDescriptor with
    limitHigh := (sizeofTssEntry &&& 0xF0000) >>> 16
    segmentLow := sizeofTssEntry
    typeBit := 0x9
    present := 1
    db := 1 }

/-- `global_descriptor_table` before `gdt_install_tss`. -/
def initialDescriptors : List SegmentDescriptor :=
  [zeroDescriptor, flatDescriptor 0xA 0, flatDescriptor 0x2 0, flatDescriptor 0xA 3, flatDescriptor 0x2 3,
    tssDescriptor] ++ List.replicate 26 zeroDescriptor

/-- The three stores of `gdt_install_tss`, with the address of `_interrupt_tss_entry`. -/
def withBase (base : UInt32) (d : SegmentDescriptor) : SegmentDescriptor :=
  { d with
    baseHigh := ((base &&& 0xFF000000) >>> 24).toNat
    baseMid := ((base &&& 0xFF0000) >>> 16).toNat
    baseLow := (base &&& 0xFFFF).toNat }

def gdtInstallTss (base : UInt32) (table : List SegmentDescriptor) : List SegmentDescriptor :=
  table.modify 5 (withBase base)

/-! ## Gates -/

structure IDTGate where
  offsetLow : ℕ
  segment : ℕ
  reserved : ℕ
  rBit1 : ℕ
  rBit2 : ℕ
  gate32 : ℕ
  rBit3 : ℕ
  dpl : ℕ
  validBit : ℕ
  offsetHigh : ℕ
deriving Inhabited

def IDTGate.word (g : IDTGate) : ℕ :=
  pack [(16, g.offsetLow), (16, g.segment), (5, g.reserved), (3, g.rBit1), (3, g.rBit2), (1, g.gate32), (1, g.rBit3),
    (2, g.dpl), (1, g.validBit), (16, g.offsetHigh)]

def zeroGate : IDTGate := ⟨0, 0, 0, 0, 0, 0, 0, 0, 0, 0⟩

/-- `set_interrupt_gate` on the gate it chooses. -/
def setInterruptGate (handlerAddress : UInt32) (gdtSegSelector : UInt16) (privilege : UInt8) (g : IDTGate) : IDTGate :=
  { g with
    offsetLow := (handlerAddress &&& 0xFFFF).toNat
    offsetHigh := (handlerAddress >>> 16 &&& 0xFFFF).toNat
    segment := gdtSegSelector.toNat
    dpl := privilege.toNat
    rBit1 := 0
    rBit2 := 6
    rBit3 := 0
    gate32 := 1
    validBit := 1 }

/-- The privilege that `initialize_idt` gives a vector. -/
def privilegeOf (i : ℕ) : UInt8 := if 0x30 ≤ i ∧ i ≤ 0x3F then 3 else 0

/-- The loop of `initialize_idt`, from vector `i` on with `n` to go. -/
def initializeLoop (isrStubTable : ℕ → UInt32) : (n i : ℕ) → Vector IDTGate 256 → Vector IDTGate 256
  | 0, _, t => t
  | n + 1, i, t => initializeLoop isrStubTable n (i + 1)
      (store t i (setInterruptGate (isrStubTable i) gdtKernelCodeSegmentSelector (privilegeOf i) (cell t i)))

/-- `interrupt_descriptor_table` after `initialize_idt`. -/
def initializeIdt (isrStubTable : ℕ → UInt32) : Vector IDTGate 256 :=
  initializeLoop isrStubTable 64 0 (Vector.replicate 256 zeroGate)

variable {base : UInt32} {stubs : ℕ → UInt32} {v : ℕ}

/-! ## What the processor reads -/

theorem descriptorOf_word (d : SegmentDescriptor) : descriptorOf d.word =
    ⟨BitVec.ofNat 4 (d.typeBit % 2 ^ 4), d.nonSystem % 2 ^ 1 = 1, d.privilegeLevel % 2 ^ 2, d.present % 2 ^ 1 = 1⟩ := by
  unfold descriptorOf SegmentDescriptor.word
  simp (disch := decide) only [bits_pack_tail, bits_pack_head, Nat.reduceSub]

theorem baseOf_word (d : SegmentDescriptor) : baseOf d.word =
    d.baseLow % 2 ^ 16 + 2 ^ 16 * (d.baseMid % 2 ^ 8) + 2 ^ 24 * (d.baseHigh % 2 ^ 8) := by
  unfold baseOf SegmentDescriptor.word
  simp (disch := decide) only [bits_pack_tail, bits_pack_head, Nat.reduceSub]

theorem limitOf_word (d : SegmentDescriptor) : limitOf d.word =
    if d.granularity % 2 ^ 1 = 1 then 4096 * (d.segmentLow % 2 ^ 16 + 2 ^ 16 * (d.limitHigh % 2 ^ 4)) + 4095
    else d.segmentLow % 2 ^ 16 + 2 ^ 16 * (d.limitHigh % 2 ^ 4) := by
  unfold limitOf SegmentDescriptor.word
  simp (disch := decide) only [bits_pack_tail, bits_pack_head, Nat.reduceSub]

theorem gateOf_word (g : IDTGate) : gateOf g.word =
    { offset := g.offsetLow % 2 ^ 16 + 2 ^ 16 * (g.offsetHigh % 2 ^ 16)
      selector := UInt16.ofNat (g.segment % 2 ^ 16)
      kind := g.rBit2 % 2 ^ 3 + 2 ^ 3 * (g.gate32 % 2 ^ 1)
      system := g.rBit3 % 2 ^ 1 = 0
      privilegeLevel := g.dpl % 2 ^ 2
      present := g.validBit % 2 ^ 1 = 1 } := by
  -- the type is made of two fields
  have hkind := bits_add g.word 40 3 1
  unfold gateOf
  rw [show (4 : ℕ) = 3 + 1 from rfl, hkind]
  unfold IDTGate.word
  simp (disch := decide) only [bits_pack_tail, bits_pack_head, Nat.reduceSub, Nat.reduceAdd]

/-- The bytes of an address that a mask picks out. -/
theorem toNat_and_shiftRight (x mask : UInt32) {k n : ℕ} (hk : k < 32) (hm : mask.toNat >>> k = 2 ^ n - 1) :
    ((x &&& mask) >>> UInt32.ofNat k).toNat = x.toNat / 2 ^ k % 2 ^ n := by
  have hnat : (UInt32.ofNat k).toNat % 32 = k := by
    rw [UInt32.toNat_ofNat']
    omega
  rw [UInt32.toNat_shiftRight, UInt32.toNat_and, hnat, Nat.shiftRight_and_distrib, hm, Nat.and_two_pow_sub_one_eq_mod,
    Nat.shiftRight_eq_div_pow]

theorem toNat_and_low (x : UInt32) : (x &&& 0xFFFF).toNat = x.toNat % 2 ^ 16 := by
  rw [UInt32.toNat_and]
  exact Nat.and_two_pow_sub_one_eq_mod x.toNat 16

/-- The base is split over the descriptor so that the processor reads it whole. -/
theorem baseOf_withBase (base : UInt32) (d : SegmentDescriptor) : baseOf (withBase base d).word = base.toNat := by
  have hlow : (base &&& 0xFFFF).toNat = base.toNat % 2 ^ 16 := toNat_and_low base
  have hmid : ((base &&& 0xFF0000) >>> 16).toNat = base.toNat / 2 ^ 16 % 2 ^ 8 :=
    toNat_and_shiftRight base 0xFF0000 (k := 16) (n := 8) (by decide) (by decide)
  have hhigh : ((base &&& 0xFF000000) >>> 24).toNat = base.toNat / 2 ^ 24 % 2 ^ 8 :=
    toNat_and_shiftRight base 0xFF000000 (k := 24) (n := 8) (by decide) (by decide)
  have hlt := base.toNat_lt
  rw [baseOf_word]
  unfold withBase
  simp only [hlow, hmid, hhigh]
  omega

/-- The table has the segments that the loads of segment registers are modelled with, wherever the task state lies. -/
theorem descriptors_eq (base : UInt32) :
    (gdtInstallTss base initialDescriptors).map (fun d => descriptorOf d.word) = globalDescriptorTable := by
  simp only [descriptorOf_word]
  rfl

theorem cell_initializeLoop {n i : ℕ} (hn : i + n ≤ 256) (t : Vector IDTGate 256) (v : ℕ) :
    cell (initializeLoop stubs n i t) v = if i ≤ v ∧ v < i + n then
      setInterruptGate (stubs v) gdtKernelCodeSegmentSelector (privilegeOf v) (cell t v) else cell t v := by
  induction n generalizing i t with
  | zero => exact (if_neg (by omega)).symm
  | succ n ih =>
    rw [initializeLoop, ih (by omega)]
    by_cases hv : v = i
    · rw [hv, if_neg (by omega), if_pos (by omega), cell_store_self _ _ (by omega)]
    · rw [cell_store_ne _ _ (Ne.symm hv)]
      by_cases hin : i + 1 ≤ v ∧ v < i + 1 + n
      · rw [if_pos hin, if_pos (by omega)]
      · rw [if_neg hin, if_neg (by omega)]

/-- The gate of a handler. -/
theorem gateOf_setInterruptGate (address : UInt32) (v : ℕ) (g : IDTGate) :
    gateOf (setInterruptGate address gdtKernelCodeSegmentSelector (privilegeOf v) g).word =
      ⟨address.toNat, gdtKernelCodeSegmentSelector, 0xE, true, if 0x30 ≤ v ∧ v ≤ 0x3F then 3 else 0, true⟩ := by
  have hhigh : (address >>> 16 &&& 0xFFFF).toNat = address.toNat / 2 ^ 16 := by
    rw [toNat_and_low, UInt32.toNat_shiftRight]
    show address.toNat >>> 16 % 2 ^ 16 = _
    have hlt := address.toNat_lt
    rw [Nat.shiftRight_eq_div_pow]
    omega
  have hoffset : address.toNat % 2 ^ 16 % 2 ^ 16 + 2 ^ 16 * (address.toNat / 2 ^ 16 % 2 ^ 16) = address.toNat := by
    have hlt := address.toNat_lt
    omega
  have hdpl : (privilegeOf v).toNat % 2 ^ 2 = if 0x30 ≤ v ∧ v ≤ 0x3F then 3 else 0 := by
    unfold privilegeOf
    split <;> rfl
  rw [gateOf_word]
  simp only [setInterruptGate, toNat_and_low, hhigh, hoffset, hdpl]
  rfl

/-- The gates after `initialize_idt`. -/
theorem gateOf_initializeIdt (hv : v < 256) : gateOf (cell (initializeIdt stubs) v).word =
    if v < 64 then ⟨(stubs v).toNat, gdtKernelCodeSegmentSelector, 0xE,
      true, if 0x30 ≤ v ∧ v ≤ 0x3F then 3 else 0, true⟩
    else gateOf 0 := by
  have hzero : cell (Vector.replicate 256 zeroGate) v = zeroGate := by
    rw [cell_of_lt _ hv, Vector.getElem_replicate]
  unfold initializeIdt
  rw [cell_initializeLoop (by decide), hzero]
  by_cases h : v < 64
  · rw [if_pos (by omega), if_pos h, gateOf_setInterruptGate]
  · rw [if_neg (by omega), if_neg h]
    rfl

/-- What the code writes into its tables is what the processor needs: the segments of the model, four of them with all
of the memory, the task state where it lies and all of it, and for each of the 64 stubs a gate of its own, which a
process may use from 0x30 on; there are no others. -/
theorem tables_read (base : UInt32) (stubs : ℕ → UInt32) :
    (gdtInstallTss base initialDescriptors).map (fun d => descriptorOf d.word) = globalDescriptorTable ∧
    (∀ i ∈ [1, 2, 3, 4], ∃ d, (gdtInstallTss base initialDescriptors)[i]? = some d ∧ baseOf d.word = 0 ∧
      limitOf d.word = 2 ^ 32 - 1) ∧
    (∃ d, (gdtInstallTss base initialDescriptors)[5]? = some d ∧ baseOf d.word = base.toNat ∧
      sizeofTssEntry - 1 ≤ limitOf d.word) ∧
    ∀ v < 256, gateOf (cell (initializeIdt stubs) v).word =
      if v < 64 then
        ⟨(stubs v).toNat, gdtKernelCodeSegmentSelector, 0xE, true, if 0x30 ≤ v ∧ v ≤ 0x3F then 3 else 0, true⟩
      else gateOf 0 := by
  refine ⟨descriptors_eq base, fun i hi => ?_, ⟨_, rfl, baseOf_withBase base _, ?_⟩,
    fun v hv => gateOf_initializeIdt hv⟩
  · simp only [List.mem_cons, List.not_mem_nil, or_false] at hi
    rcases hi with rfl | rfl | rfl | rfl <;> exact ⟨_, rfl, by decide, by decide⟩
  · rw [limitOf_word]
    exact (show 103 ≤ 104 by decide)

/-! ## Interrupts by a process -/

/-- The branches of `main_interrupt_handler`. -/
inductive Branch where
  | timer
  | keyboard
  | syscall
deriving DecidableEq

/-- The `switch` of `main_interrupt_handler`. -/
def branchOf (intNumber : UInt32) : Option Branch :=
  if intNumber = 0x20 + 0 then some .timer
  else if intNumber = 0x20 + 1 then some .keyboard
  else if intNumber = 0x20 + 16 then some .syscall
  else none

/-- `interrupt_descriptor_table` as the processor finds it. -/
def idtWords (stubs : ℕ → UInt32) : List ℕ := (initializeIdt stubs).toList.map IDTGate.word

theorem idtWords_eq (stubs : ℕ → UInt32) (v : ℕ) :
    (idtWords stubs)[v]? = if v < 256 then some (cell (initializeIdt stubs) v).word else none := by
  unfold idtWords
  rw [List.getElem?_map]
  by_cases hv : v < 256
  · rw [if_pos hv, cell_of_lt _ hv, List.getElem?_eq_getElem (by simpa using hv), Option.map_some,
      Vector.getElem_toList]
  · rw [if_neg hv, List.getElem?_eq_none (by simpa using hv), Option.map_none]

/-- What an interrupt of a process comes to: its stub, if there is one and the process may use it. -/
theorem enter_eq (upper : SReg → UInt16) (stubs : ℕ → UInt32) (r : UserRegisters) (esp0 : UInt32) (stack : List UInt32)
    (v : ℕ) (cause : Cause) :
    enter (processor upper) (idtWords stubs) gdtKernelDataSegmentSelector esp0 stack r.toRegisters v cause =
      if v < 64 ∧ (cause = .software → 0x30 ≤ v ∧ v ≤ 0x3F) then
        some ((stubs v).toNat, interruptWith (processor upper) gdtKernelCodeSegmentSelector gdtKernelDataSegmentSelector
          esp0 stack r.toRegisters cause.error)
      else none := by
  have hcode : entryCode (processor upper).gdt gdtKernelCodeSegmentSelector 3 = true := by
    show entryCode globalDescriptorTable _ _ = true
    decide
  unfold enter
  rw [idtWords_eq, r.ring]
  by_cases hv : v < 256
  · rw [if_pos hv, Option.bind_some, gateOf_initializeIdt hv]
    by_cases h64 : v < 64
    · have hdpl : (cause = .software → 3 ≤ if 0x30 ≤ v ∧ v ≤ 0x3F then 3 else 0) ↔
          (cause = .software → 0x30 ≤ v ∧ v ≤ 0x3F) := by
        refine imp_congr_right fun _ => ?_
        by_cases hs : 0x30 ≤ v ∧ v ≤ 0x3F
        · rw [if_pos hs]
          exact iff_of_true le_rfl hs
        · rw [if_neg hs]
          exact iff_of_false (by decide) hs
      rw [if_pos h64]
      simp only [Gate.Interrupt, hdpl, hcode, h64, true_and, and_true]
    · rw [if_neg h64, if_neg (c := v < 64 ∧ _) (fun h => h64 h.1)]
      exact if_neg fun h => absurd h.1 (by decide)
  · rw [if_neg hv, Option.bind_none, if_neg (fun h => hv (by omega))]

/-- The instruction `int v` in a process faults for every vector below 0x30 and above 0x3F, so that it never comes to
the timer or the keyboard. For the others it comes to `main_interrupt_handler` with the registers of the process, apart
from `esp` where the RPL of `ds` is 0; that does a system call for 0x30 and nothing for the rest, and when it returns
the process goes on with its own registers, unless one of its data segments was null by a selector other than 0. -/
theorem software_interrupt (upper : SReg → UInt16) (stubs : ℕ → UInt32) (r : UserRegisters) (esp0 : UInt32)
    (stack : List UInt32) (v : ℕ) :
    if 0x30 ≤ v ∧ v ≤ 0x3F then
      ∃ s t,
        enter (processor upper) (idtWords stubs) gdtKernelDataSegmentSelector esp0 stack r.toRegisters v .software =
          some ((stubs v).toNat, s) ∧
        vectorHandler (processor upper) v s = some t ∧
        frameOf t = some (vectorFrame (processor upper) r.toRegisters esp0 v 0) ∧
        branchOf (UInt32.ofNat v) = (if v = 0x30 then some .syscall else none) ∧
        ∀ t', Returned t t' → ∃ r', fromMain (processor upper) t' = some r' ∧
          (r' = r.toRegisters ↔ ∀ selector ∈ [r.es, r.ds, r.fs, r.gs], isNull selector = true → selector = 0)
    else enter (processor upper) (idtWords stubs) gdtKernelDataSegmentSelector esp0 stack r.toRegisters v .software =
      none := by
  have henter := enter_eq upper stubs r esp0 stack v .software
  split
  · rename_i hv
    have hcode : (none : Option UInt32).isSome ↔ v ∈ errorCodeVectors := by
      have hnot : v ∉ errorCodeVectors := fun hc => by
        have hle : ∀ w ∈ errorCodeVectors, w ≤ 30 := by decide
        have := hle v hc
        omega
      exact iff_of_false (by decide) hnot
    obtain ⟨t, ht, hframe, hback⟩ := interrupt_returns upper r esp0 stack hcode
    rw [if_pos ⟨by omega, fun _ => hv⟩] at henter
    refine ⟨_, t, henter, ht, hframe, ?_, hback⟩
    obtain ⟨k, rfl⟩ : ∃ k, v = 48 + k := ⟨v - 48, by omega⟩
    have hk : k < 16 := by omega
    clear * - hk
    interval_cases k <;> rfl
  · rename_i hv
    rw [henter, if_neg]
    rintro ⟨-, h⟩
    exact hv (h rfl)

end BebasOs.Cpu
