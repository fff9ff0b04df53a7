/-
A part of the x86 in 32-bit protected mode: the registers and the stack, the instructions that save and load them, and
the ways into an interrupt and out of it. Memory is the stack, from the dword that `esp` points to on. A fault, an
access to other memory and a return to virtual-8086 mode have no result; there are no nested tasks.
-/
import Mathlib.Tactic

namespace X86

/-! ## Segments -/

/-- The fields of a segment descriptor that the loads of segment registers test. -/
structure Descriptor where
  typeBit : BitVec 4
  nonSystem : Bool
  privilegeLevel : ℕ
  present : Bool
deriving DecidableEq, Inhabited

namespace Descriptor

def code (d : Descriptor) : Bool := d.typeBit.getLsbD 3

def conforming (d : Descriptor) : Bool := d.code && d.typeBit.getLsbD 2

/-- A data segment, or a code segment that may be read. -/
def readable (d : Descriptor) : Bool := !d.code || d.typeBit.getLsbD 1

def writable (d : Descriptor) : Bool := !d.code && d.typeBit.getLsbD 1

end Descriptor

/-- The requested privilege level of a selector. -/
def rpl (selector : UInt16) : ℕ := selector.toNat % 4

def isNull (selector : UInt16) : Bool := selector.toNat < 4

/-- The descriptor that a selector chooses; there is no local table. -/
def descriptor (gdt : List Descriptor) (selector : UInt16) : Option Descriptor :=
  if selector.toNat / 4 % 2 = 1 then none else gdt[selector.toNat / 8]?

/-- A data segment register may be loaded with the selector. -/
def loadable (gdt : List Descriptor) (cpl : ℕ) (selector : UInt16) : Bool :=
  isNull selector || (descriptor gdt selector).any fun d =>
    d.nonSystem && d.readable &&
      (d.conforming || rpl selector ≤ d.privilegeLevel && cpl ≤ d.privilegeLevel) && d.present

/-- What a data segment register holds after a return to an outer ring: a null selector becomes 0, and so does one of a
segment that the ring may not use. -/
def visible (gdt : List Descriptor) (cpl : ℕ) (selector : UInt16) : UInt16 :=
  if isNull selector then 0
  else if (descriptor gdt selector).any fun d => d.privilegeLevel < cpl && !d.conforming then 0
  else selector

/-- The selectors that a return to an outer ring may load into `cs` and `ss`. -/
def returnable (gdt : List Descriptor) (cs ss : UInt16) : Bool :=
  (!isNull cs && (descriptor gdt cs).any fun d => d.nonSystem && d.code && d.present &&
    if d.conforming then d.privilegeLevel ≤ rpl cs else d.privilegeLevel = rpl cs) &&
  (!isNull ss && rpl ss == rpl cs && (descriptor gdt ss).any fun d => d.nonSystem && d.writable && d.present &&
    d.privilegeLevel == rpl cs)

/-! ## State -/

inductive Reg where
  | eax | ecx | edx | ebx | esp | ebp | esi | edi
deriving DecidableEq

inductive SReg where
  | es | cs | ss | ds | fs | gs
deriving DecidableEq

@[ext] structure Registers where
  (eax ecx edx ebx esp ebp esi edi : UInt32)
  (es cs ss ds fs gs : UInt16)
  (eip eflags : UInt32)
deriving DecidableEq

/-- The registers and the stack; where the code itself runs is not followed. -/
structure State extends Registers where
  stack : List UInt32

/-- The table of segments, and what the upper halves of the dwords hold that a selector is pushed in: it depends on the
processor and on the memory before. -/
structure Processor where
  gdt : List Descriptor
  upper : SReg → UInt16

/-- The dword that a selector is pushed in. -/
def Processor.extend (p : Processor) (r : SReg) (selector : UInt16) : UInt32 :=
  UInt32.ofNat (selector.toNat + 65536 * (p.upper r).toNat)

namespace State

def reg (s : State) : Reg → UInt32
  | .eax => s.eax
  | .ecx => s.ecx
  | .edx => s.edx
  | .ebx => s.ebx
  | .esp => s.esp
  | .ebp => s.ebp
  | .esi => s.esi
  | .edi => s.edi

def seg (s : State) : SReg → UInt16
  | .es => s.es
  | .cs => s.cs
  | .ss => s.ss
  | .ds => s.ds
  | .fs => s.fs
  | .gs => s.gs

/-- A new `esp` points to memory that is not known. -/
def setReg (s : State) (v : UInt32) : Reg → State
  | .eax => { s with eax := v }
  | .ecx => { s with ecx := v }
  | .edx => { s with edx := v }
  | .ebx => { s with ebx := v }
  | .esp => { s with esp := v, stack := [] }
  | .ebp => { s with ebp := v }
  | .esi => { s with esi := v }
  | .edi => { s with edi := v }

def setSeg (s : State) (v : UInt16) : SReg → State
  | .es => { s with es := v }
  | .cs => { s with cs := v }
  | .ss => { s with ss := v }
  | .ds => { s with ds := v }
  | .fs => { s with fs := v }
  | .gs => { s with gs := v }

def push (s : State) (v : UInt32) : State := { s with esp := s.esp - 4, stack := v :: s.stack }

def pop (s : State) : Option (UInt32 × State) :=
  match s.stack with
  | [] => none
  | v :: rest => some (v, { s with esp := s.esp + 4, stack := rest })

/-- The dword of the stack at `[base + disp]`, which is in the stack segment for the bases `esp` and `ebp` and in the
data segment for the others. -/
def slot (s : State) (base : Reg) (disp : UInt32) : Option ℕ :=
  let selector := if base = .esp ∨ base = .ebp then s.ss else s.ds
  let distance := (s.reg base + disp - s.esp).toNat
  if isNull selector ∨ distance % 4 ≠ 0 then none else some (distance / 4)

def load (s : State) (base : Reg) (disp : UInt32) : Option UInt32 := (s.slot base disp).bind fun i => s.stack[i]?

def storeAt (s : State) (base : Reg) (disp v : UInt32) : Option State :=
  (s.slot base disp).bind fun i => if i < s.stack.length then some { s with stack := s.stack.set i v } else none

/-- A load of a data segment register. -/
def loadSeg (s : State) (gdt : List Descriptor) (r : SReg) (selector : UInt16) : Option State :=
  if loadable gdt (rpl s.cs) selector then some (s.setSeg selector r) else none

end State

/-! ## Instructions -/

inductive Instr where
  | push (src : Reg)
  | pushImm (v : UInt32)
  | pushSeg (src : SReg)
  | pushad
  | pushf
  | pop (dst : Reg)
  | popf
  | mov (dst src : Reg)
  | movImm (dst : Reg) (v : UInt32)
  | movLow (dst : Reg) (v : UInt16)
  | movSeg (dst : SReg) (src : Reg)
  | load (dst base : Reg) (disp : UInt32)
  | loadSeg (dst : SReg) (base : Reg) (disp : UInt32)
  | store (base : Reg) (disp : UInt32) (src : Reg)
  | lea (dst base : Reg) (disp : UInt32)
  | and (dst : Reg) (v : UInt32)

/-- An even number of the eight low bits is set. -/
def parity (v : UInt32) : Bool := (List.range 8).countP (fun i => v.toNat.testBit i) % 2 == 0

/-- The flags after a logical instruction: ZF, SF and PF by its result, CF and OF clear. -/
def logicFlags (flags result : UInt32) : UInt32 :=
  (flags &&& ~~~0x8C5) ||| (if result = 0 then 0x40 else 0) ||| (if result.toNat.testBit 31 then 0x80 else 0) |||
    if parity result then 0x4 else 0

/-- ZF. -/
def State.zero (s : State) : Bool := s.eflags.toNat.testBit 6

def exec (p : Processor) (s : State) : Instr → Option State
  | .push src => some (s.push (s.reg src))
  | .pushImm v => some (s.push v)
  | .pushSeg src => some (s.push (p.extend src (s.seg src)))
  | .pushad =>
    some ((((((((s.push s.eax).push s.ecx).push s.edx).push s.ebx).push s.esp).push s.ebp).push s.esi).push s.edi)
  | .pushf => some (s.push (s.eflags &&& 0xFCFFFF))
  | .pop dst => s.pop.map fun (v, s) => s.setReg v dst
  | .popf => s.pop.map fun (v, s) => { s with eflags := v }
  | .mov dst src => some (s.setReg (s.reg src) dst)
  | .movImm dst v => some (s.setReg v dst)
  | .movLow dst v => some (s.setReg (s.reg dst &&& 0xFFFF0000 ||| v.toUInt32) dst)
  | .movSeg dst src => s.loadSeg p.gdt dst (s.reg src).toUInt16
  | .load dst base disp => (s.load base disp).map (s.setReg · dst)
  | .loadSeg dst base disp => (s.load base disp).bind fun v => s.loadSeg p.gdt dst v.toUInt16
  | .store base disp src => s.storeAt base disp (s.reg src)
  | .lea dst base disp => some (s.setReg (s.reg base + disp) dst)
  | .and dst v =>
    let result := s.reg dst &&& v
    some { s.setReg result dst with eflags := logicFlags s.eflags result }

def run (p : Processor) : List Instr → State → Option State
  | [], s => some s
  | i :: is, s => (exec p s i).bind (run p is)

/-! ## Interrupts -/

/-- An interrupt taken in an outer ring, through an interrupt gate to the code segment `code` of ring 0. The stack is
the one of the task state segment, `esp0` in `ss0`. -/
def interrupt (p : Processor) (code ss0 : UInt16) (esp0 : UInt32) (stack : List UInt32) (r : Registers) : State :=
  let s : State := { r with ss := ss0, esp := esp0, stack := stack }
  let s := ((((s.push (p.extend .ss r.ss)).push r.esp).push r.eflags).push (p.extend .cs r.cs)).push r.eip
  { s with cs := code, eflags := r.eflags &&& ~~~0x34300 }

/-- `iret` from ring 0 to an outer ring. -/
def iret (p : Processor) (s : State) : Option Registers :=
  match s.stack with
  | eip :: cs :: eflags :: esp :: ss :: _ =>
    let cpl := rpl cs.toUInt16
    if eflags.toNat.testBit 17 ∨ cpl ≤ rpl s.cs ∨ ¬ returnable p.gdt cs.toUInt16 ss.toUInt16 then none
    else some { s.toRegisters with
      eip := eip
      cs := cs.toUInt16
      eflags := eflags
      esp := esp
      ss := ss.toUInt16
      es := visible p.gdt cpl s.es
      ds := visible p.gdt cpl s.ds
      fs := visible p.gdt cpl s.fs
      gs := visible p.gdt cpl s.gs }
  | _ => none

/-! ## Loading segments -/

variable {gdt : List Descriptor} {selector : UInt16} {p : Processor} {s : State} {n : ℕ} {v disp : UInt32} {base : Reg}

/-- What a ring may load, an inner one may. -/
theorem loadable_mono {inner outer : ℕ} (h : inner ≤ outer) (hl : loadable gdt outer selector = true) :
    loadable gdt inner selector = true := by
  unfold loadable at hl ⊢
  rcases hd : descriptor gdt selector with _ | d
  · rwa [hd] at hl
  · rw [hd] at hl
    simp only [Option.any_some, Bool.or_eq_true, Bool.and_eq_true, decide_eq_true_eq] at hl ⊢
    rcases hl with hl | ⟨⟨hr, hc | hp⟩, hpresent⟩
    · exact .inl hl
    · exact .inr ⟨⟨hr, .inl hc⟩, hpresent⟩
    · exact .inr ⟨⟨hr, .inr ⟨hp.1, by omega⟩⟩, hpresent⟩

/-- A return to the ring that has loaded a selector leaves it, unless it is null. -/
theorem visible_of_loadable {cpl : ℕ} (hl : loadable gdt cpl selector = true) :
    visible gdt cpl selector = if isNull selector then 0 else selector := by
  unfold visible
  by_cases hn : isNull selector = true
  · rw [if_pos hn, if_pos hn]
  · rw [if_neg hn, if_neg hn, if_neg]
    unfold loadable at hl
    rcases hd : descriptor gdt selector with _ | d
    · simp
    · rw [hd] at hl
      simp only [Option.any_some, Bool.or_eq_true, Bool.and_eq_true, decide_eq_true_eq] at hl ⊢
      obtain ⟨⟨-, hc | hp⟩, -⟩ := hl.resolve_left hn
      · simp [hc]
      · rintro ⟨hlt, -⟩
        omega

theorem toUInt16_extend (p : Processor) (r : SReg) (selector : UInt16) : (p.extend r selector).toUInt16 = selector := by
  have h1 := selector.toNat_lt
  have h2 := (p.upper r).toNat_lt
  apply UInt16.toNat_inj.1
  rw [UInt32.toNat_toUInt16, Processor.extend, UInt32.toNat_ofNat']
  omega

/-! ## Executing instructions -/

theorem run_append (p : Processor) (is js : List Instr) (s : State) :
    run p (is ++ js) s = (run p is s).bind (run p js) := by
  induction is generalizing s with
  | nil => rfl
  | cons i is ih =>
    rw [List.cons_append, run, run]
    rcases exec p s i with _ | t
    · rfl
    · exact ih t

theorem run_load {dst : Reg} (h : s.load base disp = some v) (is : List Instr) :
    run p (.load dst base disp :: is) s = run p is (s.setReg v dst) := by
  rw [run, exec, h]
  rfl

/-- An access through `ecx` or another base of the data segment, at a distance of `n` dwords from the top. -/
theorem State.load_of_distance (hb : base ≠ .esp ∧ base ≠ .ebp) (hs : isNull s.ds = false)
    (h : s.reg base + disp = s.esp + UInt32.ofNat (4 * n)) (hn : n < 2 ^ 30) : s.load base disp = s.stack[n]? := by
  have hdist : s.reg base + disp - s.esp = UInt32.ofNat (4 * n) := by
    rw [h]
    grind
  have hnat : (UInt32.ofNat (4 * n)).toNat = 4 * n := by
    rw [UInt32.toNat_ofNat']
    omega
  unfold State.load State.slot
  simp only [hb.1, hb.2, or_self, if_false, hs, Bool.false_eq_true, false_or, hdist, hnat]
  rw [if_neg (by omega), Option.bind_some, Nat.mul_div_cancel_left n (by decide)]

theorem State.slot_esp (hs : isNull s.ss = false) (hn : n < 2 ^ 30) : s.slot .esp (UInt32.ofNat (4 * n)) = some n := by
  have hdist : s.esp + UInt32.ofNat (4 * n) - s.esp = UInt32.ofNat (4 * n) := by grind
  have hnat : (UInt32.ofNat (4 * n)).toNat = 4 * n := by
    rw [UInt32.toNat_ofNat']
    omega
  unfold State.slot State.reg
  simp only [true_or, if_true, hs, Bool.false_eq_true, false_or, hdist, hnat]
  rw [if_neg (by omega), Nat.mul_div_cancel_left n (by decide)]

theorem State.load_esp (hs : isNull s.ss = false) (hn : n < 2 ^ 30) :
    s.load .esp (UInt32.ofNat (4 * n)) = s.stack[n]? := by
  rw [State.load, State.slot_esp hs hn, Option.bind_some]

theorem State.storeAt_esp (hs : isNull s.ss = false) (hn : n < 2 ^ 30) (hlen : n < s.stack.length) (v : UInt32) :
    s.storeAt .esp (UInt32.ofNat (4 * n)) v = some { s with stack := s.stack.set n v } := by
  rw [State.storeAt, State.slot_esp hs hn, Option.bind_some, if_pos hlen]

theorem State.cs_setSeg (s : State) (selector : UInt16) {r : SReg} (h : r ≠ .cs) : (s.setSeg selector r).cs = s.cs := by
  cases r <;> first | rfl | exact absurd rfl h

/-- A load does not depend on the registers that it does not use. -/
theorem State.load_setReg {r : Reg} (hb : r ≠ base) (hs : r ≠ .esp) :
    (s.setReg v r).load base disp = s.load base disp := by
  unfold State.load State.slot
  cases r <;> cases base <;> first | rfl | exact absurd rfl hb | exact absurd rfl hs

theorem State.load_setSeg {r : SReg} (hss : r ≠ .ss) (hds : r ≠ .ds) :
    (s.setSeg selector r).load base disp = s.load base disp := by
  unfold State.load State.slot
  cases r <;> first | (cases base <;> rfl) | exact absurd rfl hss | exact absurd rfl hds

/-- Through a new data segment a load reads the same, unless there is none. -/
theorem State.load_setSeg_ds (hb : base ≠ .esp ∧ base ≠ .ebp) (hs : isNull s.ds = false) :
    (s.setSeg selector .ds).load base disp = if isNull selector then none else s.load base disp := by
  have hreg : (s.setSeg selector .ds).reg base = s.reg base := by cases base <;> rfl
  unfold State.load State.slot
  rw [hreg]
  simp only [hb.1, hb.2, or_self, if_false, hs, Bool.false_eq_true, false_or]
  by_cases hn : isNull selector = true
  · rw [if_pos (.inl hn), if_pos hn]
    rfl
  · rw [if_neg hn]
    simp only [State.setSeg, hn, Bool.false_eq_true, false_or]

/-- The zero flag after a logical instruction. -/
theorem zero_logicFlags (flags result : UInt32) : (logicFlags flags result).toNat.testBit 6 = decide (result = 0) := by
  have hmask : (~~~0x8C5 : UInt32).toNat.testBit 6 = false := by decide
  -- the bits of SF and PF are others
  have hother (b : Bool) {flag : UInt32} (hf : flag.toNat.testBit 6 = false) :
      (if b then flag else 0).toNat.testBit 6 = false := by
    cases b
    · simp
    · exact hf
  have hzero : (if result = 0 then 0x40 else 0 : UInt32).toNat.testBit 6 = decide (result = 0) := by
    split <;> simp [*]
    decide
  unfold logicFlags
  rw [UInt32.toNat_or, UInt32.toNat_or, UInt32.toNat_or, UInt32.toNat_and, Nat.testBit_or, Nat.testBit_or,
    Nat.testBit_or,
    Nat.testBit_and, hmask, Bool.and_false, Bool.false_or, hother _ (by decide), hother _ (by decide), Bool.or_false,
    Bool.or_false, hzero]

end X86
