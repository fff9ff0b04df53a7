/-
The instructions with which an interrupt handler gives the registers back, and an interrupt with an error code.
-/
import BebasOs.Lib.X86

namespace X86

/-- An interrupt taken in an outer ring, with the error code that some vectors push. -/
def interruptWith (p : Processor) (code ss0 : UInt16) (esp0 : UInt32) (stack : List UInt32) (r : Registers)
    (error : Option UInt32) : State :=
  let s := interrupt p code ss0 esp0 stack r
  match error with
  | none => s
  | some e => s.push e

namespace State

/-- `popad`; the dword in the place of `esp` is skipped. -/
def popad (s : State) : Option State :=
  match s.stack with
  | edi :: esi :: ebp :: _ :: ebx :: edx :: ecx :: eax :: rest =>
    some { s with
      edi := edi
      esi := esi
      ebp := ebp
      ebx := ebx
      edx := edx
      ecx := ecx
      eax := eax
      esp := s.esp + 32
      stack := rest }
  | _ => none

def popSeg (s : State) (gdt : List Descriptor) (r : SReg) : Option State :=
  s.pop.bind fun (v, s) => s.loadSeg gdt r v.toUInt16

/-- The flags after an addition. -/
def addFlags (flags a b : UInt32) : UInt32 :=
  (flags &&& ~~~0x8D5) ||| (if 2 ^ 32 ≤ a.toNat + b.toNat then 0x1 else 0) ||| (if parity (a + b) then 0x4 else 0) |||
    (if 16 ≤ a.toNat % 16 + b.toNat % 16 then 0x10 else 0) ||| (if a + b = 0 then 0x40 else 0) |||
    (if (a + b).toNat.testBit 31 then 0x80 else 0) |||
    if a.toNat.testBit 31 = b.toNat.testBit 31 ∧ a.toNat.testBit 31 ≠ (a + b).toNat.testBit 31 then 0x800 else 0

/-- `add esp, 4 * n`, over dwords that are on the stack. -/
def dropDwords (s : State) (n : ℕ) : Option State :=
  if n ≤ s.stack.length then
    some { s with
      esp := s.esp + UInt32.ofNat (4 * n)
      eflags := addFlags s.eflags s.esp (UInt32.ofNat (4 * n))
      stack := s.stack.drop n }
  else none

end State

end X86
