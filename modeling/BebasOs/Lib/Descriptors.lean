/-
The tables of the x86 in 32-bit protected mode, bit by bit: how the processor reads a segment descriptor and a gate, and
how it takes an interrupt through the table of the gates.
-/
import BebasOs.Lib.BitField
import BebasOs.Lib.Return

namespace X86

open BitField

/-! ## Segment descriptors -/

/-- The fields that the loads of segment registers test. -/
def descriptorOf (x : ℕ) : Descriptor where
  typeBit := BitVec.ofNat 4 (bits x 40 4)
  nonSystem := bits x 44 1 = 1
  privilegeLevel := bits x 45 2
  present := bits x 47 1 = 1

/-- The base address of a segment. -/
def baseOf (x : ℕ) : ℕ := bits x 16 16 + 2 ^ 16 * bits x 32 8 + 2 ^ 24 * bits x 56 8

/-- The offset of its last byte, which counts pages if the granularity bit is set. -/
def limitOf (x : ℕ) : ℕ :=
  let limit := bits x 0 16 + 2 ^ 16 * bits x 48 4
  if bits x 55 1 = 1 then 4096 * limit + 4095 else limit

/-! ## Gates -/

structure Gate where
  offset : ℕ
  selector : UInt16
  kind : ℕ
  system : Bool
  privilegeLevel : ℕ
  present : Bool
deriving DecidableEq

def gateOf (x : ℕ) : Gate where
  offset := bits x 0 16 + 2 ^ 16 * bits x 48 16
  selector := UInt16.ofNat (bits x 16 16)
  kind := bits x 40 4
  system := bits x 44 1 = 0
  privilegeLevel := bits x 45 2
  present := bits x 47 1 = 1

/-- A 32-bit interrupt gate, the only kind that is followed here. -/
def Gate.Interrupt (g : Gate) : Prop := g.present ∧ g.system ∧ g.kind = 0xE

instance (g : Gate) : Decidable g.Interrupt := inferInstanceAs (Decidable (_ ∧ _))

/-- What raises an interrupt: an instruction of the process, which has to have the privilege of the gate, or anything
else, with an error code on some vectors. -/
inductive Cause where
  | software
  | event (error : Option UInt32)
deriving DecidableEq

def Cause.error : Cause → Option UInt32
  | .software => none
  | .event error => error

/-- The segment that a gate leads to is one of code, of an inner ring. -/
def entryCode (gdt : List Descriptor) (selector : UInt16) (cpl : ℕ) : Bool :=
  !isNull selector && (descriptor gdt selector).any fun d =>
    d.nonSystem && d.code && d.present && !d.conforming && d.privilegeLevel < cpl

/-- An interrupt taken in an outer ring through a table of gates; the result is the offset of the handler and the state
it begins in. Where it faults there is none. -/
def enter (p : Processor) (idt : List ℕ) (ss0 : UInt16) (esp0 : UInt32) (stack : List UInt32) (r : Registers)
    (vector : ℕ) (cause : Cause) : Option (ℕ × State) :=
  (idt[vector]?).bind fun x =>
    let g := gateOf x
    if g.Interrupt ∧ (cause = .software → rpl r.cs ≤ g.privilegeLevel) ∧ entryCode p.gdt g.selector (rpl r.cs) then
      some (g.offset, interruptWith p g.selector ss0 esp0 stack r cause.error)
    else none

end X86
