/-
Two 8259A interrupt controllers, one behind line 2 of the other: their ports, the initialization words, the masks and
the end of an interrupt, and the cycle in which the processor takes one. Lines latch an edge; a line is served when no
line of its priority or a higher one is in service.
-/
import BebasOs.Lib.Search

namespace Pic

open Search

/-- What the next byte to the data port is: a mask, or a word of the initialization. -/
inductive Stage where
  | ready
  | icw2
  | icw3
  | icw4
deriving DecidableEq

structure Chip where
  /-- The vector of line 0. -/
  offset : UInt8
  cascade : UInt8
  imr : UInt8
  irr : ℕ → Bool
  isr : ℕ → Bool
  stage : Stage
  needsIcw4 : Bool
  single : Bool
  autoEoi : Bool

namespace Chip

def masked (c : Chip) (n : ℕ) : Bool := c.imr.toNat.testBit n

/-- The line in service with the highest priority is done. -/
def endOfInterrupt (c : Chip) : Chip :=
  match first c.isr 0 8 with
  | none => c
  | some n => { c with isr := Function.update c.isr n false }

/-- A byte to the command port; of the operation commands only the non-specific end of an interrupt is followed. -/
def command (c : Chip) (v : UInt8) : Chip :=
  if v &&& 0x10 ≠ 0 then
    { c with
      imr := 0
      irr := fun _ => false
      isr := fun _ => false
      stage := .icw2
      needsIcw4 := v &&& 0x1 ≠ 0
      single := v &&& 0x2 ≠ 0
      autoEoi := false }
  else if v = 0x20 then c.endOfInterrupt
  else c

/-- A byte to the data port. -/
def data (c : Chip) (v : UInt8) : Chip :=
  match c.stage with
  | .ready => { c with imr := v }
  | .icw2 =>
    { c with
      offset := v &&& 0xF8
      stage := if c.single then (if c.needsIcw4 then .icw4 else .ready) else .icw3 }
  | .icw3 =>
    { c with
      cascade := v
      stage := if c.needsIcw4 then .icw4 else .ready }
  | .icw4 =>
    { c with
      autoEoi := v &&& 0x2 ≠ 0
      stage := .ready }

/-- The line that is served next, when `request` are the lines that ask for it. -/
def next (c : Chip) (request : ℕ → Bool) : Option ℕ :=
  (first (fun n => c.isr n || request n) 0 8).bind fun n => if c.isr n then none else some n

/-- The latched lines that are not masked. -/
def request (c : Chip) (n : ℕ) : Bool := c.irr n && !c.masked n

/-- A line goes into service. -/
def serve (c : Chip) (n : ℕ) : Chip :=
  { c with
    irr := Function.update c.irr n false
    isr := if c.autoEoi then c.isr else Function.update c.isr n true }

end Chip

/-- The two controllers. -/
structure Pair where
  master : Chip
  slave : Chip

namespace Pair

/-- A byte to a port. -/
def out (p : Pair) (port : UInt16) (v : UInt8) : Pair :=
  if port = 0x20 then { p with master := p.master.command v }
  else if port = 0x21 then { p with master := p.master.data v }
  else if port = 0xA0 then { p with slave := p.slave.command v }
  else if port = 0xA1 then { p with slave := p.slave.data v }
  else p

/-- A byte from the data port of the first one: its mask. -/
def readMask (p : Pair) : UInt8 := p.master.imr

/-- A line is raised; from 8 on they are those of the second one. -/
def raise (p : Pair) (n : ℕ) : Pair :=
  if n < 8 then { p with master.irr := Function.update p.master.irr n true }
  else { p with slave.irr := Function.update p.slave.irr (n - 8) true }

def slaveNext (p : Pair) : Option ℕ := p.slave.next p.slave.request

/-- The second one is wired to line 2 of the first. -/
def masterRequest (p : Pair) (n : ℕ) : Bool :=
  if n = 2 then p.slaveNext.isSome && !p.master.masked 2 else p.master.request n

/-- The processor takes an interrupt: the vector, and the controllers after the cycle. A second one that is not told
apart from the lines of the first gives no vector of its own. -/
def acknowledge (p : Pair) : Option (UInt8 × Pair) :=
  (p.master.next p.masterRequest).bind fun n =>
    match (if n = 2 ∧ p.master.cascade.toNat.testBit 2 ∧ p.slave.cascade = 2 then p.slaveNext else none) with
    | some k => some (p.slave.offset + UInt8.ofNat k, ⟨p.master.serve 2, p.slave.serve k⟩)
    | none => some (p.master.offset + UInt8.ofNat n, { p with master := p.master.serve n })

end Pair

/-! ## What is served -/

variable {c : Chip} {request : ℕ → Bool} {n : ℕ}

/-- Once it is initialized, a byte to the data port is a mask. -/
theorem Chip.data_of_ready (h : c.stage = .ready) (v : UInt8) : c.data v = { c with imr := v } := by
  obtain ⟨⟩ := c
  cases h
  rfl

theorem Chip.next_of_idle (h : ∀ m, c.isr m = false) : c.next request = first request 0 8 := by
  unfold Chip.next
  simp only [h, Bool.false_or, Bool.false_eq_true, if_false]
  exact Option.bind_fun_some _

/-- The end of the only interrupt in service. -/
theorem Chip.endOfInterrupt_of_only (hn : n < 8) (h : ∀ m, c.isr m = decide (m = n)) :
    c.endOfInterrupt = { c with isr := fun _ => false } := by
  have hfirst : first c.isr 0 8 = some n := by
    rw [first_eq_some]
    refine ⟨Nat.zero_le n, hn, by rw [h, decide_eq_true rfl], fun j _ hj => ?_⟩
    rw [h, decide_eq_false hj.ne]
  have hisr : Function.update c.isr n false = fun _ => false := by
    funext m
    by_cases hm : m = n
    · rw [hm, Function.update_self]
    · rw [Function.update_of_ne hm, h, decide_eq_false hm]
  unfold Chip.endOfInterrupt
  rw [hfirst]
  simp only [hisr]

end Pic
