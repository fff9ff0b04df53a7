/-
The interrupt controllers as `interrupt.c` and `scheduler.c` set them up and acknowledge them, with the devices that
raise their lines and the processor that takes interrupts. From `pic_remap` on they are a set of pending lines: whatever
comes between, a line that was raised is taken once, by its priority and with the vector that the handlers are for, and
after its acknowledgement no line is left in service.
-/
import BebasOs.Lib.Pic
import BebasOs.Lib.Refinement

namespace BebasOs.Cpu

open Pic Search Refinement

/-! ## The functions -/

def ioWait (p : Pair) : Pair := p.out 0x80 0

def picAck (irq : ℕ) (p : Pair) : Pair :=
  let p := if 8 ≤ irq then p.out 0xA0 0x20 else p
  p.out 0x20 0x20

def picRemap (p : Pair) : Pair :=
  let p := ioWait (p.out 0x20 0x11)
  let p := ioWait (p.out 0xA0 0x11)
  let p := ioWait (p.out 0x21 0x20)
  let p := ioWait (p.out 0xA1 0x28)
  let p := ioWait (p.out 0x21 4)
  let p := ioWait (p.out 0xA1 2)
  let p := ioWait (p.out 0x21 0x01)
  let p := ioWait (p.out 0xA1 0x01)
  (p.out 0x21 0xFF).out 0xA1 0xFF

/-- `out(PIC1_DATA, in(PIC1_DATA) & ~(1 << irq))`, for a line of the first controller. -/
def activate (irq : Fin 8) (p : Pair) : Pair := p.out 0x21 (p.readMask &&& ~~~((1 : UInt8) <<< UInt8.ofNat irq))

def activateKeyboardInterrupt : Pair → Pair := activate 1

/-- What `activate_timer_interrupt` does to the controllers. -/
def activateTimerInterrupt : Pair → Pair := activate 0

/-! ## The machine -/

inductive Event where
  /-- A device raises a line; line 2 is the one between the controllers. -/
  | raise (line : ℕ)
  /-- The processor takes an interrupt, if there is one. -/
  | take
  /-- The handler acknowledges the line it is for. -/
  | acknowledge
  | activateKeyboard
  | activateTimer
  /-- Both masks are set. -/
  | mask (master slave : UInt8)

/-- The line that a vector stands for. -/
def lineOf (vector : UInt8) : ℕ := if 0x28 ≤ vector.toNat then vector.toNat - 0x28 + 8 else vector.toNat - 0x20

/-- The controllers, and the line whose handler runs. The processor takes no interrupt in a handler. -/
structure Machine where
  pair : Pair
  handling : Option ℕ

def Machine.step (s : Machine) : Event → Option (Option UInt8 × Machine)
  | .raise n => some (none, { s with pair := s.pair.raise n })
  | .take =>
    match s.pair.acknowledge with
    | none => some (none, s)
    | some (v, pair) => some (some v, ⟨pair, some (lineOf v)⟩)
  | .acknowledge => s.handling.map fun n => (none, ⟨picAck n s.pair, none⟩)
  | .activateKeyboard => some (none, { s with pair := activateKeyboardInterrupt s.pair })
  | .activateTimer => some (none, { s with pair := activateTimerInterrupt s.pair })
  | .mask m k => some (none, { s with pair := (s.pair.out 0x21 m).out 0xA1 k })

/-! ## The lines -/

/-- What the controllers are for. -/
structure Lines where
  pending : ℕ → Bool
  master : UInt8
  slave : UInt8
  handling : Option ℕ

namespace Lines

/-- A line that is not masked; those of the second controller come through line 2. -/
def isOpen (t : Lines) (n : ℕ) : Bool :=
  if n < 8 then !t.master.toNat.testBit n else !t.master.toNat.testBit 2 && !t.slave.toNat.testBit (n - 8)

def wanted (t : Lines) (n : ℕ) : Bool := t.pending n && t.isOpen n

/-- By their priority, the lines of the second controller are in the place of line 2. -/
def next (t : Lines) : Option ℕ := (first t.wanted 0 2).or ((first t.wanted 8 16).or (first t.wanted 3 8))

def vector (n : ℕ) : UInt8 := if n < 8 then 0x20 + UInt8.ofNat n else 0x28 + UInt8.ofNat (n - 8)

/-- A line of the first controller is not masked any more. -/
def unmask (t : Lines) (n : Fin 8) : Lines := { t with master := t.master &&& ~~~((1 : UInt8) <<< UInt8.ofNat n) }

def step (t : Lines) : Event → Option UInt8 × Lines
  | .raise n => (none, { t with pending := Function.update t.pending n true })
  | .take =>
    match t.next with
    | none => (none, t)
    | some n => (some (vector n), { t with pending := Function.update t.pending n false, handling := some n })
  | .acknowledge => (none, { t with handling := none })
  | .activateKeyboard => (none, t.unmask 1)
  | .activateTimer => (none, t.unmask 0)
  | .mask m k => (none, { t with master := m, slave := k })

/-- Line 2 is no device's, and interrupts are taken outside of handlers. -/
def Permitted (t : Lines) : Event → Prop
  | .raise n => n < 16 ∧ n ≠ 2
  | .take => t.handling = none
  | .acknowledge => t.handling ≠ none
  | _ => True

/-- After `pic_remap`. -/
def initial : Lines := ⟨fun _ => false, 0xFF, 0xFF, none⟩

end Lines

variable {s : Machine} {t : Lines} {n : ℕ}

/-! ## The relation -/

/-- A controller after its initialization. -/
structure Ready (c : Chip) (offset cascade mask : UInt8) : Prop where
  offset : c.offset = offset
  cascade : c.cascade = cascade
  imr : c.imr = mask
  stage : c.stage = .ready
  autoEoi : c.autoEoi = false

/-- The line of the first controller through which a line comes. -/
def masterLine (n : ℕ) : ℕ := if n < 8 then n else 2

/-- The controllers hold the lines. -/
structure Latched (s : Machine) (t : Lines) : Prop where
  master : Ready s.pair.master 0x20 4 t.master
  slave : Ready s.pair.slave 0x28 2 t.slave
  requests : ∀ n < 8, s.pair.master.irr n = (decide (n ≠ 2) && t.pending n)
  slaveRequests : ∀ k < 8, s.pair.slave.irr k = t.pending (8 + k)
  handling : s.handling = t.handling
  served : ∀ m, s.pair.master.isr m = decide (t.handling.map masterLine = some m)
  slaveServed : ∀ k, s.pair.slave.isr k = decide (t.handling = some (8 + k))
  line : ∀ n, t.handling = some n → n < 16

/-- The controllers after the ten bytes, whatever they did before. -/
theorem picRemap_eq (p : Pair) : picRemap p =
    ⟨⟨0x20, 4, 0xFF, fun _ => false, fun _ => false, .ready, true, false, false⟩,
      ⟨0x28, 2, 0xFF, fun _ => false, fun _ => false, .ready, true, false, false⟩⟩ := rfl

theorem latched_picRemap (p : Pair) : Latched ⟨picRemap p, none⟩ Lines.initial := by
  rw [picRemap_eq]
  refine ⟨⟨rfl, rfl, rfl, rfl, rfl⟩, ⟨rfl, rfl, rfl, rfl, rfl⟩, fun n _ => ?_, fun _ _ => rfl, rfl,
    fun _ => rfl, fun _ => rfl,
    fun n h => nomatch h⟩
  exact (Bool.and_false _).symm

/-! ## Events -/

theorem Latched.raise (h : Latched s t) (hn : n < 16 ∧ n ≠ 2) :
    Latched { s with pair := s.pair.raise n } { t with pending := Function.update t.pending n true } := by
  obtain ⟨hm, hs, hr, hsr, hh, hv, hsv, hl⟩ := h
  unfold Pair.raise
  by_cases h8 : n < 8
  · rw [if_pos h8]
    refine ⟨⟨hm.1, hm.2, hm.3, hm.4, hm.5⟩, hs, fun m hm8 => ?_, fun k hk => ?_, hh, hv, hsv, hl⟩
    · show Function.update s.pair.master.irr n true m = (decide (m ≠ 2) && Function.update t.pending n true m)
      by_cases hmn : m = n
      · rw [hmn, Function.update_self, Function.update_self, decide_eq_true hn.2, Bool.and_self]
      · rw [Function.update_of_ne hmn, Function.update_of_ne hmn, hr m hm8]
    · show s.pair.slave.irr k = Function.update t.pending n true (8 + k)
      rw [Function.update_of_ne (by omega), hsr k hk]
  · rw [if_neg h8]
    refine ⟨hm, ⟨hs.1, hs.2, hs.3, hs.4, hs.5⟩, fun m hm8 => ?_, fun k hk => ?_, hh, hv, hsv, hl⟩
    · show s.pair.master.irr m = (decide (m ≠ 2) && Function.update t.pending n true m)
      rw [Function.update_of_ne (by omega), hr m hm8]
    · show Function.update s.pair.slave.irr (n - 8) true k = Function.update t.pending n true (8 + k)
      by_cases hkn : k = n - 8
      · rw [hkn, Nat.add_sub_cancel' (Nat.le_of_not_lt h8), Function.update_self, Function.update_self]
      · rw [Function.update_of_ne hkn, Function.update_of_ne (by omega), hsr k hk]

/-- A mask for each controller. -/
theorem Latched.mask (h : Latched s t) (m k : UInt8) :
    Latched { s with pair := (s.pair.out 0x21 m).out 0xA1 k } { t with master := m, slave := k } := by
  obtain ⟨hm, hs, hr, hsr, hh, hv, hsv, hl⟩ := h
  have hout : (s.pair.out 0x21 m).out 0xA1 k = ⟨s.pair.master.data m, s.pair.slave.data k⟩ := rfl
  rw [hout, Chip.data_of_ready hm.stage, Chip.data_of_ready hs.stage]
  exact ⟨⟨hm.1, hm.2, rfl, hm.4, hm.5⟩, ⟨hs.1, hs.2, rfl, hs.4, hs.5⟩, hr, hsr, hh, hv, hsv, hl⟩

theorem Latched.activate (h : Latched s t) (n : Fin 8) : Latched { s with pair := activate n s.pair } (t.unmask n) := by
  obtain ⟨hm, hs, hr, hsr, hh, hv, hsv, hl⟩ := h
  have hout (v : UInt8) : s.pair.out 0x21 v = ⟨s.pair.master.data v, s.pair.slave⟩ := rfl
  unfold BebasOs.Cpu.activate Pair.readMask
  rw [hout, Chip.data_of_ready hm.stage, hm.imr]
  exact ⟨⟨hm.1, hm.2, rfl, hm.4, hm.5⟩, hs, hr, hsr, hh, hv, hsv, hl⟩

/-! ## Acknowledging -/

/-- After `pic_ack` with the line of the handler, no line is in service. -/
theorem Latched.acknowledge (h : Latched s t) (hn : t.handling = some n) :
    Latched ⟨picAck n s.pair, none⟩ { t with handling := none } := by
  obtain ⟨hm, hs, hr, hsr, hh, hv, hsv, hl⟩ := h
  have hn16 := hl n hn
  have hmaster : s.pair.master.endOfInterrupt = { s.pair.master with isr := fun _ => false } := by
    refine Chip.endOfInterrupt_of_only (n := masterLine n) (by unfold masterLine; split <;> omega) fun m => ?_
    rw [hv, hn, Option.map_some]
    exact decide_eq_decide.2 ⟨fun h => (Option.some.inj h).symm, fun h => congrArg some h.symm⟩
  have hpair : picAck n s.pair =
      ⟨{ s.pair.master with isr := fun _ => false }, { s.pair.slave with isr := fun _ => false }⟩ := by
    have hcommand (c : Chip) : c.command 0x20 = c.endOfInterrupt := rfl
    unfold picAck
    by_cases h8 : 8 ≤ n
    · have hslave : s.pair.slave.endOfInterrupt = { s.pair.slave with isr := fun _ => false } := by
        refine Chip.endOfInterrupt_of_only (n := n - 8) (by omega) fun k => ?_
        rw [hsv, hn]
        exact decide_eq_decide.2 ⟨fun h => by have := Option.some.inj h; omega, fun h => congrArg some (by omega)⟩
      rw [if_pos h8]
      show (⟨s.pair.master.command 0x20, s.pair.slave.command 0x20⟩ : Pair) = _
      rw [hcommand, hcommand, hmaster, hslave]
    · have hslave : s.pair.slave = { s.pair.slave with isr := fun _ => false } := by
        have hisr : s.pair.slave.isr = fun _ => false := by
          funext k
          rw [hsv, hn]
          exact decide_eq_false fun h => by have := Option.some.inj h; omega
        rw [← hisr]
      rw [if_neg h8]
      show (⟨s.pair.master.command 0x20, s.pair.slave⟩ : Pair) = _
      rw [hcommand, hmaster, ← hslave]
  rw [hpair]
  exact ⟨⟨hm.1, hm.2, hm.3, hm.4, hm.5⟩, ⟨hs.1, hs.2, hs.3, hs.4, hs.5⟩, hr, hsr, rfl, fun _ => rfl, fun _ => rfl,
    fun n h => nomatch h⟩

/-! ## Taking an interrupt -/

theorem acknowledge_master {p : Pair} (h : p.master.next p.masterRequest = some n) (hn : n ≠ 2) :
    p.acknowledge = some (p.master.offset + UInt8.ofNat n, { p with master := p.master.serve n }) := by
  unfold Pair.acknowledge
  rw [h, Option.bind_some, if_neg (fun hc => hn hc.1)]

theorem acknowledge_slave {p : Pair} {k : ℕ} (h : p.master.next p.masterRequest = some 2)
    (hc : p.master.cascade = 4 ∧ p.slave.cascade = 2) (hk : p.slaveNext = some k) :
    p.acknowledge = some (p.slave.offset + UInt8.ofNat k, ⟨p.master.serve 2, p.slave.serve k⟩) := by
  unfold Pair.acknowledge
  rw [h, Option.bind_some, if_pos ⟨rfl, by rw [hc.1]; decide, hc.2⟩, hk]

theorem update_false_eq_and (f : ℕ → Bool) (n m : ℕ) : Function.update f n false m = (decide (m ≠ n) && f m) := by
  by_cases hm : m = n
  · rw [hm, Function.update_self, decide_eq_false (not_not_intro rfl), Bool.false_and]
  · rw [Function.update_of_ne hm, decide_eq_true hm, Bool.true_and]

/-- A line of the first controller goes into service. -/
theorem Latched.serve_master (h : Latched s t) (hidle : t.handling = none) (hn : n < 8) :
    Latched ⟨{ s.pair with master := s.pair.master.serve n }, some n⟩
      { t with pending := Function.update t.pending n false, handling := some n } := by
  obtain ⟨hm, hs, hr, hsr, hh, hv, hsv, hl⟩ := h
  have hauto : s.pair.master.autoEoi = false := hm.autoEoi
  refine ⟨⟨hm.1, hm.2, hm.3, hm.4, hm.5⟩, hs, fun m hm8 => ?_, fun k hk => ?_, rfl, fun m => ?_, fun k => ?_,
    fun m hmn => ?_⟩
  · show Function.update s.pair.master.irr n false m = (decide (m ≠ 2) && Function.update t.pending n false m)
    rw [update_false_eq_and, update_false_eq_and, hr m hm8, Bool.and_left_comm]
  · show s.pair.slave.irr k = Function.update t.pending n false (8 + k)
    rw [Function.update_of_ne (by omega), hsr k hk]
  · show (if s.pair.master.autoEoi then _ else Function.update s.pair.master.isr n true) m =
      decide (some (masterLine n) = some m)
    rw [hauto, masterLine, if_pos hn]
    by_cases hmn : m = n
    · rw [hmn, if_neg (by decide), Function.update_self, decide_eq_true rfl]
    · rw [if_neg (by decide), Function.update_of_ne hmn, hv, hidle]
      exact (decide_eq_false fun hc => hmn (Option.some.inj hc).symm).symm
  · show s.pair.slave.isr k = decide (some n = some (8 + k))
    rw [hsv, hidle, decide_eq_false (fun hc => nomatch hc), decide_eq_false]
    exact fun hc => by have := Option.some.inj hc; omega
  · obtain rfl := Option.some.inj hmn
    omega

/-- A line of the second one does, and line 2 with it. -/
theorem Latched.serve_slave {k : ℕ} (h : Latched s t) (hidle : t.handling = none) (hk : k < 8) :
    Latched ⟨⟨s.pair.master.serve 2, s.pair.slave.serve k⟩, some (8 + k)⟩
      { t with pending := Function.update t.pending (8 + k) false, handling := some (8 + k) } := by
  obtain ⟨hm, hs, hr, hsr, hh, hv, hsv, hl⟩ := h
  have hauto : s.pair.master.autoEoi = false := hm.autoEoi
  have hsauto : s.pair.slave.autoEoi = false := hs.autoEoi
  refine ⟨⟨hm.1, hm.2, hm.3, hm.4, hm.5⟩, ⟨hs.1, hs.2, hs.3, hs.4, hs.5⟩, fun m hm8 => ?_, fun j hj => ?_,
    rfl, fun m => ?_,
    fun j => ?_, fun m hmk => ?_⟩
  · show Function.update s.pair.master.irr 2 false m = (decide (m ≠ 2) && Function.update t.pending (8 + k) false m)
    rw [Function.update_of_ne (show m ≠ 8 + k by omega), update_false_eq_and, hr m hm8, ← Bool.and_assoc, Bool.and_self]
  · show Function.update s.pair.slave.irr k false j = Function.update t.pending (8 + k) false (8 + j)
    rw [update_false_eq_and, update_false_eq_and, hsr j hj]
    exact congrArg (· && _) (decide_eq_decide.2 (by omega))
  · show (if s.pair.master.autoEoi then _ else Function.update s.pair.master.isr 2 true) m =
      decide (some (masterLine (8 + k)) = some m)
    rw [hauto, masterLine, if_neg (show ¬ 8 + k < 8 by omega)]
    by_cases hm2 : m = 2
    · rw [hm2, if_neg (by decide), Function.update_self, decide_eq_true rfl]
    · rw [if_neg (by decide), Function.update_of_ne hm2, hv, hidle]
      exact (decide_eq_false fun hc => hm2 (Option.some.inj hc).symm).symm
  · show (if s.pair.slave.autoEoi then _ else Function.update s.pair.slave.isr k true) j =
      decide (some (8 + k) = some (8 + j))
    rw [hsauto]
    by_cases hjk : j = k
    · rw [hjk, if_neg (by decide), Function.update_self, decide_eq_true rfl]
    · rw [if_neg (by decide), Function.update_of_ne hjk, hsv, hidle, decide_eq_false (fun hc => nomatch hc),
        decide_eq_false]
      exact fun hc => by have := Option.some.inj hc; omega
  · obtain rfl := Option.some.inj hmk
    omega

theorem Latched.masterRequest (h : Latched s t) (hn : n < 8) (h2 : n ≠ 2) : s.pair.masterRequest n = t.wanted n := by
  unfold Pair.masterRequest Chip.request Chip.masked Lines.wanted Lines.isOpen
  rw [if_neg h2, h.requests n hn, h.master.imr, if_pos hn, decide_eq_true h2, Bool.true_and]

theorem Latched.slaveNext (h : Latched s t) (hidle : t.handling = none) :
    s.pair.slaveNext = first (fun k => t.pending (8 + k) && !t.slave.toNat.testBit k) 0 8 := by
  have hisr (m : ℕ) : s.pair.slave.isr m = false := by
    rw [h.slaveServed, hidle]
    exact decide_eq_false fun hc => nomatch hc
  unfold Pair.slaveNext
  rw [Chip.next_of_idle hisr]
  refine first_congr fun k _ hk => ?_
  unfold Chip.request Chip.masked
  rw [h.slaveRequests k hk, h.slave.imr]

/-- What the second controller asks for through line 2. -/
theorem Latched.slaveWanted (h : Latched s t) (hidle : t.handling = none) :
    first t.wanted 8 16 = if s.pair.masterRequest 2 then s.pair.slaveNext.map (8 + ·) else none := by
  have hwanted (k : ℕ) : t.wanted (8 + k) =
      (t.pending (8 + k) && (!t.master.toNat.testBit 2 && !t.slave.toNat.testBit k)) := by
    unfold Lines.wanted Lines.isOpen
    rw [if_neg (by omega), Nat.add_sub_cancel_left]
  have hrequest : s.pair.masterRequest 2 = (s.pair.slaveNext.isSome && !t.master.toNat.testBit 2) := by
    unfold Pair.masterRequest Chip.masked
    rw [if_pos rfl, h.master.imr]
  rw [show first t.wanted 8 16 = first t.wanted (8 + 0) (8 + 8) from rfl, first_shift, hrequest, h.slaveNext hidle]
  simp only [hwanted]
  cases t.master.toNat.testBit 2 with
  | true =>
    -- line 2 is masked
    have hnone : first (fun k => t.pending (8 + k) && (!true && !t.slave.toNat.testBit k)) 0 8 = none :=
      first_eq_none.2 fun k _ _ => by rw [Bool.not_true, Bool.false_and, Bool.and_false]
    rw [hnone, Bool.not_true, Bool.and_false]
    rfl
  | false =>
    simp only [Bool.not_false, Bool.true_and, Bool.and_true]
    rcases first (fun k => t.pending (8 + k) && !t.slave.toNat.testBit k) 0 8 with _ | k <;> rfl

/-- The processor takes the line with the highest priority. -/
theorem Latched.take (h : Latched s t) (hidle : t.handling = none) :
    match t.next with
    | none => s.pair.acknowledge = none
    | some n => n < 16 ∧ ∃ pair, s.pair.acknowledge = some (Lines.vector n, pair) ∧
        Latched ⟨pair, some n⟩ { t with pending := Function.update t.pending n false, handling := some n } := by
  have hisr (m : ℕ) : s.pair.master.isr m = false := by
    rw [h.served, hidle]
    exact decide_eq_false fun hc => nomatch hc
  have hlow : first s.pair.masterRequest 0 2 = first t.wanted 0 2 :=
    first_congr fun i _ hi => h.masterRequest (by omega) (by omega)
  have hhigh : first s.pair.masterRequest 3 8 = first t.wanted 3 8 :=
    first_congr fun i hi hi8 => h.masterRequest hi8 (by omega)
  have hcascade : first s.pair.masterRequest 2 8 =
      (first s.pair.masterRequest 2 3).or (first s.pair.masterRequest 3 8) :=
    first_append 3 (by decide) (by decide)
  have hnext : s.pair.master.next s.pair.masterRequest =
      (first t.wanted 0 2).or ((first s.pair.masterRequest 2 3).or (first t.wanted 3 8)) := by
    rw [Chip.next_of_idle hisr, first_append 2 (by decide) (by decide), hcascade, hlow, hhigh]
  have hserve {m : ℕ} (hm : m < 8) (h2 : m ≠ 2) (hsome : s.pair.master.next s.pair.masterRequest = some m) :
      m < 16 ∧ ∃ pair, s.pair.acknowledge = some (Lines.vector m, pair) ∧
        Latched ⟨pair, some m⟩ { t with pending := Function.update t.pending m false, handling := some m } := by
    refine ⟨by omega, _, ?_, h.serve_master hidle hm⟩
    rw [acknowledge_master hsome h2, h.master.offset, Lines.vector, if_pos hm]
  unfold Lines.next
  rcases h02 : first t.wanted 0 2 with _ | m
  · rw [h02, Option.none_or] at hnext
    rw [Option.none_or, h.slaveWanted hidle]
    cases hreq : s.pair.masterRequest 2 with
    | true =>
      -- the second controller asks
      have hsome : s.pair.slaveNext.isSome = true := by
        unfold Pair.masterRequest at hreq
        rw [if_pos rfl] at hreq
        exact (Bool.and_eq_true_iff.1 hreq).1
      obtain ⟨k, hk⟩ := Option.isSome_iff_exists.1 hsome
      have hk8 : k < 8 := by
        rw [h.slaveNext hidle] at hk
        exact (first_eq_some.1 hk).2.1
      rw [first_one hreq, Option.some_or] at hnext
      rw [if_pos rfl, hk, Option.map_some, Option.some_or]
      refine ⟨by omega, _, ?_, h.serve_slave hidle hk8⟩
      rw [acknowledge_slave hnext ⟨h.master.cascade, h.slave.cascade⟩ hk, h.slave.offset, Lines.vector,
        if_neg (by omega),
        Nat.add_sub_cancel_left]
    | false =>
      have hnone : first s.pair.masterRequest 2 3 = none := first_eq_none.2 fun i h1 h2 => by
        obtain rfl : i = 2 := by omega
        exact hreq
      rw [hnone, Option.none_or] at hnext
      rw [if_neg (by decide), Option.none_or]
      rcases h38 : first t.wanted 3 8 with _ | m
      · rw [h38] at hnext
        unfold Pair.acknowledge
        rw [hnext]
        rfl
      · obtain ⟨h3, h8, -⟩ := first_eq_some.1 h38
        exact hserve h8 (by omega) (hnext.trans h38)
  · obtain ⟨-, h2, -⟩ := first_eq_some.1 h02
    rw [h02, Option.some_or] at hnext
    exact hserve (by omega) (by omega) hnext

/-! ## Runs -/

theorem lineOf_vector : ∀ n < 16, lineOf (Lines.vector n) = n := by decide

/-- The controllers do what they are for. -/
theorem step_refines : Refines Machine.step Lines.step Lines.Permitted Latched Eq := by
  intro s t e h hP
  cases e with
  | raise n => exact ⟨_, _, rfl, rfl, h.raise hP⟩
  | take =>
    have htake := h.take hP
    unfold Machine.step Lines.step
    rcases hnext : t.next with _ | n
    · rw [hnext] at htake
      simp only [show s.pair.acknowledge = none from htake]
      exact ⟨_, _, rfl, rfl, h⟩
    · rw [hnext] at htake
      obtain ⟨hn, pair, hack, hlatched⟩ := htake
      simp only [hack]
      refine ⟨_, _, rfl, rfl, ?_⟩
      rw [lineOf_vector n hn]
      exact hlatched
  | acknowledge =>
    obtain ⟨n, hn⟩ := Option.ne_none_iff_exists'.1 hP
    refine ⟨_, _, ?_, rfl, h.acknowledge hn⟩
    unfold Machine.step
    rw [h.handling, hn]
    rfl
  | activateKeyboard => exact ⟨_, _, rfl, rfl, h.activate 1⟩
  | activateTimer => exact ⟨_, _, rfl, rfl, h.activate 0⟩
  | mask m k => exact ⟨_, _, rfl, rfl, h.mask m k⟩

/-- A line is raised that is not pending yet. -/
def newly (n : ℕ) (t : Lines) : Event → ℕ
  | .raise m => if m = n ∧ t.pending n = false then 1 else 0
  | _ => 0

/-- The times that this happens. -/
def fresh (n : ℕ) : Lines → List Event → ℕ
  | _, [] => 0
  | t, e :: es => newly n t e + fresh n (t.step e).2 es

/-- A line that is taken once more, or is still pending. -/
def due (t : Lines) (n : ℕ) : ℕ := if t.pending n then 1 else 0

theorem next_lt (h : t.next = some n) : n < 16 ∧ t.wanted n = true := by
  unfold Lines.next at h
  rcases Option.or_eq_some_iff.1 h with h | ⟨-, h⟩
  · exact ⟨by have := (first_eq_some.1 h).2.1; omega, (first_eq_some.1 h).2.2.1⟩
  · rcases Option.or_eq_some_iff.1 h with h | ⟨-, h⟩
    · exact ⟨(first_eq_some.1 h).2.1, (first_eq_some.1 h).2.2.1⟩
    · exact ⟨by have := (first_eq_some.1 h).2.1; omega, (first_eq_some.1 h).2.2.1⟩

theorem vector_inj {m : ℕ} (hm : m < 16) (hn : n < 16) (h : Lines.vector m = Lines.vector n) : m = n := by
  rw [← lineOf_vector m hm, h, lineOf_vector n hn]

/-- One event: what is due and what is raised is taken or due. -/
theorem step_due (hn : n < 16) (e : Event) :
    (if (t.step e).1 = some (Lines.vector n) then 1 else 0) + due (t.step e).2 n = due t n + newly n t e := by
  cases e with
  | raise m =>
    have hupdate : (Function.update t.pending m true) n = (decide (m = n) || t.pending n) := by
      by_cases hmn : n = m
      · rw [hmn, Function.update_self, decide_eq_true rfl, Bool.true_or]
      · rw [Function.update_of_ne hmn, decide_eq_false (Ne.symm hmn), Bool.false_or]
    simp only [Lines.step, due, newly, hupdate, reduceCtorEq, if_false]
    by_cases hmn : m = n <;> cases t.pending n <;> simp [hmn]
  | take =>
    rcases hnext : t.next with _ | m
    · simp only [Lines.step, hnext, newly, reduceCtorEq, if_false]
      omega
    · obtain ⟨hm, hw⟩ := next_lt hnext
      have hp : t.pending m = true := (Bool.and_eq_true_iff.1 hw).1
      simp only [Lines.step, hnext, due, newly, Option.some.injEq]
      by_cases hmn : m = n
      · rw [hmn, if_pos rfl, Function.update_self, if_neg (by decide), ← hmn, if_pos hp]
      · rw [if_neg (fun h => hmn (vector_inj hm hn h)), Function.update_of_ne (Ne.symm hmn)]
        omega
  | acknowledge => exact Nat.zero_add _
  | activateKeyboard => exact Nat.zero_add _
  | activateTimer => exact Nat.zero_add _
  | mask m k => exact Nat.zero_add _

/-- Nothing is lost and nothing taken twice. -/
theorem count_taken (hn : n < 16) (es : List Event) : ∀ t : Lines,
    (trace Lines.step t es).1.count (some (Lines.vector n)) + due (trace Lines.step t es).2 n =
      due t n + fresh n t es := by
  induction es with
  | nil =>
    intro t
    exact Nat.zero_add _
  | cons e es ih =>
    intro t
    have hstep := step_due (t := t) hn e
    have hrest := ih (t.step e).2
    rw [trace, List.count_cons, fresh]
    simp only [beq_iff_eq]
    omega

/-- Only lines 0 and 1 are let through. -/
def Guarded (t : Lines) : Prop := ∀ n, 2 ≤ n → t.master.toNat.testBit n = true ∨ 8 ≤ n

theorem Guarded.unmask (h : Guarded t) {n : Fin 8} (hn : n < 2) : Guarded (t.unmask n) := by
  intro j hj
  by_cases hj8 : j < 8
  · have hmask : ∀ n : Fin 8, n < 2 → ∀ j < 8, 2 ≤ j → (~~~((1 : UInt8) <<< UInt8.ofNat n)).toNat.testBit j = true := by
      decide
    refine .inl ?_
    rw [Lines.unmask, UInt8.toNat_and, Nat.testBit_and, hmask n hn j hj8 hj, Bool.and_true]
    exact (h j hj).resolve_right (by omega)
  · exact .inr (by omega)

theorem Guarded.next (h : Guarded t) (hn : t.next = some n) : n < 2 := by
  obtain ⟨h16, hw⟩ := next_lt hn
  have hopen : t.isOpen n = true := (Bool.and_eq_true_iff.1 hw).2
  by_contra hlt
  unfold Lines.isOpen at hopen
  by_cases h8 : n < 8
  · rw [if_pos h8, (h n (by omega)).resolve_right (by omega)] at hopen
    cases hopen
  · rw [if_neg h8, (h 2 le_rfl).resolve_right (by decide)] at hopen
    cases hopen

/-- With the masks of the kernel only its two vectors are taken. -/
theorem Guarded.answers {es : List Event} (hm : ∀ m k, Event.mask m k ∉ es) : ∀ {t : Lines}, Guarded t →
    ∀ v, some v ∈ (trace Lines.step t es).1 → v = 0x20 ∨ v = 0x21 := by
  induction es with
  | nil => exact fun _ v hv => nomatch hv
  | cons e es ih =>
    intro t h v hv
    have hrest := ih (t := (t.step e).2) fun m k hmk => hm m k (List.mem_cons_of_mem _ hmk)
    rw [trace] at hv
    rcases List.mem_cons.1 hv with hv | hv
    · cases e with
      | take =>
        rcases hnext : t.next with _ | n
        · simp only [Lines.step, hnext] at hv
          cases hv
        · have hn := h.next hnext
          simp only [Lines.step, hnext, Option.some.injEq] at hv
          rw [hv]
          interval_cases n
          · exact .inl rfl
          · exact .inr rfl
      | raise _ => cases hv
      | acknowledge => cases hv
      | activateKeyboard => cases hv
      | activateTimer => cases hv
      | mask _ _ => cases hv
    · refine hrest ?_ v hv
      cases e with
      | take =>
        unfold Lines.step
        rcases t.next with _ | n <;> exact h
      | activateKeyboard => exact h.unmask (by decide)
      | activateTimer => exact h.unmask (by decide)
      | raise _ => exact h
      | acknowledge => exact h
      | mask m k => exact absurd List.mem_cons_self (hm m k)

/-- From `pic_remap` on, for devices that raise lines at any time, any masks, and handlers that acknowledge their line:
each time a line is raised that is not pending yet it is taken once, with its vector, or still pending; outside of
handlers no line is in service. With the masks of the kernel only the vectors of the timer and the keyboard are
taken. -/
theorem run_interrupts (p : Pair) {es : List Event} (hes : Allowed Lines.step Lines.Permitted Lines.initial es) :
    ∃ answers s, Refinement.run Machine.step ⟨picRemap p, none⟩ es = some (answers, s) ∧
      (∀ n < 16, answers.count (some (Lines.vector n)) + due (trace Lines.step Lines.initial es).2 n =
        fresh n Lines.initial es) ∧
      Latched s (trace Lines.step Lines.initial es).2 ∧
      (s.handling = none → ∀ m, s.pair.master.isr m = false ∧ s.pair.slave.isr m = false) ∧
      ((∀ m k, .mask m k ∉ es) → ∀ v, some v ∈ answers → v = 0x20 ∨ v = 0x21) := by
  obtain ⟨answers, s, hrun, hanswers, h⟩ := step_refines.run (latched_picRemap p) hes
  rw [List.forall₂_eq_eq_eq] at hanswers
  subst hanswers
  refine ⟨_, s, hrun, fun n hn => ?_, h, fun hnone m => ?_, fun hm => ?_⟩
  · have hcount := count_taken hn es Lines.initial
    have hdue : due Lines.initial n = 0 := rfl
    omega
  · rw [h.served, h.slaveServed, ← h.handling, hnone]
    exact ⟨decide_eq_false fun hc => (nomatch hc), decide_eq_false fun hc => (nomatch hc)⟩
  · refine Guarded.answers hm fun n hn => ?_
    have hbits : ∀ n < 8, 2 ≤ n → Lines.initial.master.toNat.testBit n = true := by decide
    by_cases h8 : n < 8
    · exact .inl (hbits n h8 hn)
    · exact .inr (by omega)

/-- The keyboard is activated and then the timer; both lines are raised in a handler of the other. -/
def sampleEvents : List Event :=
  [.activateKeyboard, .raise 1, .take, .activateTimer, .raise 0, .raise 1, .acknowledge, .take, .acknowledge,
    .take, .acknowledge]

theorem sampleEvents_allowed : Allowed Lines.step Lines.Permitted Lines.initial sampleEvents :=
  ⟨trivial, ⟨by decide, by decide⟩, rfl, trivial, ⟨by decide, by decide⟩, ⟨by decide, by decide⟩,
    Option.some_ne_none 1, rfl,
    Option.some_ne_none 0, rfl, Option.some_ne_none 1, trivial⟩

theorem run_interrupts_sampleEvents : ∃ answers s,
    Refinement.run Machine.step ⟨picRemap ⟨⟨0, 0, 0, fun _ => true, fun _ => true, .ready, false, false, false⟩,
      ⟨0, 0, 0, fun _ => true, fun _ => true, .icw3, false, false, true⟩⟩, none⟩ sampleEvents = some (answers, s) ∧
    (∀ n < 16, answers.count (some (Lines.vector n)) + due (trace Lines.step Lines.initial sampleEvents).2 n =
      fresh n Lines.initial sampleEvents) ∧
    Latched s (trace Lines.step Lines.initial sampleEvents).2 ∧
    (s.handling = none → ∀ m, s.pair.master.isr m = false ∧ s.pair.slave.isr m = false) ∧
    ((∀ m k, .mask m k ∉ sampleEvents) → ∀ v, some v ∈ answers → v = 0x20 ∨ v = 0x21) :=
  run_interrupts _ sampleEvents_allowed

end BebasOs.Cpu
