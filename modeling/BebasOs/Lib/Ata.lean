/-
A drive behind the ports of an ATA controller: transfers by programmed input and output, with block addresses of 28 bits
and blocks of 256 words. How long the drive is busy is counted in reads of its status and may be any number; until it is
done it takes no byte and no word.
-/
import BebasOs.Lib.Bytes

namespace Ata

open Bytes

/-! ## Words in memory -/

/-- Two bytes of a memory, least significant byte first. -/
def wordAt (m : ℕ → UInt8) (a : ℕ) : UInt16 := u16.symm #v[m a, m (a + 1)]

def putWord (m : ℕ → UInt8) (a : ℕ) (w : UInt16) : ℕ → UInt8 := fun x =>
  if x = a then (u16 w).get 0 else if x = a + 1 then (u16 w).get 1 else m x

theorem putWord_wordAt (m m' : ℕ → UInt8) (a b x : ℕ) :
    putWord m a (wordAt m' b) x = if x = a then m' b else if x = a + 1 then m' (b + 1) else m x := by
  unfold putWord wordAt
  rw [Equiv.apply_symm_apply]
  rfl

/-! ## The drive -/

/-- What the drive is doing: block `lba` is in transfer, `left` blocks are to go with it, `word` words of it are
done. -/
inductive Phase where
  | idle
  | input (lba left word : ℕ)
  | output (lba left word : ℕ)
deriving DecidableEq

structure Drive where
  /-- The bytes of the medium; from `size` on, what the data port delivers for blocks that there are not. -/
  byte : ℕ → UInt8
  size : ℕ
  count : UInt8
  low : UInt8
  mid : UInt8
  high : UInt8
  select : UInt8
  phase : Phase
  /-- The reads of the status that still find the drive busy. -/
  busy : ℕ
  /-- How long each operation keeps the drive busy, and the number of operations so far. -/
  delay : ℕ → ℕ
  begun : ℕ

namespace Drive

/-- The block address in the registers. -/
def lba (d : Drive) : ℕ :=
  d.low.toNat + 256 * d.mid.toNat + 65536 * d.high.toNat + 16777216 * (d.select.toNat % 16)

/-- The block count in its register; 0 stands for 256. -/
def blocks (d : Drive) : ℕ := if d.count = 0 then 256 else d.count.toNat

def enter (d : Drive) (phase : Phase) : Drive :=
  { d with phase := phase, busy := d.delay d.begun, begun := d.begun + 1 }

/-- The status: busy, or ready and perhaps with data to transfer. -/
def status (d : Drive) : UInt8 := if d.busy ≠ 0 then 0x80 else if d.phase = .idle then 0x40 else 0x48

def readStatus (d : Drive) : UInt8 × Drive := (d.status, { d with busy := d.busy - 1 })

/-- A byte to a port. -/
def outByte (d : Drive) (port : UInt16) (v : UInt8) : Drive :=
  if d.busy ≠ 0 then d
  else if port = 0x1F2 then { d with count := v }
  else if port = 0x1F3 then { d with low := v }
  else if port = 0x1F4 then { d with mid := v }
  else if port = 0x1F5 then { d with high := v }
  else if port = 0x1F6 then { d with select := v }
  else if port = 0x1F7 then
    if v = 0x20 then d.enter (.input d.lba d.blocks 0)
    else if v = 0x30 then d.enter (.output d.lba d.blocks 0)
    else d
  else d

/-- A word from the data port. -/
def inWord (d : Drive) : UInt16 × Drive :=
  match d.phase with
  | .input lba left word =>
    if d.busy ≠ 0 then (0, d)
    else (wordAt d.byte (512 * lba + 2 * word),
      if word + 1 < 256 then { d with phase := .input lba left (word + 1) }
      else if left ≤ 1 then { d with phase := .idle }
      else d.enter (.input (lba + 1) (left - 1) 0))
  | _ => (0, d)

/-- A word to the data port; the medium keeps what lies inside of it. -/
def outWord (d : Drive) (w : UInt16) : Drive :=
  match d.phase with
  | .output lba left word =>
    if d.busy ≠ 0 then d
    else
      let stored := putWord d.byte (512 * lba + 2 * word) w
      let d := { d with byte := fun a => if a < d.size then stored a else d.byte a }
      if word + 1 < 256 then { d with phase := .output lba left (word + 1) }
      else if left ≤ 1 then d.enter .idle
      else d.enter (.output (lba + 1) (left - 1) 0)
  | _ => d

variable {d : Drive} {L left word : ℕ}

/-! ## What the host sees -/

theorem status_busy (h : d.busy ≠ 0) : d.status = 0x80 := if_pos h

/-- A drive that is not busy is ready. -/
theorem status_ready (h : d.busy = 0) : d.status &&& 0x80 = 0 ∧ d.status &&& 0x40 ≠ 0 := by
  unfold status
  rw [if_neg (not_not_intro h)]
  split <;> decide

theorem readStatus_idle (h : d.busy = 0) : d.readStatus.2 = d := by
  unfold readStatus
  rw [h]
  obtain ⟨⟩ := d
  cases h
  rfl

theorem inWord_inside (hp : d.phase = .input L left word) (hb : d.busy = 0) (hw : word + 1 < 256) :
    d.inWord = (wordAt d.byte (512 * L + 2 * word), { d with phase := .input L left (word + 1) }) := by
  unfold inWord
  simp only [hp, if_neg (not_not_intro hb), if_pos hw]

theorem inWord_last (hp : d.phase = .input L left 255) (hb : d.busy = 0) :
    d.inWord = (wordAt d.byte (512 * L + 510),
      if left ≤ 1 then { d with phase := .idle } else d.enter (.input (L + 1) (left - 1) 0)) := by
  unfold inWord
  simp only [hp, if_neg (not_not_intro hb), Nat.lt_irrefl, if_false, Nat.reduceAdd, Nat.reduceMul]

/-- The drive with a word stored. -/
def stored (d : Drive) (a : ℕ) (w : UInt16) : Drive :=
  { d with byte := fun x => if x < d.size then putWord d.byte a w x else d.byte x }

theorem outWord_inside (hp : d.phase = .output L left word) (hb : d.busy = 0) (hw : word + 1 < 256) (w : UInt16) :
    d.outWord w = { d.stored (512 * L + 2 * word) w with phase := .output L left (word + 1) } := by
  unfold outWord stored
  simp only [hp, if_neg (not_not_intro hb), if_pos hw]

theorem outWord_last (hp : d.phase = .output L left 255) (hb : d.busy = 0) (w : UInt16) :
    d.outWord w = (d.stored (512 * L + 510) w).enter (if left ≤ 1 then .idle else .output (L + 1) (left - 1) 0) := by
  unfold outWord stored
  simp only [hp, if_neg (not_not_intro hb), Nat.lt_irrefl, if_false, Nat.reduceAdd, Nat.reduceMul]
  split <;> rfl

/-! ## Commands -/

/-- The registers of a command, one after the other. -/
def command (d : Drive) (select count low mid high cmd : UInt8) : Drive :=
  (((((d.outByte 0x1F6 select).outByte 0x1F2 count).outByte 0x1F3 low).outByte 0x1F4 mid).outByte 0x1F5 high).outByte
    0x1F7 cmd

/-- The drive with the registers of a command. -/
def addressed (d : Drive) (select count low mid high : UInt8) : Drive :=
  { d with select := select, count := count, low := low, mid := mid, high := high }

theorem command_eq (hb : d.busy = 0) (select count low mid high cmd : UInt8) :
    d.command select count low mid high cmd =
      let d := d.addressed select count low mid high
      if cmd = 0x20 then d.enter (.input d.lba d.blocks 0)
      else if cmd = 0x30 then d.enter (.output d.lba d.blocks 0)
      else d := by
  unfold command outByte addressed
  simp [hb]

end Drive

end Ata
