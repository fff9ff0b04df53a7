/-
`disk.c`: blocks read and written word by word through the ports of the controller. However long the drive is busy each
time, a call moves exactly its blocks, so any calls one after the other find the image that `read_blocks` and
`write_blocks` are taken for.
-/
import BebasOs.Fat32.Disk
import BebasOs.Lib.Ata
import BebasOs.Lib.Refinement

namespace BebasOs.Driver

open Bytes Ata Refinement Fat32

/-! ## The calls -/

def ataStatusBsy : UInt8 := 0x80
def ataStatusRdy : UInt8 := 0x40

/-- `ATA_busy_wait`. -/
def ataBusyWait : (fuel : ℕ) → Drive → Option Drive
  | 0, _ => none
  | fuel + 1, d =>
    let (status, d) := d.readStatus
    if status &&& ataStatusBsy ≠ 0 then ataBusyWait fuel d else some d

/-- `ATA_DRQ_wait`. It waits for the ready bit, not for the one its name has. -/
def ataDrqWait : (fuel : ℕ) → Drive → Option Drive
  | 0, _ => none
  | fuel + 1, d =>
    let (status, d) := d.readStatus
    if status &&& ataStatusRdy = 0 then ataDrqWait fuel d else some d

/-- The six stores to the ports that start a transfer. -/
def startTransfer (logicalBlockAddress : UInt32) (blockCount command : UInt8) (d : Drive) : Drive :=
  d.command ((0xE0 : UInt8) ||| (logicalBlockAddress >>> 24 &&& 0xF).toUInt8) blockCount logicalBlockAddress.toUInt8
    (logicalBlockAddress >>> 8).toUInt8 (logicalBlockAddress >>> 16).toUInt8 command

/-- The words of a block into memory at `target`, from word `j` on with `n` to go. -/
def readWords (target : ℕ) : (n j : ℕ) → (ℕ → UInt8) → Drive → (ℕ → UInt8) × Drive
  | 0, _, m, d => (m, d)
  | n + 1, j, m, d =>
    let (w, d) := d.inWord
    readWords target n (j + 1) (putWord m (target + 2 * j) w) d

/-- The loop over the blocks, from block `i` on with `n` to go. -/
def readLoop (fuel : ℕ) : (n i : ℕ) → (ℕ → UInt8) → Drive → Option ((ℕ → UInt8) × Drive)
  | 0, _, m, d => some (m, d)
  | n + 1, i, m, d =>
    (ataBusyWait fuel d).bind fun d => (ataDrqWait fuel d).bind fun d =>
      let (m, d) := readWords (512 * i) 256 0 m d
      readLoop fuel n (i + 1) m d

/-- `read_blocks` into the memory at `ptr`. -/
def readBlocks (fuel : ℕ) (ptr : ℕ → UInt8) (logicalBlockAddress : UInt32) (blockCount : UInt8) (d : Drive) :
    Option ((ℕ → UInt8) × Drive) :=
  (ataBusyWait fuel d).bind fun d =>
    readLoop fuel blockCount.toNat 0 ptr (startTransfer logicalBlockAddress blockCount 0x20 d)

def writeWords (ptr : ℕ → UInt8) (i : ℕ) : (n j : ℕ) → Drive → Drive
  | 0, _, d => d
  | n + 1, j, d => writeWords ptr i n (j + 1) (d.outWord (wordAt ptr (2 * (256 * i + j))))

def writeLoop (fuel : ℕ) (ptr : ℕ → UInt8) : (n i : ℕ) → Drive → Option Drive
  | 0, _, d => some d
  | n + 1, i, d =>
    (ataBusyWait fuel d).bind fun d => (ataDrqWait fuel d).bind fun d =>
      writeLoop fuel ptr n (i + 1) (writeWords ptr i 256 0 d)

/-- `write_blocks` from the memory at `ptr`. -/
def writeBlocks (fuel : ℕ) (ptr : ℕ → UInt8) (logicalBlockAddress : UInt32) (blockCount : UInt8) (d : Drive) :
    Option Drive :=
  (ataBusyWait fuel d).bind fun d =>
    writeLoop fuel ptr blockCount.toNat 0 (startTransfer logicalBlockAddress blockCount 0x30 d)

variable {fuel L left : ℕ} {d : Drive} {m ptr : ℕ → UInt8}

/-! ## Waiting -/

/-- The drive once it is done. -/
def awaited (d : Drive) : Drive := { d with busy := 0 }

theorem awaited_of_idle (h : d.busy = 0) : awaited d = d := by
  unfold awaited
  rw [← h]

theorem ataBusyWait_succ (fuel : ℕ) (d : Drive) : ataBusyWait (fuel + 1) d =
    if d.status &&& 0x80 ≠ 0 then ataBusyWait fuel d.readStatus.2 else some d.readStatus.2 := rfl

theorem ataBusyWait_eq (h : d.busy < fuel) : ataBusyWait fuel d = some (awaited d) := by
  induction fuel generalizing d with
  | zero => omega
  | succ fuel ih =>
    rw [ataBusyWait_succ]
    by_cases hb : d.busy = 0
    · rw [if_neg (not_not_intro (Drive.status_ready hb).1), Drive.readStatus_idle hb, awaited_of_idle hb]
    · rw [if_pos (by rw [Drive.status_busy hb]; decide)]
      exact ih (show d.busy - 1 < fuel by omega)

theorem ataDrqWait_succ (fuel : ℕ) (d : Drive) : ataDrqWait (fuel + 1) d =
    if d.status &&& 0x40 = 0 then ataDrqWait fuel d.readStatus.2 else some d.readStatus.2 := rfl

theorem ataDrqWait_eq (hf : 0 < fuel) (h : d.busy = 0) : ataDrqWait fuel d = some d := by
  obtain ⟨fuel, rfl⟩ : ∃ n, fuel = n + 1 := ⟨fuel - 1, by omega⟩
  rw [ataDrqWait_succ, if_neg (Drive.status_ready h).2, Drive.readStatus_idle h]

/-! ## One block -/

/-- A word more of a range of memory. -/
theorem putWord_range (lo hi : ℕ) (m src : ℕ → UInt8) (o : ℕ) (h : lo + 2 ≤ hi) (a : ℕ) :
    (if lo + 2 ≤ a ∧ a < hi then src (o + 2 + (a - (lo + 2))) else putWord m lo (wordAt src o) a) =
      if lo ≤ a ∧ a < hi then src (o + (a - lo)) else m a := by
  rw [putWord_wordAt]
  split_ifs with h1 h2 h3 h4 h5 h6 h7 <;> first | omega | rfl | (congr 1; omega)

theorem readWords_eq (target : ℕ) : ∀ (n j : ℕ) (m : ℕ → UInt8) (d : Drive), d.phase = .input L left j → d.busy = 0 →
    j + n = 255 → readWords target (n + 1) j m d =
      (fun a =>
          if target + 2 * j ≤ a ∧ a < target + 512 then d.byte (512 * L + 2 * j + (a - (target + 2 * j))) else m a,
        if left ≤ 1 then { d with phase := .idle } else d.enter (.input (L + 1) (left - 1) 0))
  | 0, j, m, d, hp, hb, hj => by
    obtain rfl : j = 255 := by omega
    rw [readWords, Drive.inWord_last hp hb]
    simp only [readWords]
    refine Prod.ext (funext fun a => ?_) rfl
    have h := putWord_range (target + 510) (target + 512) m d.byte (512 * L + 510) (by omega) a
    rw [if_neg (by omega)] at h
    exact h
  | n + 1, j, m, d, hp, hb, hj => by
    rw [readWords, Drive.inWord_inside hp hb (by omega)]
    simp only
    rw [readWords_eq target n (j + 1) _ { d with phase := .input L left (j + 1) } rfl hb (by omega)]
    refine Prod.ext (funext fun a => ?_) rfl
    exact putWord_range (target + 2 * j) (target + 512) m d.byte (512 * L + 2 * j) (by omega) a

/-- The medium with a range of memory written to it. -/
def overlaid (d : Drive) (src : ℕ → UInt8) (o lo hi : ℕ) : Drive :=
  { d with byte := fun x => if x < d.size ∧ lo ≤ x ∧ x < hi then src (o + (x - lo)) else d.byte x }

theorem overlaid_empty {lo hi : ℕ} (d : Drive) (src : ℕ → UInt8) (o : ℕ) (h : hi ≤ lo) :
    overlaid d src o lo hi = d := by
  have hb : (fun x => if x < d.size ∧ lo ≤ x ∧ x < hi then src (o + (x - lo)) else d.byte x) = d.byte :=
    funext fun x => if_neg (by omega)
  unfold overlaid
  rw [hb]

/-- A word more of a range of the medium. -/
theorem overlaid_stored {lo hi : ℕ} (d : Drive) (src : ℕ → UInt8) (o : ℕ) (h : lo + 2 ≤ hi) :
    overlaid (d.stored lo (wordAt src o)) src (o + 2) (lo + 2) hi = overlaid d src o lo hi := by
  unfold overlaid Drive.stored
  congr 1
  funext x
  have hx := putWord_range lo hi d.byte src o h x
  by_cases hs : x < d.size
  · simp only [hs, true_and, if_true]
    exact hx
  · simp only [hs, false_and, if_false]

theorem writeWords_eq (ptr : ℕ → UInt8) (i : ℕ) : ∀ (n j : ℕ) (d : Drive), d.phase = .output L left j → d.busy = 0 →
    j + n = 255 → writeWords ptr i (n + 1) j d =
      (overlaid d ptr (512 * i + 2 * j) (512 * L + 2 * j) (512 * L + 512)).enter
      (if left ≤ 1 then .idle else .output (L + 1) (left - 1) 0)
  | 0, j, d, hp, hb, hj => by
    obtain rfl : j = 255 := by omega
    rw [writeWords, Drive.outWord_last hp hb, show 2 * (256 * i + 255) = 512 * i + 2 * 255 by omega]
    rw [writeWords, ← overlaid_stored d ptr _ (by omega), overlaid_empty _ _ _ (by omega)]
  | n + 1, j, d, hp, hb, hj => by
    rw [writeWords, Drive.outWord_inside hp hb (by omega), show 2 * (256 * i + j) = 512 * i + 2 * j by omega]
    rw [writeWords_eq ptr i n (j + 1) { d.stored (512 * L + 2 * j) _ with phase := .output L left (j + 1) }
      rfl hb (by omega),
      ← overlaid_stored d ptr _ (by omega)]
    rfl

/-! ## A transfer -/

/-- The drive is done with everything it does within so many reads of its status. -/
structure Answers (fuel : ℕ) (d : Drive) : Prop where
  now : d.busy < fuel
  later : ∀ k, d.delay k < fuel

theorem Answers.awaited (h : Answers fuel d) : Answers fuel (awaited d) := ⟨Nat.zero_lt_of_lt h.now, h.later⟩

theorem Answers.enter (h : Answers fuel d) (p : Phase) : Answers fuel (d.enter p) := ⟨h.later _, h.later⟩

/-- A block of a read: what is left of the transfer follows, or the drive is idle. -/
theorem readBlock_spec {n i : ℕ} (ha : Answers fuel d) (hp : d.phase = .input L (n + 1) 0) :
    ∃ d', readWords (512 * i) 256 0 m (awaited d) =
        (fun a => if 512 * i ≤ a ∧ a < 512 * i + 512 then d.byte (512 * L + (a - 512 * i)) else m a, d') ∧
      Answers fuel d' ∧ d'.phase = (if n = 0 then .idle else .input (L + 1) n 0) ∧ d'.byte = d.byte ∧
      d'.size = d.size := by
  have hw := readWords_eq (512 * i) 255 0 m (awaited d) hp rfl (Nat.zero_add 255)
  refine ⟨_, hw, ?_⟩
  by_cases hn : n = 0
  · rw [if_pos (by omega), if_pos hn]
    exact ⟨⟨ha.awaited.now, ha.later⟩, rfl, rfl, rfl⟩
  · rw [if_neg (by omega), if_neg hn]
    exact ⟨ha.awaited.enter _, rfl, rfl, rfl⟩

theorem readLoop_succ (n i : ℕ) (ha : Answers fuel d) : readLoop fuel (n + 1) i m d =
    readLoop fuel n (i + 1) (readWords (512 * i) 256 0 m (awaited d)).1
      (readWords (512 * i) 256 0 m (awaited d)).2 := by
  conv_lhs => unfold readLoop
  simp only [ataBusyWait_eq ha.now, Option.bind_some, ataDrqWait_eq (d := awaited d) (Nat.zero_lt_of_lt ha.now) rfl]

/-- The loop over the blocks of a read. -/
theorem readLoop_spec (n : ℕ) : ∀ {i L : ℕ} {m : ℕ → UInt8} {d : Drive}, Answers fuel d →
    d.phase = (if n = 0 then .idle else .input L n 0) →
    ∃ d', readLoop fuel n i m d =
        some (fun a => if 512 * i ≤ a ∧ a < 512 * (i + n) then d.byte (512 * L + (a - 512 * i)) else m a, d') ∧
      Answers fuel d' ∧ d'.phase = .idle ∧ d'.byte = d.byte ∧ d'.size = d.size := by
  induction n with
  | zero =>
    intro i L m d ha hp
    refine ⟨d, ?_, ha, hp, rfl, rfl⟩
    have hm : (fun a => if 512 * i ≤ a ∧ a < 512 * (i + 0) then d.byte (512 * L + (a - 512 * i)) else m a) = m :=
      funext fun a => if_neg (by omega)
    rw [hm]
    rfl
  | succ n ih =>
    intro i L m d ha hp
    obtain ⟨d₁, hw, ha₁, hp₁, hb₁, hs₁⟩ := readBlock_spec (m := m) (i := i) ha hp
    obtain ⟨d', hr, ha', hp', hb', hs'⟩ := ih (i := i + 1) (m := fun a => if 512 * i ≤ a ∧ a < 512 * i + 512 then
      d.byte (512 * L + (a - 512 * i)) else m a) ha₁ hp₁
    refine ⟨d', ?_, ha', hp', hb'.trans hb₁, hs'.trans hs₁⟩
    rw [readLoop_succ n i ha, hw, hr, hb₁]
    refine congrArg some (Prod.ext (funext fun a => ?_) rfl)
    by_cases h₁ : 512 * (i + 1) ≤ a ∧ a < 512 * (i + 1 + n)
    · simp only [if_pos h₁, if_pos (show 512 * i ≤ a ∧ a < 512 * (i + (n + 1)) by omega)]
      exact congrArg d.byte (by omega)
    · simp only [if_neg h₁]
      by_cases h₂ : 512 * i ≤ a ∧ a < 512 * i + 512
      · simp only [if_pos h₂, if_pos (show 512 * i ≤ a ∧ a < 512 * (i + (n + 1)) by omega)]
      · simp only [if_neg h₂, if_neg (show ¬(512 * i ≤ a ∧ a < 512 * (i + (n + 1))) by omega)]

/-- A block of a write. -/
theorem writeBlock_spec (ptr : ℕ → UInt8) (i : ℕ) {n : ℕ} (ha : Answers fuel d) (hp : d.phase = .output L (n + 1) 0) :
    ∃ d', writeWords ptr i 256 0 (awaited d) = d' ∧ Answers fuel d' ∧
      d'.phase = (if n = 0 then .idle else .output (L + 1) n 0) ∧ d'.size = d.size ∧
      d'.byte = (overlaid d ptr (512 * i) (512 * L) (512 * L + 512)).byte := by
  have hw := writeWords_eq ptr i 255 0 (awaited d) hp rfl (Nat.zero_add 255)
  refine ⟨_, hw, ⟨ha.later _, ha.later⟩, ?_, rfl, rfl⟩
  by_cases hn : n = 0
  · rw [if_pos (by omega), if_pos hn]
    rfl
  · rw [if_neg (by omega), if_neg hn]
    rfl

/-- A range of the medium written in two parts. -/
theorem overlaid_parts (hi : ℕ) {lo mid o : ℕ} {d₁ : Drive} (h₁ : lo ≤ mid) (h₂ : mid ≤ hi) (hs : d₁.size = d.size)
    (hb : d₁.byte = (overlaid d ptr o lo mid).byte) :
    (overlaid d₁ ptr (o + (mid - lo)) mid hi).byte = (overlaid d ptr o lo hi).byte := by
  unfold overlaid at hb ⊢
  simp only [hs, hb]
  funext x
  by_cases hx : x < d.size ∧ mid ≤ x ∧ x < hi
  · rw [if_pos hx, if_pos (by omega)]
    exact congrArg ptr (by omega)
  · rw [if_neg hx]
    by_cases hl : x < d.size ∧ lo ≤ x ∧ x < mid
    · rw [if_pos hl, if_pos (by omega)]
    · rw [if_neg hl, if_neg (by omega)]

/-- The loop over the blocks of a write. -/
theorem writeLoop_spec (ptr : ℕ → UInt8) (n : ℕ) : ∀ {i L : ℕ} {d : Drive}, Answers fuel d →
    d.phase = (if n = 0 then .idle else .output L n 0) →
    ∃ d', writeLoop fuel ptr n i d = some d' ∧ Answers fuel d' ∧ d'.phase = .idle ∧ d'.size = d.size ∧
      d'.byte = (overlaid d ptr (512 * i) (512 * L) (512 * (L + n))).byte := by
  induction n with
  | zero =>
    intro i L d ha hp
    exact ⟨d, rfl, ha, hp, rfl, congrArg Drive.byte (overlaid_empty d ptr (512 * i) (by omega)).symm⟩
  | succ n ih =>
    intro i L d ha hp
    obtain ⟨d₁, hw, ha₁, hp₁, hs₁, hb₁⟩ := writeBlock_spec ptr i ha hp
    obtain ⟨d', hr, ha', hp', hs', hb'⟩ := ih (i := i + 1) ha₁ hp₁
    refine ⟨d', ?_, ha', hp', hs'.trans hs₁, ?_⟩
    · rw [writeLoop, ataBusyWait_eq ha.now, Option.bind_some, ataDrqWait_eq (Nat.zero_lt_of_lt ha.now) rfl,
        Option.bind_some, hw]
      exact hr
    · have h := overlaid_parts (512 * (L + (n + 1))) (by omega) (by omega) hs₁ hb₁
      rw [hb', ← h]
      have e₁ : 512 * (i + 1) = 512 * i + (512 * L + 512 - 512 * L) := by omega
      have e₂ : 512 * (L + 1) = 512 * L + 512 := by omega
      have e₃ : 512 * (L + 1 + n) = 512 * (L + (n + 1)) := by omega
      rw [e₁, e₂, e₃]

/-- The drive with its registers set for a transfer. -/
def selected (x : UInt32) (n : UInt8) (d : Drive) : Drive :=
  d.addressed ((0xE0 : UInt8) ||| (x >>> 24 &&& 0xF).toUInt8) n x.toUInt8 (x >>> 8).toUInt8 (x >>> 16).toUInt8

/-- The four registers hold the low 28 bits of the address. -/
theorem lba_selected (x : UInt32) (n : UInt8) (d : Drive) : (selected x n d).lba = x.toNat % 2 ^ 28 := by
  have hs : ((0xE0 : UInt8) ||| (x >>> 24 &&& 0xF).toUInt8).toNat % 16 = x.toNat / 2 ^ 24 % 16 := by
    rw [UInt8.toNat_or, show (16 : ℕ) = 2 ^ 4 by rfl, Nat.or_mod_two_pow]
    simp only [UInt32.toNat_toUInt8, UInt32.toNat_and, UInt32.toNat_shiftRight, UInt8.reduceToNat, UInt32.reduceToNat,
      Nat.reduceMod, Nat.shiftRight_eq_div_pow, Nat.reducePow, Nat.zero_or, Nat.and_two_pow_sub_one_eq_mod _ 4]
    omega
  show x.toUInt8.toNat + 256 * (x >>> 8).toUInt8.toNat + 65536 * (x >>> 16).toUInt8.toNat +
    16777216 * (((0xE0 : UInt8) ||| (x >>> 24 &&& 0xF).toUInt8).toNat % 16) = _
  rw [hs]
  simp only [UInt32.toNat_toUInt8, UInt32.toNat_shiftRight, UInt32.reduceToNat, Nat.reduceMod,
    Nat.shiftRight_eq_div_pow]
  omega

/-- A count of 0 would stand for 256 blocks, of which the driver moves none. -/
theorem blocks_selected (x : UInt32) {n : UInt8} (hn : n ≠ 0) (d : Drive) :
    (selected x n d).blocks = n.toNat := if_neg hn

theorem startTransfer_read (hb : d.busy = 0) {x : UInt32} {n : UInt8} (hn : n ≠ 0) :
    startTransfer x n 0x20 d = (selected x n d).enter (.input (x.toNat % 2 ^ 28) n.toNat 0) := by
  rw [← lba_selected x n d, ← blocks_selected x hn d]
  exact Drive.command_eq hb ..

theorem startTransfer_write (hb : d.busy = 0) {x : UInt32} {n : UInt8} (hn : n ≠ 0) :
    startTransfer x n 0x30 d = (selected x n d).enter (.output (x.toNat % 2 ^ 28) n.toNat 0) := by
  rw [← lba_selected x n d, ← blocks_selected x hn d]
  exact Drive.command_eq hb ..

/-! ## Calls one after the other -/

/-- A call of the driver: where in memory, which block, how many. -/
inductive Transfer where
  | read (ptr : ℕ → UInt8) (lba : UInt32) (blockCount : UInt8)
  | write (ptr : ℕ → UInt8) (lba : UInt32) (blockCount : UInt8)

def Transfer.blockCount : Transfer → UInt8
  | .read _ _ n => n
  | .write _ _ n => n

/-- A call at the ports, with the memory at its pointer after it. -/
def transfer (fuel : ℕ) (d : Drive) : Transfer → Option ((ℕ → UInt8) × Drive)
  | .read ptr lba n => readBlocks fuel ptr lba n d
  | .write ptr lba n => (writeBlocks fuel ptr lba n d).map fun d => (ptr, d)

/-- The same call on the image. -/
def onImage (disk : Disk) : Transfer → (ℕ → UInt8) × Disk
  | .read ptr lba n => (fun a => if a < 512 * n.toNat then cell (disk.readBlocks lba n.toNat) a else ptr a, disk)
  | .write ptr lba n => (ptr, disk.writeBlocks n.toNat (Vector.ofFn fun i => ptr i.1) lba)

/-- An idle drive whose medium is the image. -/
structure Carries (fuel : ℕ) (d : Drive) (disk : Disk) : Prop where
  answers : Answers fuel d
  idle : d.phase = .idle
  size : d.size = Disk.diskSize
  byte : d.byte = disk.byte

theorem Carries.read {disk : Disk} (h : Carries fuel d disk) (ptr : ℕ → UInt8) (x : UInt32) {n : UInt8} (hn : n ≠ 0) :
    ∃ d', readBlocks fuel ptr x n d = some ((onImage disk (.read ptr x n)).1, d') ∧ Carries fuel d' disk := by
  have h0 : n.toNat ≠ 0 := fun h => hn (UInt8.toNat_inj.1 h)
  have hst := startTransfer_read (d := awaited d) rfl (x := x) hn
  generalize hd : startTransfer x n 0x20 (awaited d) = d₁ at hst
  obtain ⟨d', hr, ha, hp, hb, hs⟩ := readLoop_spec n.toNat (i := 0) (L := x.toNat % 2 ^ 28) (m := ptr) (d := d₁)
    (by rw [hst]; exact ⟨h.answers.later _, h.answers.later⟩) (by rw [hst, if_neg h0]; rfl)
  have hb₁ : d₁.byte = disk.byte := by rw [hst]; exact h.byte
  have hs₁ : d₁.size = Disk.diskSize := by rw [hst]; exact h.size
  refine ⟨d', ?_, ha, hp, hs.trans hs₁, hb.trans hb₁⟩
  rw [readBlocks, ataBusyWait_eq h.answers.now, Option.bind_some, hd, hr]
  refine congrArg some (Prod.ext (funext fun a => ?_) rfl)
  show (if 512 * 0 ≤ a ∧ a < 512 * (0 + n.toNat) then _ else _) = if a < 512 * n.toNat then _ else _
  by_cases hlt : a < 512 * n.toNat
  · rw [if_pos (by omega), if_pos hlt, cell_of_lt _ hlt, Disk.readBlocks, Vector.getElem_ofFn, hb₁]
    rfl
  · rw [if_neg (by omega), if_neg hlt]

theorem Carries.write {disk : Disk} (h : Carries fuel d disk) (ptr : ℕ → UInt8) (x : UInt32) {n : UInt8} (hn : n ≠ 0) :
    ∃ d', writeBlocks fuel ptr x n d = some d' ∧ Carries fuel d' (onImage disk (.write ptr x n)).2 := by
  have h0 : n.toNat ≠ 0 := fun h => hn (UInt8.toNat_inj.1 h)
  have hst := startTransfer_write (d := awaited d) rfl (x := x) hn
  generalize hd : startTransfer x n 0x30 (awaited d) = d₁ at hst
  obtain ⟨d', hr, ha, hp, hs, hb⟩ := writeLoop_spec ptr n.toNat (i := 0) (L := x.toNat % 2 ^ 28) (d := d₁)
    (by rw [hst]; exact ⟨h.answers.later _, h.answers.later⟩) (by rw [hst, if_neg h0]; rfl)
  have hb₁ : d₁.byte = disk.byte := by rw [hst]; exact h.byte
  have hs₁ : d₁.size = Disk.diskSize := by rw [hst]; exact h.size
  refine ⟨d', by rw [writeBlocks, ataBusyWait_eq h.answers.now, Option.bind_some, hd, hr], ha, hp, hs.trans hs₁, ?_⟩
  rw [hb]
  funext a
  show (if a < d₁.size ∧ _ then _ else d₁.byte a) = if _ then _ else _
  unfold Disk.blockAddress
  rw [hb₁, hs₁]
  by_cases ha : a < Disk.diskSize ∧ 512 * (x.toNat % 2 ^ 28) ≤ a ∧ a < 512 * (x.toNat % 2 ^ 28 + n.toNat)
  · have hlt : a - 512 * (x.toNat % 2 ^ 28) < 512 * n.toNat := by omega
    rw [if_pos ha, if_pos (by omega), cell_of_lt _ hlt, Vector.getElem_ofFn, Nat.mul_zero, Nat.zero_add]
  · rw [if_neg ha, if_neg (by omega)]

/-- The driver at the ports does what the image is read and written for. -/
theorem refines_onImage (fuel : ℕ) :
    Refines (transfer fuel) onImage (fun _ t => t.blockCount ≠ 0) (Carries fuel) Eq := by
  intro d disk t h hn
  cases t with
  | read ptr x n =>
    obtain ⟨d', hr, hc⟩ := h.read ptr x (n := n) hn
    exact ⟨_, d', hr, rfl, hc⟩
  | write ptr x n =>
    obtain ⟨d', hr, hc⟩ := h.write ptr x (n := n) hn
    exact ⟨ptr, d', by rw [transfer, hr]; rfl, rfl, hc⟩

/-- Any calls one after the other find and leave the image, whatever the drive's delays. -/
theorem run_transfers {disk : Disk} (h : Carries fuel d disk) {ts : List Transfer} (hts : ∀ t ∈ ts, t.blockCount ≠ 0) :
    ∃ d', Refinement.run (transfer fuel) d ts = some ((trace onImage disk ts).1, d') ∧
      Carries fuel d' (trace onImage disk ts).2 := by
  obtain ⟨os, d', hr, hos, hc⟩ := (refines_onImage fuel).run h (allowed_of_forall hts _)
  rw [List.forall₂_eq_eq_eq] at hos
  exact ⟨d', hos ▸ hr, hc⟩

/-- A drive of zeros, busy for three reads of its status after each block. -/
def zeroDrive : Drive where
  byte _ := 0
  size := Disk.diskSize
  count := 0
  low := 0
  mid := 0
  high := 0
  select := 0
  phase := .idle
  busy := 2
  delay _ := 3
  begun := 0

theorem run_transfers_zeroDrive :
    ∃ d', Refinement.run (transfer 4) zeroDrive [.write (fun a => UInt8.ofNat a) 7 3, .read (fun _ => 1) 8 2] =
      some ((trace onImage ⟨fun _ => 0⟩ [.write (fun a => UInt8.ofNat a) 7 3, .read (fun _ => 1) 8 2]).1, d') ∧
      Carries 4 d' (trace onImage ⟨fun _ => 0⟩ [.write (fun a => UInt8.ofNat a) 7 3, .read (fun _ => 1) 8 2]).2 :=
  run_transfers ⟨⟨by decide, fun _ => Nat.lt_succ_self 3⟩, rfl, rfl, rfl⟩ (by decide)

end BebasOs.Driver
