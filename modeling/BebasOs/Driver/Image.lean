/-
`external-inserter.c`: the two functions that stand in for those of `disk.c` on the host, where the disk is an image in
memory. The file system is linked against either pair; as long as it stays inside of the image it cannot tell them
apart.
-/
import BebasOs.Driver.Disk
import BebasOs.Stdlib.Memory

namespace BebasOs.Driver

open Bytes Ata Refinement Fat32

/-! ## The functions -/

/-- The loop of both functions, from block `i` on with `n` to go. -/
def copyBlocks (dest src : ℕ → ℕ) : (n i : ℕ) → (ℕ → UInt8) → ℕ → UInt8
  | 0, _, m => m
  | n + 1, i, m => copyBlocks dest src n (i + 1) (memcpy m (dest i) (src i) 512)

/-- The address of block `i` of a call; the product is one of 32 bits. -/
def blockAt (imageStorage : ℕ) (logicalBlockAddress : UInt32) (i : ℕ) : ℕ :=
  imageStorage + (512 * (logicalBlockAddress + UInt32.ofNat i)).toNat

/-- `read_blocks` of the inserter, on its memory. -/
def imageReadBlocks (imageStorage ptr : ℕ) (logicalBlockAddress : UInt32) (blockCount : UInt8)
    (m : ℕ → UInt8) : ℕ → UInt8 :=
  copyBlocks (fun i => ptr + 512 * i) (blockAt imageStorage logicalBlockAddress) blockCount.toNat 0 m

/-- `write_blocks` of the inserter. -/
def imageWriteBlocks (imageStorage ptr : ℕ) (logicalBlockAddress : UInt32) (blockCount : UInt8)
    (m : ℕ → UInt8) : ℕ → UInt8 :=
  copyBlocks (blockAt imageStorage logicalBlockAddress) (fun i => ptr + 512 * i) blockCount.toNat 0 m

/-! ## Calls at addresses -/

/-- A call of the file system: where in its memory, which block, how many. -/
inductive BlockCall where
  | read (ptr : ℕ) (lba : UInt32) (blockCount : UInt8)
  | write (ptr : ℕ) (lba : UInt32) (blockCount : UInt8)

/-- In the kernel: the memory and the drive. -/
def kernelCall (fuel : ℕ) (x : (ℕ → UInt8) × Drive) : BlockCall → Option (Unit × (ℕ → UInt8) × Drive)
  | .read ptr lba n => (readBlocks fuel (fun a => x.1 (ptr + a)) lba n x.2).map fun y =>
      ((), fun a => if ptr ≤ a then y.1 (a - ptr) else x.1 a, y.2)
  | .write ptr lba n => (writeBlocks fuel (fun a => x.1 (ptr + a)) lba n x.2).map fun d => ((), x.1, d)

/-- In the inserter: one memory, with the image in it. -/
def inserterCall (imageStorage : ℕ) (m : ℕ → UInt8) : BlockCall → Unit × (ℕ → UInt8)
  | .read ptr lba n => ((), imageReadBlocks imageStorage ptr lba n m)
  | .write ptr lba n => ((), imageWriteBlocks imageStorage ptr lba n m)

/-- The blocks are blocks of the image, and the buffer is no part of it. -/
def Inside (imageStorage : ℕ) : BlockCall → Prop
  | .read ptr lba n | .write ptr lba n => n ≠ 0 ∧ 512 * (lba.toNat + n.toNat) ≤ Disk.diskSize ∧
      (ptr + 512 * n.toNat ≤ imageStorage ∨ imageStorage + Disk.diskSize ≤ ptr)

/-- The image is the medium of the drive, and the memories agree elsewhere. -/
structure SameBlocks (fuel imageStorage : ℕ) (x : (ℕ → UInt8) × Drive) (m : ℕ → UInt8) : Prop where
  carries : Carries fuel x.2 ⟨x.2.byte⟩
  image : ∀ a < Disk.diskSize, x.2.byte a = m (imageStorage + a)
  memory : ∀ a, ¬(imageStorage ≤ a ∧ a < imageStorage + Disk.diskSize) → x.1 a = m a

variable {fuel imageStorage ptr dest src k l n i : ℕ} {lba : UInt32} {m : ℕ → UInt8} {x : (ℕ → UInt8) × Drive}

/-! ## Copying block by block -/

/-- One copy after the other is one copy. -/
theorem copied_copied (h : dest + k ≤ src + k ∨ src + k + l ≤ dest) :
    copied (copied m dest src k) (dest + k) (src + k) l = copied m dest src (k + l) := by
  funext a
  unfold copied
  by_cases ha : dest + k ≤ a ∧ a < dest + k + l
  · rw [if_pos ha, if_neg (by omega), if_pos (by omega)]
    congr 1
    omega
  · rw [if_neg ha]
    by_cases hb : dest ≤ a ∧ a < dest + k
    · rw [if_pos hb, if_pos (by omega)]
    · rw [if_neg hb, if_neg (by omega)]

theorem copyBlocks_succ (to_ from_ : ℕ → ℕ) (n i : ℕ) (m : ℕ → UInt8) :
    copyBlocks to_ from_ (n + 1) i m = copyBlocks to_ from_ n (i + 1) (memcpy m (to_ i) (from_ i) 512) := rfl

-- the default depth is the number of bytes in a block
set_option maxRecDepth 2000 in
theorem copyBlocks_eq (dest src : ℕ) {to_ from_ : ℕ → ℕ} (h : dest + 512 * (i + n) ≤ src ∨ src + 512 * (i + n) ≤ dest)
    (hd : ∀ j, i ≤ j → j < i + n → to_ j = dest + 512 * j ∧ from_ j = src + 512 * j) :
    copyBlocks to_ from_ n i m = copied m (dest + 512 * i) (src + 512 * i) (512 * n) := by
  induction n generalizing i m with
  | zero =>
    funext a
    exact (if_neg (by omega)).symm
  | succ n ih =>
    obtain ⟨h₁, h₂⟩ := hd i le_rfl (by omega)
    have hone : ¬(src + 512 * i < dest + 512 * i ∧ dest + 512 * i < src + 512 * i + 512) := by omega
    have hparts : dest + 512 * i + 512 ≤ src + 512 * i + 512 ∨
      src + 512 * i + 512 + 512 * n ≤ dest + 512 * i := by omega
    have hrest : dest + 512 * (i + 1 + n) ≤ src ∨ src + 512 * (i + 1 + n) ≤ dest := by omega
    rw [copyBlocks_succ, h₁, h₂, memcpy_eq_iff.2 hone, ih hrest fun j hj hjn => hd j (by omega) (by omega)]
    rw [Nat.mul_succ, Nat.mul_succ, ← Nat.add_assoc, ← Nat.add_assoc, copied_copied hparts, Nat.add_comm 512]

/-- Inside of the image the product does not overflow. -/
theorem blockAt_eq (h : 512 * (lba.toNat + n) ≤ Disk.diskSize) (hi : i < n) :
    blockAt imageStorage lba i = imageStorage + 512 * lba.toNat + 512 * i := by
  unfold Disk.diskSize at h
  unfold blockAt
  simp only [UInt32.toNat_mul, UInt32.toNat_add, UInt32.toNat_ofNat', UInt32.reduceToNat]
  omega

theorem imageReadBlocks_eq {n : UInt8} (h : Inside imageStorage (.read ptr lba n)) :
    imageReadBlocks imageStorage ptr lba n m = copied m ptr (imageStorage + 512 * lba.toNat) (512 * n.toNat) := by
  obtain ⟨-, hsize, hapart⟩ := h
  refine copyBlocks_eq ptr (imageStorage + 512 * lba.toNat) (i := 0) ?_ fun j _ hj => ⟨rfl, blockAt_eq hsize (by omega)⟩
  omega

theorem imageWriteBlocks_eq {n : UInt8} (h : Inside imageStorage (.write ptr lba n)) :
    imageWriteBlocks imageStorage ptr lba n m = copied m (imageStorage + 512 * lba.toNat) ptr (512 * n.toNat) := by
  obtain ⟨-, hsize, hapart⟩ := h
  refine copyBlocks_eq (imageStorage + 512 * lba.toNat) ptr (i := 0) ?_ fun j _ hj => ⟨blockAt_eq hsize (by omega), rfl⟩
  omega

/-! ## The two pairs of functions -/

theorem blockAddress_eq {n : ℕ} (h : 512 * (lba.toNat + n) ≤ Disk.diskSize) :
    Disk.blockAddress lba = 512 * lba.toNat := by
  unfold Disk.diskSize at h
  unfold Disk.blockAddress
  rw [Nat.mod_eq_of_lt (by omega)]

theorem SameBlocks.read {n : UInt8} (h : SameBlocks fuel imageStorage x m)
    (hin : Inside imageStorage (.read ptr lba n)) :
    ∃ y, kernelCall fuel x (.read ptr lba n) = some ((), y) ∧
      SameBlocks fuel imageStorage y (imageReadBlocks imageStorage ptr lba n m) := by
  obtain ⟨hn, hsize, hapart⟩ := hin
  obtain ⟨d', hr, hc⟩ := h.carries.read (fun a => x.1 (ptr + a)) lba hn
  refine ⟨(_, d'), by rw [kernelCall, hr]; rfl, ⟨hc.answers, hc.idle, hc.size, rfl⟩, fun a ha => ?_, fun a ha => ?_⟩
  · rw [imageReadBlocks_eq ⟨hn, hsize, hapart⟩]
    unfold copied
    rw [if_neg (by omega), ← h.image a ha]
    exact congrFun hc.byte a
  · rw [imageReadBlocks_eq ⟨hn, hsize, hapart⟩]
    unfold copied onImage
    simp only
    by_cases hle : ptr ≤ a
    · by_cases hlt : a - ptr < 512 * n.toNat
      · simp only [if_pos hle, if_pos hlt, cell_of_lt _ hlt, Disk.readBlocks, Vector.getElem_ofFn,
          blockAddress_eq hsize]
        rw [if_pos (by omega), h.image _ (by omega), Nat.add_assoc]
      · simp only [if_pos hle, if_neg hlt]
        rw [if_neg (by omega), Nat.add_sub_cancel' hle]
        exact h.memory a ha
    · rw [if_neg hle, if_neg (by omega)]
      exact h.memory a ha

theorem SameBlocks.write {n : UInt8} (h : SameBlocks fuel imageStorage x m)
    (hin : Inside imageStorage (.write ptr lba n)) :
    ∃ y, kernelCall fuel x (.write ptr lba n) = some ((), y) ∧
      SameBlocks fuel imageStorage y (imageWriteBlocks imageStorage ptr lba n m) := by
  obtain ⟨hn, hsize, hapart⟩ := hin
  obtain ⟨d', hr, hc⟩ := h.carries.write (fun a => x.1 (ptr + a)) lba hn
  refine ⟨(x.1, d'), by rw [kernelCall, hr]; rfl, ⟨hc.answers, hc.idle, hc.size, rfl⟩, fun a ha => ?_, fun a ha => ?_⟩
  · rw [imageWriteBlocks_eq ⟨hn, hsize, hapart⟩, hc.byte]
    unfold copied onImage Disk.writeBlocks
    simp only [blockAddress_eq hsize]
    by_cases hat : 512 * lba.toNat ≤ a ∧ a < 512 * lba.toNat + 512 * n.toNat
    · rw [if_pos ⟨hat.1, hat.2, ha⟩, if_pos (by omega), cell_of_lt _ (by omega), Vector.getElem_ofFn]
      have hout : ¬(imageStorage ≤ ptr + (a - 512 * lba.toNat) ∧
          ptr + (a - 512 * lba.toNat) < imageStorage + Disk.diskSize) := by omega
      rw [h.memory _ hout]
      congr 1
      omega
    · rw [if_neg (by tauto), if_neg (by omega)]
      exact h.image a ha
  · rw [imageWriteBlocks_eq ⟨hn, hsize, hapart⟩]
    unfold copied
    rw [if_neg (by omega)]
    exact h.memory a ha

theorem kernelCall_refines (fuel imageStorage : ℕ) : Refines (kernelCall fuel) (inserterCall imageStorage)
    (fun _ => Inside imageStorage) (SameBlocks fuel imageStorage) fun _ _ => True := by
  intro x m call h hin
  cases call with
  | read ptr lba n =>
    obtain ⟨y, hy, hs⟩ := h.read hin
    exact ⟨(), y, hy, trivial, hs⟩
  | write ptr lba n =>
    obtain ⟨y, hy, hs⟩ := h.write hin
    exact ⟨(), y, hy, trivial, hs⟩

/-- After any calls inside of the image, one after the other, the memory of the inserter is that of the kernel and its
image is the medium of the drive. -/
theorem run_calls (h : SameBlocks fuel imageStorage x m) {calls : List BlockCall}
    (hin : ∀ c ∈ calls, Inside imageStorage c) :
    ∃ os y, Refinement.run (kernelCall fuel) x calls = some (os, y) ∧
      SameBlocks fuel imageStorage y (trace (inserterCall imageStorage) m calls).2 := by
  obtain ⟨os, y, hrun, -, hs⟩ := (kernelCall_refines fuel imageStorage).run h (allowed_of_forall hin _)
  exact ⟨os, y, hrun, hs⟩

theorem run_calls_zeroDrive :
    ∃ os y, Refinement.run (kernelCall 4) (fun _ => 0, zeroDrive) [.read 0 8 4, .write 0 12 4] = some (os, y) ∧
      SameBlocks 4 5000 y (trace (inserterCall 5000) (fun _ => 0) [.read 0 8 4, .write 0 12 4]).2 :=
  run_calls ⟨⟨⟨by decide, fun _ => Nat.lt_succ_self 3⟩, rfl, rfl, rfl⟩, fun _ _ => rfl, fun _ _ => rfl⟩ fun c hc => by
    obtain rfl | rfl : c = .read 0 8 4 ∨ c = .write 0 12 4 := by simpa using hc
    all_goals exact ⟨by decide, by decide, .inl (by decide)⟩

end BebasOs.Driver
