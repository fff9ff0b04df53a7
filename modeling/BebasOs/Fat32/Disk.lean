/-
`disk.c` seen from the file system: the disk is a 4 MiB image of 512-byte blocks addressed by 28
bits, `read_blocks` and `write_blocks` move whole blocks, and a cluster is four of them. What the
controller delivers for a block the disk does not have is left open: it is whatever the image
function holds past the end, and a write there is lost.
-/
import BebasOs.Fat32.Layout

namespace BebasOs.Fat32

open Bytes

/-- The bytes of the disk by address; from `diskSize` on, what a load past the end delivers. -/
structure Disk where
  byte : ℕ → UInt8

namespace Disk

def diskSize : ℕ := 4 * 1024 * 1024

/-- The address of a block: the controller takes 28 bits of the block number. -/
def blockAddress (lba : UInt32) : ℕ := 512 * (lba.toNat % 2 ^ 28)

def readBlocks (d : Disk) (lba : UInt32) (blockCount : ℕ) : Vector UInt8 (512 * blockCount) :=
  Vector.ofFn fun i : Fin (512 * blockCount) => d.byte (blockAddress lba + i.1)

def writeBlocks (d : Disk) (blockCount : ℕ) (data : Vector UInt8 (512 * blockCount)) (lba : UInt32) : Disk where
  byte a :=
    if blockAddress lba ≤ a ∧ a < blockAddress lba + 512 * blockCount ∧ a < diskSize then
      cell data (a - blockAddress lba)
    else d.byte a

/-- `cluster_to_lba`. -/
def clusterToLba (cluster : UInt32) : UInt32 := cluster * 4

def readClusters (d : Disk) (clusterNumber : UInt32) : ClusterBuffer :=
  d.readBlocks (clusterToLba clusterNumber) 4

def writeClusters (d : Disk) (buffer : ClusterBuffer) (clusterNumber : UInt32) : Disk :=
  d.writeBlocks 4 buffer (clusterToLba clusterNumber)

/-! ## Clusters of the image -/

/-- The cluster at a place of the image. -/
def cluster (d : Disk) (c : ℕ) : ClusterBuffer := Vector.ofFn fun i : Fin 2048 => d.byte (2048 * c + i.1)

theorem getElem_cluster (d : Disk) (c : ℕ) {i : ℕ} (hi : i < 2048) : (d.cluster c)[i] = d.byte (2048 * c + i) := by
  unfold cluster; rw [Vector.getElem_ofFn]

/-- The cluster of the image a cluster number stands for: its low 26 bits. -/
def place (c : UInt32) : ℕ := c.toNat % 2 ^ 26

theorem place_of_lt {c : UInt32} (h : c.toNat < 2 ^ 26) : place c = c.toNat := Nat.mod_eq_of_lt h

theorem blockAddress_clusterToLba (c : UInt32) : blockAddress (clusterToLba c) = 2048 * place c := by
  have := c.toNat_lt
  simp only [blockAddress, clusterToLba, place, UInt32.toNat_mul, UInt32.reduceToNat]
  omega

theorem readClusters_eq (d : Disk) (c : UInt32) : d.readClusters c = d.cluster (place c) := by
  refine Vector.ext fun i hi => ?_
  unfold readClusters readBlocks
  rw [getElem_cluster, Vector.getElem_ofFn, blockAddress_clusterToLba]

/-- A cluster write replaces one cluster of the image; past the end of the disk it is lost. -/
theorem cluster_writeClusters (d : Disk) (b : ClusterBuffer) (c : UInt32) (k : ℕ) :
    (d.writeClusters b c).cluster k = if k = place c ∧ k < 2048 then b else d.cluster k := by
  refine Vector.ext fun i hi => ?_
  rw [getElem_cluster]
  simp only [writeClusters, writeBlocks, blockAddress_clusterToLba, diskSize]
  split
  · rename_i h
    obtain rfl : k = place c := by omega
    have hd : 2048 * place c + i - 2048 * place c = i := by omega
    rw [if_pos ⟨rfl, by omega⟩, hd]
    exact cell_of_lt b hi
  · rename_i h
    rw [if_neg (by omega)]
    exact (getElem_cluster d k hi).symm

@[simp] theorem cluster_writeClusters_self (d : Disk) (b : ClusterBuffer) {c : UInt32} (h : c.toNat < 2048) :
    (d.writeClusters b c).cluster c.toNat = b := by
  rw [cluster_writeClusters, place_of_lt (by omega), if_pos ⟨rfl, h⟩]

theorem cluster_writeClusters_ne (d : Disk) (b : ClusterBuffer) {c : UInt32} {k : ℕ} (h : k ≠ place c) :
    (d.writeClusters b c).cluster k = d.cluster k := by
  rw [cluster_writeClusters, if_neg (by tauto)]

/-! ## The structures on the disk -/

/-- The first block of the disk. -/
def bootSector (d : Disk) : Vector UInt8 512 := Vector.ofFn fun i : Fin 512 => d.byte i.1

/-- The file allocation table on the disk. -/
def fat (d : Disk) : FAT32FileAllocationTable := fatPacked.symm (d.cluster 1)

/-- The cluster `p`, read as a directory table. -/
def table (d : Disk) (p : ℕ) : FAT32DirectoryTable := tablePacked.symm (d.cluster p)

/-- Slot `i` of the directory in cluster `p`. -/
def slot (d : Disk) (p i : ℕ) : FAT32DirectoryEntry := cell (d.table p) i

theorem bootSector_eq (d : Disk) : d.bootSector = Vector.ofFn fun i : Fin 512 => cell (d.cluster 0) i.1 := by
  refine Vector.ext fun i hi => ?_
  unfold bootSector
  rw [Vector.getElem_ofFn, Vector.getElem_ofFn, cell_of_lt _ (by omega)]
  rw [getElem_cluster, Nat.mul_zero, Nat.zero_add]

/-- The boot sector is part of cluster 0. -/
theorem bootSector_congr {d d' : Disk} (h : d'.cluster 0 = d.cluster 0) : d'.bootSector = d.bootSector := by
  rw [bootSector_eq, bootSector_eq, h]

theorem readBlocks_boot (d : Disk) : d.readBlocks 0 1 = d.bootSector := by
  refine Vector.ext fun i hi => ?_
  unfold readBlocks bootSector
  rw [Vector.getElem_ofFn, Vector.getElem_ofFn]
  exact congrArg d.byte (Nat.zero_add i)

theorem fat_congr {d d' : Disk} (h : d'.cluster 1 = d.cluster 1) : d'.fat = d.fat := by unfold fat; rw [h]

theorem table_congr {d d' : Disk} {p : ℕ} (h : d'.cluster p = d.cluster p) : d'.table p = d.table p := by
  unfold table; rw [h]

theorem fat_of_cluster {d : Disk} {t : FAT32FileAllocationTable} (h : d.cluster 1 = fatPacked t) : d.fat = t := by
  unfold fat; rw [h, Equiv.symm_apply_apply]

theorem table_of_cluster {d : Disk} {p : ℕ} {t : FAT32DirectoryTable} (h : d.cluster p = tablePacked t) :
    d.table p = t := by
  unfold table; rw [h, Equiv.symm_apply_apply]

/-! ## Sequences of cluster writes -/

/-- The disk after a sequence of cluster writes. -/
def replay (d : Disk) (ws : List (UInt32 × ClusterBuffer)) : Disk :=
  ws.foldl (fun d w => d.writeClusters w.2 w.1) d

@[simp] theorem replay_nil (d : Disk) : d.replay [] = d := rfl

@[simp] theorem replay_cons (d : Disk) (w : UInt32 × ClusterBuffer) (ws : List (UInt32 × ClusterBuffer)) :
    d.replay (w :: ws) = (d.writeClusters w.2 w.1).replay ws := rfl

theorem replay_append (d : Disk) (ws vs : List (UInt32 × ClusterBuffer)) :
    d.replay (ws ++ vs) = (d.replay ws).replay vs := List.foldl_append

theorem replay_concat (d : Disk) (ws : List (UInt32 × ClusterBuffer)) (c : UInt32) (b : ClusterBuffer) :
    d.replay (ws ++ [(c, b)]) = (d.replay ws).writeClusters b c := replay_append d ws [(c, b)]

/-- A cluster no write names keeps its bytes. -/
theorem cluster_replay_other {ws : List (UInt32 × ClusterBuffer)} {k : ℕ} (h : ∀ w ∈ ws, place w.1 ≠ k) (d : Disk) :
    (d.replay ws).cluster k = d.cluster k := by
  induction ws generalizing d with
  | nil => rfl
  | cons w ws ih =>
    rw [replay_cons, ih fun v hv => h v (List.mem_cons_of_mem _ hv)]
    exact cluster_writeClusters_ne d w.2 (Ne.symm (h w List.mem_cons_self))

/-- What lies past the end of the disk is never written. -/
theorem byte_writeBlocks_beyond (d : Disk) {n : ℕ} (b : Vector UInt8 (512 * n)) (lba : UInt32) {a : ℕ}
    (h : diskSize ≤ a) : (d.writeBlocks n b lba).byte a = d.byte a := if_neg (by omega)

theorem byte_replay_beyond (d : Disk) (ws : List (UInt32 × ClusterBuffer)) {a : ℕ} (h : diskSize ≤ a) :
    (d.replay ws).byte a = d.byte a := by
  induction ws generalizing d with
  | nil => rfl
  | cons w ws ih => rw [replay_cons, ih]; exact byte_writeBlocks_beyond (n := 4) d w.2 (clusterToLba w.1) h

end Disk

end BebasOs.Fat32
