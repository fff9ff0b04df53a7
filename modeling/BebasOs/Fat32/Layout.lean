/-
The data of `fat32.h` as it lies on the disk: directory entries, directory tables and the file
allocation table, each with its packed layout inside one cluster, and the boot sector signature.
The sizes are written out: a block has 512 bytes (`BLOCK_SIZE`), a cluster 4 blocks
(`CLUSTER_BLOCK_COUNT`) and so 2048 bytes (`CLUSTER_SIZE`), the table 512 entries
(`CLUSTER_MAP_SIZE`), a directory 64 slots.
-/
import BebasOs.Lib.Bytes
import BebasOs.Lib.Search
import BebasOs.Stdlib.String

namespace BebasOs.Fat32

open Bytes

/-! ## Constants -/

def cluster0Value : UInt32 := 0x0FFFFFF0
def cluster1Value : UInt32 := 0x0FFFFFFF
/-- Ends a chain; also the value kept for cluster 1. -/
def fatEndOfFile : UInt32 := 0x0FFFFFFF
def fatEmptyEntry : UInt32 := 0
def fatClusterNumber : UInt32 := 1
def rootClusterNumber : UInt32 := 2
def attrSubdirectory : UInt8 := 0b00010000
def uattrNotEmpty : UInt8 := 0b10101010

/-! ## Directory entries -/

/-- `struct FAT32DirectoryEntry`; `undelete` is kept as the byte it is stored in. -/
structure FAT32DirectoryEntry where
  name : Vector UInt8 8
  ext : Vector UInt8 3
  /-- The field `attribute`; the bare word is taken in Lean. -/
  attributeByte : UInt8
  userAttribute : UInt8
  undelete : UInt8
  createTime : UInt16
  createDate : UInt16
  accessDate : UInt16
  clusterHigh : UInt16
  modifiedTime : UInt16
  modifiedDate : UInt16
  clusterLow : UInt16
  filesize : UInt32
deriving DecidableEq, Inhabited

namespace FAT32DirectoryEntry

/-- The fields of an entry in the order of the structure. -/
def fields : FAT32DirectoryEntry ≃ Vector UInt8 8 × Vector UInt8 3 × UInt8 × UInt8 × UInt8 × UInt16 × UInt16 ×
    UInt16 × UInt16 × UInt16 × UInt16 × UInt16 × UInt32 where
  toFun e := (e.name, e.ext, e.attributeByte, e.userAttribute, e.undelete, e.createTime, e.createDate, e.accessDate,
    e.clusterHigh, e.modifiedTime, e.modifiedDate, e.clusterLow, e.filesize)
  invFun | (n, x, a, u, d, ct, cd, ad, ch, mt, md, cl, s) => ⟨n, x, a, u, d, ct, cd, ad, ch, mt, md, cl, s⟩
  left_inv _ := rfl
  right_inv _ := rfl

/-- The 32 bytes of an entry. -/
def packed : Packed FAT32DirectoryEntry 32 :=
  fields.trans <| seq (raw 8) <| seq (raw 3) <| seq u8 <| seq u8 <| seq u8 <| seq u16 <| seq u16 <| seq u16 <|
    seq u16 <| seq u16 <| seq u16 <| seq u16 u32

/-- `cluster_high << 16 | cluster_low`. -/
def cluster (e : FAT32DirectoryEntry) : UInt32 := e.clusterHigh.toUInt32 <<< 16 ||| e.clusterLow.toUInt32

/-- `index >> 16 & 0xFFFF`. -/
def highHalf (index : UInt32) : UInt16 := (index >>> 16 &&& 0xFFFF).toUInt16

/-- `index & 0xFFFF`. -/
def lowHalf (index : UInt32) : UInt16 := (index &&& 0xFFFF).toUInt16

/-- The two halves stored for a cluster number give it back. -/
theorem cluster_of_halves {e : FAT32DirectoryEntry} {index : UInt32} (hh : e.clusterHigh = highHalf index)
    (hl : e.clusterLow = lowHalf index) : e.cluster = index := by
  unfold cluster
  rw [hh, hl]
  apply UInt32.toNat_inj.1
  have hlt := index.toNat_lt
  have mask (x : ℕ) : x &&& 65535 = x % 65536 := Nat.and_two_pow_sub_one_eq_mod _ 16
  have join := Nat.two_pow_add_eq_or_of_lt (i := 16) (Nat.mod_lt index.toNat (by decide : 0 < 2 ^ 16))
    (index.toNat / 2 ^ 16)
  simp only [highHalf, lowHalf, UInt32.toNat_or, UInt32.toNat_shiftLeft, UInt16.toNat_toUInt32,
    UInt32.toNat_toUInt16, UInt32.toNat_and, UInt32.toNat_shiftRight, UInt32.reduceToNat, Nat.reduceMod,
    Nat.shiftLeft_eq, Nat.shiftRight_eq_div_pow, mask]
  rw [show index.toNat / 2 ^ 16 % 65536 % 2 ^ 16 * 2 ^ 16 % 2 ^ 32 = 2 ^ 16 * (index.toNat / 2 ^ 16) by omega,
    show index.toNat % 65536 % 2 ^ 16 = index.toNat % 2 ^ 16 by omega, ← join]
  omega

theorem packed_symm_userAttribute (v : Vector UInt8 32) : (packed.symm v).userAttribute = v[12] := by
  unfold packed
  rw [Equiv.symm_trans_apply, seq_symm, seq_symm, seq_symm, seq_symm]
  simp [fields, u8_symm]

theorem packed_symm_name (v : Vector UInt8 32) : (packed.symm v).name = slice v 0 8 := by
  have hfield (p) : (fields.symm p).name = p.1 := rfl
  unfold packed
  rw [Equiv.symm_trans_apply, hfield, seq_symm]
  show (Vector.ofFn fun i : Fin 8 => v[i.1]) = slice v 0 8
  refine cell_ext fun i hi => ?_
  rw [cell_slice _ _ hi, Nat.zero_add, cell_ofFn hi, cell_of_lt]

theorem packed_symm_ext (v : Vector UInt8 32) : (packed.symm v).ext = slice v 8 3 := by
  have hfield (p) : (fields.symm p).ext = p.2.1 := rfl
  unfold packed
  rw [Equiv.symm_trans_apply, hfield, seq_symm_snd, seq_symm]
  refine cell_ext fun i hi => ?_
  show cell (Vector.ofFn fun i : Fin 3 => (slice v 8 24)[i.1]) i = _
  rw [cell_ofFn hi, ← cell_of_lt, cell_slice _ _ (by omega), cell_slice _ _ hi]

theorem packed_symm_zero : packed.symm (Vector.replicate 32 0) = default := by decide

/-- The entry is in use. -/
def Live (e : FAT32DirectoryEntry) : Prop := e.userAttribute = uattrNotEmpty

/-- The entry is a folder; every other entry is a file. -/
def IsFolder (e : FAT32DirectoryEntry) : Prop := e.attributeByte = attrSubdirectory

instance (e : FAT32DirectoryEntry) : Decidable e.Live := inferInstanceAs (Decidable (_ = _))
instance (e : FAT32DirectoryEntry) : Decidable e.IsFolder := inferInstanceAs (Decidable (_ = _))

/-- The two `memcmp` tests of a look-up. -/
def hasName (e : FAT32DirectoryEntry) (name : Vector UInt8 8) (ext : Vector UInt8 3) : Bool :=
  memcmp e.name name == 0 && memcmp e.ext ext == 0

@[simp] theorem hasName_iff {e : FAT32DirectoryEntry} {name : Vector UInt8 8} {ext : Vector UInt8 3} :
    e.hasName name ext = true ↔ e.name = name ∧ e.ext = ext := by
  simp [hasName]

theorem not_live_default : ¬ (default : FAT32DirectoryEntry).Live := by decide

end FAT32DirectoryEntry

/-! ## Clusters -/

/-- `struct ClusterBuffer`. -/
abbrev ClusterBuffer := Vector UInt8 2048

/-- `struct FAT32FileAllocationTable`, its one field `cluster_map`. -/
abbrev FAT32FileAllocationTable := Vector UInt32 512

/-- `struct FAT32DirectoryTable`, its one field `table`. -/
abbrev FAT32DirectoryTable := Vector FAT32DirectoryEntry 64

/-- The file allocation table in its cluster. -/
def fatPacked : Packed FAT32FileAllocationTable 2048 := array u32 512

/-- A directory table in its cluster. -/
def tablePacked : Packed FAT32DirectoryTable 2048 := array FAT32DirectoryEntry.packed 64

def zeroCluster : ClusterBuffer := Vector.replicate 2048 0

def zeroTable : FAT32DirectoryTable := Vector.replicate 64 default

@[simp] theorem cell_zeroTable (i : ℕ) : cell zeroTable i = default := by
  unfold cell zeroTable
  split
  · exact Vector.getElem_replicate _
  · rfl

@[simp] theorem zeroCluster_getElem {i : ℕ} (hi : i < 2048) : zeroCluster[i] = 0 := Vector.getElem_replicate _

/-- A slot is unpacked from its own 32 bytes. -/
theorem cell_unpacked (b : ClusterBuffer) {i : ℕ} (hi : i < 64) :
    cell (tablePacked.symm b) i = FAT32DirectoryEntry.packed.symm (Vector.ofFn fun j : Fin 32 =>
      have hj : i * 32 + j.1 < 2048 := by omega
      b[i * 32 + j.1]) := by
  rw [cell_of_lt _ hi]
  exact array_symm_getElem _ _ hi

/-- Byte 12 of each 32-byte slot is its `user_attribute`. -/
theorem userAttribute_unpacked (b : ClusterBuffer) {i : ℕ} (hi : i < 64) :
    (cell (tablePacked.symm b) i).userAttribute = cell b (i * 32 + 12) := by
  rw [cell_unpacked b hi, FAT32DirectoryEntry.packed_symm_userAttribute, Vector.getElem_ofFn,
    cell_of_lt _ (by omega)]

/-- The first eight are its name. -/
theorem name_unpacked (b : ClusterBuffer) {i j : ℕ} (hi : i < 64) (hj : j < 8) :
    cell (cell (tablePacked.symm b) i).name j = cell b (i * 32 + j) := by
  rw [cell_unpacked b hi, FAT32DirectoryEntry.packed_symm_name, cell_slice _ _ hj, Nat.zero_add, cell_ofFn (by omega),
    cell_of_lt _ (by omega)]

/-- The extension is behind it. -/
theorem ext_unpacked (b : ClusterBuffer) {i j : ℕ} (hi : i < 64) (hj : j < 3) :
    cell (cell (tablePacked.symm b) i).ext j = cell b (i * 32 + (8 + j)) := by
  rw [cell_unpacked b hi, FAT32DirectoryEntry.packed_symm_ext, cell_slice _ _ hj, cell_ofFn (by omega),
    cell_of_lt _ (by omega)]

theorem cell_unpacked_zero {i : ℕ} (hi : i < 64) : cell (tablePacked.symm zeroCluster) i = default := by
  have hz : (Vector.ofFn fun j : Fin 32 =>
      have hj : i * 32 + j.1 < 2048 := by omega
      zeroCluster[i * 32 + j.1]) = Vector.replicate 32 0 := by
    refine Vector.ext fun j hj => ?_
    rw [Vector.getElem_ofFn, Vector.getElem_replicate]
    exact zeroCluster_getElem _
  have h := cell_unpacked zeroCluster hi
  rw [hz] at h
  exact h.trans FAT32DirectoryEntry.packed_symm_zero

/-- An entry of the table of files is unpacked from its own 4 bytes. -/
theorem cell_fat_unpacked (b : ClusterBuffer) {i : ℕ} (hi : i < 512) :
    cell (fatPacked.symm b) i = u32.symm (Vector.ofFn fun j : Fin 4 =>
      have hj : i * 4 + j.1 < 2048 := by omega
      b[i * 4 + j.1]) := by
  rw [cell_of_lt _ hi]
  exact array_symm_getElem _ _ hi

/-- A cluster of zeros is an empty table of files. -/
theorem cell_fat_zero (i : ℕ) : cell (fatPacked.symm zeroCluster) i = fatEmptyEntry := by
  rcases Nat.lt_or_ge i 512 with hi | hi
  · have hz : (Vector.ofFn fun j : Fin 4 =>
        have hj : i * 4 + j.1 < 2048 := by omega
        zeroCluster[i * 4 + j.1]) = Vector.replicate 4 0 := by
      refine Vector.ext fun j hj => ?_
      rw [Vector.getElem_ofFn, Vector.getElem_replicate]
      exact zeroCluster_getElem _
    have h := cell_fat_unpacked zeroCluster hi
    rw [hz] at h
    exact h.trans (by decide)
  · exact dif_neg (by omega)

-- The layouts are used through these lemmas; unfolding 2048 bytes is never what a proof wants.
attribute [irreducible] fatPacked tablePacked

/-! ## The boot sector -/

def fsSignatureText : List Char :=
  ['C', 'o', 'u', 'r', 's', 'e', ' ', ' ', ' ', ' ', ' ', ' ', ' ', ' ', ' ', ' ',
   'D', 'e', 's', 'i', 'g', 'n', 'e', 'd', ' ', 'b', 'y', ' ', ' ', ' ', ' ', ' ',
   'L', 'a', 'b', ' ', 'S', 'i', 's', 't', 'e', 'r', ' ', 'I', 'T', 'B', ' ', ' ',
   'M', 'a', 'd', 'e', ' ', 'w', 'i', 't', 'h', ' ', '<', '3', ' ', ' ', ' ', ' ',
   '-', '-', '-', '-', '-', '-', '-', '-', '-', '-', '-', '2', '0', '2', '4', '\n']

def byteOf (c : Char) : UInt8 := c.toNat.toUInt8

/-- `fs_signature`: the text, zeros, and `Ok` in the last two bytes. -/
def fsSignature : Vector UInt8 512 := Vector.ofFn fun i : Fin 512 =>
  if i.1 = 510 then byteOf 'O' else if i.1 = 511 then byteOf 'k' else (fsSignatureText.map byteOf).getD i.1 0

end BebasOs.Fat32
