/-
`create_fat32` at power-on: the boot sector, a table of files with its three reserved entries, and an
empty root directory. The disk is well formed and its tree is the root alone.
-/
import BebasOs.Fat32.Run

namespace BebasOs.Fat32

open Bytes Links Search Disk Relation

/-- The table of files of a new disk. -/
def formattedFat : FAT32FileAllocationTable :=
  store (store (store (Vector.replicate 512 0) 0 cluster0Value) 1 cluster1Value) 2 fatEndOfFile

theorem cell_replicate_zero (x : ℕ) : cell (Vector.replicate 512 (0 : UInt32)) x = fatEmptyEntry := by
  unfold cell
  split
  · exact Vector.getElem_replicate _
  · rfl

theorem cell_formattedFat (x : ℕ) : cell formattedFat x =
    if x = 2 then fatEndOfFile else if x = 1 then cluster1Value else if x = 0 then cluster0Value
    else fatEmptyEntry := by
  unfold formattedFat
  rw [cell_store _ _ _ (by omega), cell_store _ _ _ (by omega), cell_store _ _ _ (by omega), cell_replicate_zero]

/-- The table of files before the root directory is entered. -/
def reservedFat : FAT32FileAllocationTable := store (store (Vector.replicate 512 0) 0 cluster0Value) 1 cluster1Value

/-- The root entry of a new disk. -/
def rootEntry (π : Platform) : FAT32DirectoryEntry := selfEntry (rootName π) rootClusterNumber

/-- The root directory of a new disk. -/
def rootTable (π : Platform) : FAT32DirectoryTable := newDirectory (rootEntry π) (dotDotEntry (rootEntry π))

theorem rootEntry_cluster (π : Platform) : (rootEntry π).cluster = 2 :=
  FAT32DirectoryEntry.cluster_of_halves rfl rfl

/-- A machine as `create_fat32` leaves it, started on the disk `d`. -/
structure Formatted (π : Platform) (d : Disk) (s : Machine) : Prop where
  zero : s.disk.cluster 0 = (d.writeBlocks 1 fsSignature 0).cluster 0
  fat : s.disk.fat = formattedFat
  memory : s.memory.fatTable = formattedFat
  root : s.disk.table 2 = rootTable π
  issued : ∀ w ∈ s.issued, place w.1 = 1 ∨ place w.1 = 2

/-! ## Formatting -/

/-- The cluster writes of `create_fat32`. -/
def formatWrites (π : Platform) : List (UInt32 × ClusterBuffer) :=
  [(1, fatPacked reservedFat), (fatClusterNumber, fatPacked formattedFat),
    (rootClusterNumber, tablePacked (rootTable π))]

theorem first_reservedFat : first (isEmptyEntry reservedFat) 1 512 = some 2 := by
  have hcell (x : ℕ) : cell reservedFat x =
      if x = 1 then cluster1Value else if x = 0 then cluster0Value else fatEmptyEntry := by
    unfold reservedFat
    rw [cell_store _ _ _ (by omega), cell_store _ _ _ (by omega), cell_replicate_zero]
  refine first_eq_some.2 ⟨by omega, by omega, ?_, fun x h1 h2 => ?_⟩
  · rw [isEmptyEntry_iff, hcell]; rfl
  · obtain rfl : x = 1 := by omega
    rw [isEmptyEntry, hcell]; rfl

theorem initDirectoryTable_root (π : Platform) (m : FAT32DriverState) (d : Disk) (i : List (UInt32 × ClusterBuffer))
    (hm : m.fatTable = reservedFat) (c : UInt32) :
    ∃ m', initDirectoryTable ⟨m, d, i⟩ (rootName π) c = some ⟨m',
        (d.writeClusters (fatPacked formattedFat) fatClusterNumber).writeClusters (tablePacked (rootTable π))
          rootClusterNumber,
        i ++ [(fatClusterNumber, fatPacked formattedFat)] ++ [(rootClusterNumber, tablePacked (rootTable π))]⟩ ∧
      m'.fatTable = formattedFat := by
  have hroot : UInt32.ofNat 2 = rootClusterNumber := rfl
  have hfat : store reservedFat 2 fatEndOfFile = formattedFat := rfl
  unfold initDirectoryTable
  simp only [hm, first_reservedFat, hroot, if_true, Machine.writeClusters, hfat]
  exact ⟨_, rfl, rfl⟩

theorem bootSector_writeBlocks (d : Disk) (b : Vector UInt8 (512 * 1)) : (d.writeBlocks 1 b 0).bootSector = b := by
  refine Vector.ext fun i hi => ?_
  have h0 : blockAddress 0 = 0 := rfl
  unfold bootSector writeBlocks
  rw [Vector.getElem_ofFn]
  simp only [h0]
  rw [if_pos (by unfold diskSize; omega), Nat.sub_zero]
  exact cell_of_lt b hi

theorem createFat32_eq (π : Platform) (d : Disk) : ∃ m, createFat32 π (powerOn d) =
    some ⟨m, (d.writeBlocks 1 fsSignature 0).replay (formatWrites π), formatWrites π⟩ ∧ m.fatTable = formattedFat := by
  obtain ⟨m, h1, h2⟩ := initDirectoryTable_root π ⟨reservedFat, zeroTable, zeroCluster⟩
    ((d.writeBlocks 1 fsSignature 0).writeClusters (fatPacked reservedFat) 1) [(1, fatPacked reservedFat)] rfl
    rootClusterNumber
  refine ⟨m, ?_, h2⟩
  unfold createFat32 powerOn
  simp only [Machine.writeClusters, List.nil_append]
  rw [show store (store (Vector.replicate 512 0) 0 cluster0Value) 1 cluster1Value = reservedFat from rfl, h1]
  simp only [formatWrites, replay_cons, replay_nil, List.cons_append, List.nil_append]

theorem place_one : place 1 = 1 := rfl

theorem place_root : place rootClusterNumber = 2 := rfl

theorem place_formatWrites {π : Platform} {w : UInt32 × ClusterBuffer} (h : w ∈ formatWrites π) :
    place w.1 = 1 ∨ place w.1 = 2 := by
  unfold formatWrites at h
  rw [List.mem_cons, List.mem_cons, List.mem_singleton] at h
  rcases h with rfl | rfl | rfl
  · exact .inl place_one
  · exact .inl place_fat
  · exact .inr place_root

theorem createFat32_formatted (π : Platform) (d : Disk) : ∃ s, createFat32 π (powerOn d) = some s ∧
    Formatted π d s := by
  obtain ⟨m, h, hm⟩ := createFat32_eq π d
  have hboot : ((d.writeBlocks 1 fsSignature 0).replay (formatWrites π)).cluster 0 =
      (d.writeBlocks 1 fsSignature 0).cluster 0 :=
    cluster_replay_other (fun w hw => by rcases place_formatWrites hw with h | h <;> omega) _
  refine ⟨_, h, ⟨hboot, fat_of_cluster ?_, hm, table_of_cluster ?_, fun w hw => place_formatWrites hw⟩⟩
  · rw [formatWrites, replay_cons, replay_cons, replay_cons, replay_nil,
      cluster_writeClusters_ne _ _ (by rw [place_root]; omega), cluster_writeClusters, place_fat,
      if_pos ⟨rfl, by omega⟩]
  · rw [formatWrites, replay_cons, replay_cons, replay_cons, replay_nil, cluster_writeClusters, place_root,
      if_pos ⟨rfl, by omega⟩]

/-! ## A new disk -/

namespace Formatted

variable {π : Platform} {d : Disk} {s : Machine} {p i : ℕ}

theorem boot (h : Formatted π d s) : s.disk.bootSector = fsSignature := by
  rw [bootSector_congr h.zero, bootSector_writeBlocks]

theorem slot_zero (h : Formatted π d s) : s.disk.slot 2 0 = rootEntry π := by
  unfold slot; rw [h.root]; exact cell_newDirectory_zero _ _

theorem slot_one (h : Formatted π d s) : s.disk.slot 2 1 = dotDotEntry (rootEntry π) := by
  unfold slot; rw [h.root]; exact cell_newDirectory_one _ _

theorem slot_of_ge (h : Formatted π d s) (hi : 2 ≤ i) : s.disk.slot 2 i = default := by
  unfold slot; rw [h.root]; exact cell_newDirectory_of_ge hi

/-- The root is the only directory. -/
theorem liveDir (h : Formatted π d s) (hp : s.disk.LiveDir p) : p = 2 := by
  induction hp with
  | refl => rfl
  | tail _ hl ih =>
    obtain ⟨i, h1, -, h3, -⟩ := hl
    rw [ih, h.slot_of_ge h1] at h3
    exact absurd h3 FAT32DirectoryEntry.not_live_default

theorem not_liveEntry (h : Formatted π d s) : ¬ s.disk.LiveEntry p i := by
  rintro ⟨hp, h1, -, h3⟩
  rw [h.liveDir hp, h.slot_of_ge h1] at h3
  exact FAT32DirectoryEntry.not_live_default h3

theorem rootEntry_live (π : Platform) : (rootEntry π).Live := rfl

theorem wellFormed (h : Formatted π d s) : s.disk.WellFormed where
  fat0 := by rw [h.fat, cell_formattedFat]; decide
  fat1 := by rw [h.fat, cell_formattedFat]; decide
  fat2 := by rw [h.fat, cell_formattedFat]; decide
  signature := h.boot
  shape p hp := by
    rw [h.liveDir hp, h.root]
    exact .newDirectory (rootEntry_live π) (live_dotDotEntry (rootEntry_live π))
  size p i hf := absurd hf.toLiveEntry h.not_liveEntry
  owns p i he := absurd he h.not_liveEntry
  disjoint p i q j l m he := absurd he h.not_liveEntry

theorem tree (h : Formatted π d s) : s.disk.Tree where
  self p hp := by rw [h.liveDir hp, h.slot_zero, rootEntry_cluster]; rfl
  name p hp := by rw [h.liveDir hp, h.slot_one, dotDotEntry_name]
  lister p hp hne := absurd (h.liveDir hp) hne
  root := by rw [h.slot_one, dotDotEntry_cluster, rootEntry_cluster]; rfl
  special p hp i hi := by
    rw [h.liveDir hp]
    obtain rfl | rfl : i = 0 ∨ i = 1 := by omega
    · rw [h.slot_zero]; rfl
    · rw [h.slot_one]; rfl
  folder p i he := absurd he h.not_liveEntry

/-- All clusters from 3 on are free. -/
theorem freeClusters (h : Formatted π d s) : freeClusters s.disk.fat = List.range' 3 509 := by
  refine List.filter_eq_self.2 fun x hx => ?_
  rw [List.mem_range'_1] at hx
  rw [isEmptyEntry_iff, h.fat, cell_formattedFat, if_neg (by omega), if_neg (by omega), if_neg (by omega)]

/-- A request under a name the root does not have is served, in slot 2 and from cluster 3 on. -/
theorem accepted (h : Formatted π d s) {r : FAT32DriverRequest} (hp : r.parent = 2) (hn : needed r ≤ 509)
    (h0 : r.name ≠ rootName π) (h1 : r.name ≠ dotDot) (h2 : r.name ≠ Vector.replicate 8 0) : Accepted s r 2 3 where
  unmatched := by
    rw [hp]
    refine first_eq_none.2 fun k _ _ => ?_
    rw [Bool.eq_false_iff, ne_eq, FAT32DirectoryEntry.hasName_iff]
    rintro ⟨hk, -⟩
    have hslot : (s.disk.slot 2 k).name = r.name := hk
    by_cases hk2 : k < 2
    · obtain rfl | rfl : k = 0 ∨ k = 1 := by omega
      · rw [h.slot_zero] at hslot; exact h0 hslot.symm
      · rw [h.slot_one, dotDotEntry_name] at hslot; exact h1 hslot.symm
    · rw [h.slot_of_ge (by omega)] at hslot
      exact h2 (hslot.symm.trans (by decide))
  free := by
    refine first_eq_some.2 ⟨Nat.le_refl 3, by omega, ?_, fun x h1 h2 => absurd h1 (by omega)⟩
    rw [isEmptyEntry_iff, h.fat, cell_formattedFat]
    rfl
  room := by rw [h.freeClusters, List.length_range']; exact hn
  slot := by
    have h64 : 64 ≤ if r.bufferSize = 0 then 64 else 128 := by split <;> omega
    refine first_eq_some.2 ⟨by omega, by omega, ?_, fun k _ hk => ?_⟩
    · rw [slotAttribute_loaded (by omega), hp, h.slot_of_ge (Nat.le_refl 2)]
      decide
    · rw [slotAttribute_loaded (by omega), hp]
      obtain rfl | rfl : k = 0 ∨ k = 1 := by omega
      · rw [h.slot_zero]; rfl
      · rw [h.slot_one]; rfl

end Formatted

end BebasOs.Fat32
