/-
Moving an entry, syscall 11 of `interrupt.c`: two private copies of directory tables are edited and
written back, each to the cluster its own slot 0 names, the source first. Between two directories
that is a move; within one directory the second write undoes the removal, and the entry is doubled.
-/
import BebasOs.Fat32.Reachable

namespace BebasOs.Fat32

open Bytes Search Disk

/-! ## The system call -/

/-- The fields of `src` copied one by one into `dest`. The eight bytes copied to `ext` reach into the
fields behind it, which are copied again. -/
def copyEntry (dest src : FAT32DirectoryEntry) : FAT32DirectoryEntry :=
  { dest with
    name := src.name
    ext := src.ext
    attributeByte := src.attributeByte
    userAttribute := src.userAttribute
    undelete := src.undelete
    createTime := src.createTime
    createDate := src.createDate
    accessDate := src.accessDate
    modifiedTime := src.modifiedTime
    modifiedDate := src.modifiedDate
    filesize := src.filesize
    clusterHigh := src.clusterHigh
    clusterLow := src.clusterLow }

/-- The fields of the source slot zeroed one by one. -/
def clearEntry (src : FAT32DirectoryEntry) : FAT32DirectoryEntry :=
  { src with
    name := Vector.replicate 8 0
    ext := Vector.replicate 3 0
    attributeByte := 0
    userAttribute := 0
    undelete := 0
    createTime := 0
    createDate := 0
    accessDate := 0
    modifiedTime := 0
    modifiedDate := 0
    filesize := 0
    clusterHigh := 0
    clusterLow := 0 }

/-- The two copies after the loop; slot 0 of the destination is never looked at. An index past the
table has no result. -/
def moveTables (srcTable destTable : FAT32DirectoryTable) (srcIdx : UInt32) :
    Option (FAT32DirectoryTable × FAT32DirectoryTable) :=
  match first (isFreeSlot destTable) 1 64 with
  | none => some (srcTable, destTable)
  | some i =>
    if srcIdx.toNat < 64 then
      some (store srcTable srcIdx.toNat (clearEntry (cell srcTable srcIdx.toNat)),
        store destTable i (copyEntry (cell destTable i) (cell srcTable srcIdx.toNat)))
    else none

/-- Syscall 11, on the two tables and the index it is given. -/
def moveEntry (s : Machine) (srcTable destTable : FAT32DirectoryTable) (srcIdx : UInt32) : Option Machine := do
  let (srcTable, destTable) ← moveTables srcTable destTable srcIdx
  return (s.writeClusters (tablePacked srcTable) (cell srcTable 0).cluster).writeClusters
    (tablePacked destTable) (cell destTable 0).cluster

theorem copyEntry_eq (dest src : FAT32DirectoryEntry) : copyEntry dest src = src := rfl

theorem clearEntry_eq (src : FAT32DirectoryEntry) : clearEntry src = default := by
  unfold clearEntry
  decide +revert

theorem moveTables_full {src dest : FAT32DirectoryTable} (srcIdx : UInt32) (h : first (isFreeSlot dest) 1 64 = none) :
    moveTables src dest srcIdx = some (src, dest) := by
  unfold moveTables
  simp only [h]

theorem moveTables_free {src dest : FAT32DirectoryTable} {srcIdx : UInt32} {j : ℕ}
    (h : first (isFreeSlot dest) 1 64 = some j) (hi : srcIdx.toNat < 64) :
    moveTables src dest srcIdx =
      some (store src srcIdx.toNat default, store dest j (cell src srcIdx.toNat)) := by
  unfold moveTables
  simp only [h, if_pos hi, clearEntry_eq, copyEntry_eq]

/-! ## What it should do -/

/-- The live child entries of a directory table, with their multiplicity. -/
def childEntries (t : FAT32DirectoryTable) : Multiset FAT32DirectoryEntry :=
  ∑ i ∈ Finset.Ico 2 64, if (cell t i).Live then {cell t i} else 0

/-- The entry in slot `i` of directory `a` was moved to directory `b`, or there was no room for it, and
nothing else changed. -/
structure Moved (d d' : Disk) (a b i : ℕ) : Prop where
  outcome : (¬ d.HasFreeSlot b ∧ d'.table a = d.table a ∧ d'.table b = d.table b) ∨
    (¬ (d'.slot a i).Live ∧ ∃! j, (2 ≤ j ∧ j < 64) ∧ d'.slot b j = d.slot a i)
  children : ∑ p ∈ {a, b}, childEntries (d'.table p) = ∑ p ∈ {a, b}, childEntries (d.table p)
  others : ∀ x, x ≠ a → x ≠ b → d'.cluster x = d.cluster x

/-- The cluster that slot 0 of a directory names. -/
def home (d : Disk) (p : ℕ) : ℕ := place (d.slot p 0).cluster

/-- Writing the table of directory `p` back to where its slot 0 says changes nothing. -/
def WritesBack (d : Disk) (p : ℕ) : Prop := home d p < 2048 → d.cluster (home d p) = d.cluster p

/-- When a move does what it should: the destination is full and writing both tables back changes
nothing, or it has room, is another directory, and both directories know their own cluster. -/
inductive MoveSound (d : Disk) (a b : ℕ) : Prop
  | full (h : ¬ d.HasFreeSlot b) (hb : WritesBack d b) (ha : home d a ≠ home d b → WritesBack d a)
  | apart (h : d.HasFreeSlot b) (hne : a ≠ b) (ha : home d a = a) (hb : home d b = b)

variable {s s' : Machine} {d d' : Disk} {a b i j : ℕ} {srcIdx : UInt32} {e : FAT32DirectoryEntry}
  {t : FAT32DirectoryTable}

/-! ## Child entries -/

theorem childEntries_store (hj : 2 ≤ j) (hj' : j < 64) (hl : ¬ (cell t j).Live) (he : e.Live) :
    childEntries (store t j e) = e ::ₘ childEntries t := by
  have hmem : j ∈ Finset.Ico 2 64 := Finset.mem_Ico.2 ⟨hj, hj'⟩
  have hrest : ∑ k ∈ (Finset.Ico 2 64).erase j,
      (if (cell (store t j e) k).Live then ({cell (store t j e) k} : Multiset FAT32DirectoryEntry) else 0) =
      ∑ k ∈ (Finset.Ico 2 64).erase j, if (cell t k).Live then {cell t k} else 0 := by
    refine Finset.sum_congr rfl fun k hk => ?_
    rw [cell_store_ne _ _ (Ne.symm (Finset.ne_of_mem_erase hk))]
  unfold childEntries
  rw [← Finset.add_sum_erase _ _ hmem, ← Finset.add_sum_erase _ _ hmem, hrest, cell_store_self _ _ hj', if_pos he,
    if_neg hl, zero_add, Multiset.singleton_add]

/-- Taking an entry out of its slot takes it out of the children. -/
theorem childEntries_clear (hj : 2 ≤ j) (hj' : j < 64) (hl : (cell t j).Live) :
    childEntries t = cell t j ::ₘ childEntries (store t j default) := by
  have hback : store (store t j default) j (cell t j) = t := by
    refine cell_ext fun k _ => ?_
    rw [cell_store _ _ _ hj']
    split
    · subst k
      rfl
    · exact cell_store_ne _ _ (Ne.symm ‹_›)
  rw [← childEntries_store hj hj' ?_ hl, hback]
  rw [cell_store_self _ _ hj']
  exact FAT32DirectoryEntry.not_live_default

/-! ## The clusters after the call -/

/-- The disk after the two writes of a move, of the tables `src` and `dest`. -/
def movedDisk (d : Disk) (a b : ℕ) (src dest : FAT32DirectoryTable) : Disk :=
  (d.writeClusters (tablePacked src) (d.slot a 0).cluster).writeClusters (tablePacked dest) (d.slot b 0).cluster

theorem cluster_movedDisk (d : Disk) (a b : ℕ) (src dest : FAT32DirectoryTable) (k : ℕ) :
    (movedDisk d a b src dest).cluster k = if k = home d b ∧ k < 2048 then tablePacked dest
      else if k = home d a ∧ k < 2048 then tablePacked src else d.cluster k := by
  unfold movedDisk home
  rw [cluster_writeClusters, cluster_writeClusters]

/-- The two directories of a move know their own clusters. -/
theorem cluster_movedDisk_home (hra : a < 2048) (hrb : b < 2048) (ha : home d a = a) (hb : home d b = b)
    (src dest : FAT32DirectoryTable) (k : ℕ) : (movedDisk d a b src dest).cluster k =
      if k = b then tablePacked dest else if k = a then tablePacked src else d.cluster k := by
  have hka : k = a ∧ k < 2048 ↔ k = a := ⟨And.left, fun h => ⟨h, by omega⟩⟩
  have hkb : k = b ∧ k < 2048 ↔ k = b := ⟨And.left, fun h => ⟨h, by omega⟩⟩
  rw [cluster_movedDisk, ha, hb]
  simp only [hka, hkb]

theorem tablePacked_table (d : Disk) (p : ℕ) : tablePacked (d.table p) = d.cluster p := by
  unfold Disk.table
  rw [Equiv.apply_symm_apply]

/-- A table stays as it was only if its cluster does. -/
theorem table_eq_iff {p : ℕ} : d'.table p = d.table p ↔ d'.cluster p = d.cluster p := by
  unfold Disk.table
  exact tablePacked.symm.injective.eq_iff

theorem Machine.writeClusters_disk (s : Machine) (b : ClusterBuffer) (c : UInt32) :
    (s.writeClusters b c).disk = s.disk.writeClusters b c := rfl

/-- The edited copies are written to the clusters that their slots 0 name. -/
theorem moveEntry_tables {src dest src' dest' : FAT32DirectoryTable}
    (h : moveTables src dest srcIdx = some (src', dest')) (ha : cell src' 0 = s.disk.slot a 0)
    (hb : cell dest' 0 = s.disk.slot b 0) :
    ∃ s', moveEntry s src dest srcIdx = some s' ∧ s'.disk = movedDisk s.disk a b src' dest' := by
  unfold moveEntry
  rw [h]
  refine ⟨_, rfl, ?_⟩
  rw [Machine.writeClusters_disk, Machine.writeClusters_disk, ha, hb, movedDisk]

theorem slot_of_cluster {p q : ℕ} (h : d'.cluster p = d.cluster q) : d'.slot p i = d.slot q i := by
  unfold slot Disk.table
  rw [h]

theorem slot_of_packed {p : ℕ} (h : d.cluster p = tablePacked t) : d.slot p i = cell t i := by
  unfold slot
  rw [table_of_cluster h]

section

variable (hshape : DirShape (s.disk.table b))
include hshape

/-- Without a free slot the two tables are written back as they are. -/
theorem moveEntry_full (hfull : ¬ s.disk.HasFreeSlot b) :
    ∃ s', moveEntry s (s.disk.table a) (s.disk.table b) srcIdx = some s' ∧
      s'.disk = movedDisk s.disk a b (s.disk.table a) (s.disk.table b) := by
  have hnone : first (isFreeSlot (s.disk.table b)) 1 64 = none := by
    refine first_eq_none.2 fun k hk hk' => ?_
    rw [isFreeSlot, bne_eq_false_iff_eq]
    by_cases hk1 : k = 1
    · subst k
      exact hshape.parent
    · by_contra hlive
      exact hfull ⟨k, by omega, hk', hlive⟩
  exact moveEntry_tables (moveTables_full srcIdx hnone) rfl rfl

/-- With a free slot, the first one takes the entry. -/
theorem moveEntry_free (hi : 2 ≤ srcIdx.toNat) (hi' : srcIdx.toNat < 64) (hfree : s.disk.HasFreeSlot b) :
    ∃ j s', 2 ≤ j ∧ j < 64 ∧ ¬ (s.disk.slot b j).Live ∧
      moveEntry s (s.disk.table a) (s.disk.table b) srcIdx = some s' ∧
      s'.disk = movedDisk s.disk a b (store (s.disk.table a) srcIdx.toNat default)
        (store (s.disk.table b) j (s.disk.slot a srcIdx.toNat)) := by
  obtain ⟨k, hk, hk', hlive⟩ := hfree
  rcases hj : first (isFreeSlot (s.disk.table b)) 1 64 with _ | j
  · have := first_eq_none.1 hj k (by omega) hk'
    rw [isFreeSlot, bne_eq_false_iff_eq] at this
    exact absurd this hlive
  · obtain ⟨hj1, hj64, hj3, -⟩ := first_eq_some.1 hj
    have hfree : ¬ (s.disk.slot b j).Live := by
      rw [isFreeSlot, bne_iff_ne] at hj3
      exact hj3
    -- the search starts at slot 1, which is in use
    have hj2 : j ≠ 1 := by
      rintro rfl
      exact hfree hshape.parent
    have hsrc : cell (store (s.disk.table a) srcIdx.toNat default) 0 = s.disk.slot a 0 := cell_store_ne _ _ (by omega)
    have hdest : cell (store (s.disk.table b) j (s.disk.slot a srcIdx.toNat)) 0 = s.disk.slot b 0 :=
      cell_store_ne _ _ (by omega)
    obtain ⟨s', h1, h2⟩ := moveEntry_tables (moveTables_free hj hi') hsrc hdest
    exact ⟨j, s', by omega, hj64, hfree, h1, h2⟩

end

/-! ## Full destinations -/

/-- An entry of a sound disk is in one slot only. -/
theorem Disk.Sound.sole {p k : ℕ} (hd : d.Sound) (he : d.LiveEntry a i) (hp : d.LiveDir p) (hk : 2 ≤ k) (hk' : k < 64)
    (h : d.slot p k = d.slot a i) : p = a ∧ k = i := by
  obtain ⟨l, hl⟩ := hd.owns a i he
  have hlive : d.LiveEntry p k := ⟨hp, hk, hk', by rw [h]; exact he.live⟩
  have hl' : Owns d.fat (d.slot p k) l := by
    rw [h]
    exact hl
  exact hd.eq_of_shared hlive he hl' hl hl.first_mem hl.first_mem

theorem cluster_full (d : Disk) (a b k : ℕ) : (movedDisk d a b (d.table a) (d.table b)).cluster k =
    if k = home d b ∧ k < 2048 then d.cluster b else if k = home d a ∧ k < 2048 then d.cluster a else d.cluster k := by
  rw [cluster_movedDisk, tablePacked_table, tablePacked_table]

/-- Into a full directory the move is right exactly when writing the tables back changes nothing. -/
theorem moved_full_iff (he : d.LiveEntry a i) (hfull : ¬ d.HasFreeSlot b) :
    Moved d (movedDisk d a b (d.table a) (d.table b)) a b i ↔
      WritesBack d b ∧ (home d a ≠ home d b → WritesBack d a) := by
  have hlive : ∀ k, 2 ≤ k → k < 64 → (d.slot b k).Live := fun k hk hk' => by
    by_contra h
    exact hfull ⟨k, hk, hk', h⟩
  have hcl := cluster_full d a b
  constructor
  · intro h
    have hkept : ∀ k, (movedDisk d a b (d.table a) (d.table b)).cluster k = d.cluster k := by
      rcases h.outcome with ⟨-, h1, h2⟩ | ⟨h1, -⟩
      · intro k
        by_cases hka : k = a
        · rw [hka]; exact table_eq_iff.1 h1
        · by_cases hkb : k = b
          · rw [hkb]; exact table_eq_iff.1 h2
          · exact h.others k hka hkb
      · -- the slot cannot have been emptied: its cluster holds one of two tables with a live entry there
        refine absurd ?_ h1
        have ha := hcl a
        split_ifs at ha <;> rw [slot_of_cluster ha]
        · exact hlive i he.lo he.hi
        · exact he.live
        · exact he.live
    refine ⟨fun hlt => ?_, fun hne hlt => ?_⟩
    · rw [← hkept (home d b), hcl, if_pos ⟨rfl, hlt⟩]
    · rw [← hkept (home d a), hcl, if_neg (fun hc => hne hc.1), if_pos ⟨rfl, hlt⟩]
  · rintro ⟨hb, ha⟩
    have hkept : ∀ k, (movedDisk d a b (d.table a) (d.table b)).cluster k = d.cluster k := by
      intro k
      rw [hcl]
      split_ifs with h1 h2
      · rw [h1.1]; exact (hb (by omega)).symm
      · rw [h2.1]; exact (ha (fun hc => h1 ⟨h2.1.trans hc, h2.2⟩) (by omega)).symm
      · rfl
    have htable (p : ℕ) : (movedDisk d a b (d.table a) (d.table b)).table p = d.table p := table_congr (hkept p)
    refine ⟨.inl ⟨hfull, htable a, htable b⟩, ?_, fun k _ _ => hkept k⟩
    exact Finset.sum_congr rfl fun p _ => by rw [htable]

/-! ## Destinations with room -/

section

variable (hd : d.Sound) (he : d.LiveEntry a i) (hb : d.LiveDir b) (hj' : j < 64) (hfree : ¬ (d.slot b j).Live)
include hd he hb hj' hfree

/-- The disk after the call, when slot `j` of the destination is free. -/
theorem moved_apart (hj : 2 ≤ j) (hne : a ≠ b) (ha : home d a = a) (hb' : home d b = b) :
    Moved d (movedDisk d a b (store (d.table a) i default) (store (d.table b) j (d.slot a i))) a b i := by
  have hra := hd.liveDir_range he.dir
  have hrb := hd.liveDir_range hb
  generalize hd' : movedDisk d a b (store (d.table a) i default) (store (d.table b) j (d.slot a i)) = d'
  have hcl := cluster_movedDisk_home (d := d) (by omega) (by omega) ha hb' (store (d.table a) i default)
    (store (d.table b) j (d.slot a i))
  rw [hd'] at hcl
  have hta : d'.table a = store (d.table a) i default := table_of_cluster (by rw [hcl, if_neg hne, if_pos rfl])
  have htb : d'.table b = store (d.table b) j (d.slot a i) := table_of_cluster (by rw [hcl, if_pos rfl])
  have hslotb (k : ℕ) : d'.slot b k = if k = j then d.slot a i else d.slot b k := by
    show cell (d'.table b) k = _
    rw [htb, cell_store _ _ _ hj']
    rfl
  refine ⟨.inr ⟨?_, j, ⟨⟨hj, hj'⟩, by rw [hslotb, if_pos rfl]⟩, ?_⟩, ?_,
    fun k h1 h2 => by rw [hcl, if_neg h2, if_neg h1]⟩
  · unfold slot
    rw [hta, cell_store_self _ _ he.hi]
    exact FAT32DirectoryEntry.not_live_default
  · rintro k ⟨⟨hk, hk'⟩, hk2⟩
    rw [hslotb] at hk2
    -- a second copy in the destination would have been there before the move
    by_contra hkj
    rw [if_neg hkj] at hk2
    exact hne (hd.sole he hb hk hk' hk2).1.symm
  · have hsrc := childEntries_clear (t := d.table a) he.lo he.hi he.live
    have hdest := childEntries_store (t := d.table b) hj hj' hfree he.live
    rw [Finset.sum_pair hne, Finset.sum_pair hne, hta, htb, hdest, hsrc, Multiset.add_cons, Multiset.cons_add]
    rfl

/-- A move that did what it should is between two directories that know their own clusters. -/
theorem apart_of_moved (hroom : d.HasFreeSlot b)
    (h : Moved d (movedDisk d a b (store (d.table a) i default) (store (d.table b) j (d.slot a i))) a b i) :
    a ≠ b ∧ home d a = a ∧ home d b = b := by
  have hcl := cluster_movedDisk d a b (store (d.table a) i default) (store (d.table b) j (d.slot a i))
  generalize movedDisk d a b (store (d.table a) i default) (store (d.table b) j (d.slot a i)) = d' at h hcl
  rcases h.outcome with ⟨hfull, -⟩ | ⟨hgone, k, ⟨⟨hk, hk'⟩, hplaced⟩, -⟩
  · exact absurd hroom hfull
  -- neither the source without the entry nor an untouched destination holds it
  have hsrc : cell (store (d.table a) i default) k ≠ d.slot a i := by
    rw [cell_store _ _ _ he.hi]
    split
    · intro h
      exact FAT32DirectoryEntry.not_live_default (by rw [h]; exact he.live)
    · exact fun h => absurd (hd.sole he he.dir hk hk' h).2 ‹_›
  have hold (hne : a ≠ b) : d.slot b k ≠ d.slot a i := fun h => hne (hd.sole he hb hk hk' h).1.symm
  have hclb := hcl b
  have hcla := hcl a
  by_cases hne : a = b
  · -- in one directory the slot holds the entry again, or the disk does not have its cluster
    subst hne
    exfalso
    split_ifs at hcla with h1
    · refine hgone ?_
      rw [slot_of_packed hcla, cell_store _ _ _ hj']
      split
      · exact he.live
      · exact he.live
    · rw [slot_of_cluster hcla] at hgone
      exact hgone he.live
  · refine ⟨hne, ?_⟩
    have hb' : home d b = b := by
      by_contra hbne
      rw [if_neg (fun h => hbne h.1.symm)] at hclb
      split_ifs at hclb with h1
      · rw [slot_of_packed hclb] at hplaced
        exact hsrc hplaced
      · rw [slot_of_cluster hclb] at hplaced
        exact hold hne hplaced
    refine ⟨?_, hb'⟩
    by_contra hane
    rw [if_neg (fun h => hne (h.1.trans hb')), if_neg (fun h => hane h.1.symm)] at hcla
    rw [slot_of_cluster hcla] at hgone
    exact hgone he.live

end

/-- A move of a live entry always ends, and does what it should exactly when the destination is full and
writing the tables back changes nothing, or has room and is another directory, and both directories know
their own cluster. -/
theorem moveEntry_iff (hd : s.disk.WellFormed) (he : s.disk.LiveEntry a srcIdx.toNat) (hb : s.disk.LiveDir b) :
    ∃ s', moveEntry s (s.disk.table a) (s.disk.table b) srcIdx = some s' ∧
      (Moved s.disk s'.disk a b srcIdx.toNat ↔ MoveSound s.disk a b) := by
  have hs := hd.toSound
  by_cases hroom : s.disk.HasFreeSlot b
  · obtain ⟨j, s', hj, hj', hfree, h1, h2⟩ := moveEntry_free (a := a) (hs.shape b hb) he.lo he.hi hroom
    refine ⟨s', h1, ?_⟩
    rw [h2]
    constructor
    · intro h
      obtain ⟨hne, ha, hb'⟩ := apart_of_moved hs he hb hj' hfree hroom h
      exact .apart hroom hne ha hb'
    · intro h
      cases h with
      | full h => exact absurd hroom h
      | apart _ hne ha hb' => exact moved_apart hs he hb hj' hfree hj hne ha hb'
  · obtain ⟨s', h1, h2⟩ : ∃ s', moveEntry s (s.disk.table a) (s.disk.table b) srcIdx = some s' ∧
        s'.disk = movedDisk s.disk a b (s.disk.table a) (s.disk.table b) := moveEntry_full (hs.shape b hb) hroom
    refine ⟨s', h1, ?_⟩
    rw [h2, moved_full_iff he hroom]
    constructor
    · rintro ⟨h3, h4⟩
      exact .full hroom h3 h4
    · intro h
      cases h with
      | full _ h3 h4 => exact ⟨h3, h4⟩
      | apart h => exact absurd h hroom

theorem moveEntry_iff_fileA : ∃ s s', s.disk.LiveEntry 2 2 ∧
    moveEntry s (s.disk.table 2) (s.disk.table 2) 2 = some s' ∧
      (Moved s.disk s'.disk 2 2 2 ↔ MoveSound s.disk 2 2) := by
  obtain ⟨-, s, -, -, -, h⟩ := exists_holdsA
  have he : s.disk.LiveEntry 2 (2 : UInt32).toNat := h.file.toLiveEntry
  obtain ⟨s', h1, h2⟩ := moveEntry_iff h.wellFormed he s.disk.liveDir_root
  exact ⟨s, s', he, h1, h2⟩

/-- Moving the file `a` from the root into the root, which has room, does not move it. -/
theorem fileA_not_moved : ∃ s s', s.disk.WellFormed ∧ s.disk.LiveEntry 2 2 ∧ s.disk.HasFreeSlot 2 ∧
    moveEntry s (s.disk.table 2) (s.disk.table 2) 2 = some s' ∧ ¬ Moved s.disk s'.disk 2 2 2 := by
  obtain ⟨-, s, -, -, -, h⟩ := exists_holdsA
  have hd := h.wellFormed.toSound
  have he : s.disk.LiveEntry 2 (2 : UInt32).toNat := h.file.toLiveEntry
  have hroot := s.disk.liveDir_root
  have hroom := h.hasFreeSlot
  obtain ⟨j, s', -, hj', hfree, h1, h2⟩ := moveEntry_free (a := 2) (hd.shape 2 hroot) he.lo he.hi hroom
  refine ⟨s, s', h.wellFormed, he, hroom, h1, fun hm => ?_⟩
  rw [h2] at hm
  exact (apart_of_moved hd he hroot hj' hfree hroom hm).1 rfl

end BebasOs.Fat32
