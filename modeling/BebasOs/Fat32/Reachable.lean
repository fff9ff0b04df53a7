/-
The runs of a new disk. While no directory deletes itself the tables stay sound and the directories
stay a tree; while also no delete resolves to an unused slot the disk stays well formed and its boot
sector and reserved entries are never written. Both kinds of delete are possible requests.
-/
import BebasOs.Fat32.Format
import Mathlib.Data.List.GetD

namespace BebasOs.Fat32

open Bytes Links Search Disk Relation

variable {π : Platform} {d : Disk} {s s' s₀ : Machine} {r : FAT32DriverRequest} {i : ℕ}

/-! ## Runs of a new disk -/

theorem formatted_of_create (h : createFat32 π (powerOn d) = some s) : Formatted π d s := by
  obtain ⟨s', h1, h2⟩ := createFat32_formatted π d
  rw [h1] at h
  cases h
  exact h2

/-- Sound tables and a tree, kept by every run in which no directory deletes itself. -/
theorem run_sound_tree {P : Disk → Request → Prop} (hP : ∀ d q, P d q → d.LiveDir q.data.parent ∧ q.Steady d)
    (h₀ : Formatted π d s₀) (h : ReflTransGen (Step π P) s₀ s) : s.disk.Sound ∧ s.disk.Tree := by
  refine run_invariant (I := fun s => s.disk.Sound ∧ s.disk.Tree) ⟨h₀.wellFormed.toSound, h₀.tree⟩ ?_ h
  rintro s s' q code ⟨hd, ht⟩ hq hs
  obtain ⟨hp, hst⟩ := hP _ q hq
  exact (perform_effect hd hp hs).sound_tree hd ht hp hst

/-! ## Boot sector and reserved entries -/

/-- The boot sector and the reserved entries of the table of files as formatting leaves them. -/
structure Disk.Reserved (d : Disk) : Prop where
  signature : d.bootSector = fsSignature
  fat0 : cell d.fat 0 = cluster0Value
  fat1 : cell d.fat 1 = cluster1Value
  fat2 : cell d.fat 2 = fatEndOfFile

theorem Disk.SameBoot.reserved {d d' : Disk} (h : d.SameBoot d') (hd : d.Reserved) : d'.Reserved where
  signature := (bootSector_congr h.cluster).trans hd.signature
  fat0 := (h.fat 0 (by omega)).trans hd.fat0
  fat1 := (h.fat 1 (by omega)).trans hd.fat1
  fat2 := (h.fat 2 (by omega)).trans hd.fat2

theorem Formatted.reserved (h : Formatted π d s) : s.disk.Reserved where
  signature := h.boot
  fat0 := by rw [h.fat, cell_formattedFat]; rfl
  fat1 := by rw [h.fat, cell_formattedFat]; rfl
  fat2 := by rw [h.fat, cell_formattedFat]; rfl

/-- A disk is formatted at start-up when its first block is not the signature. -/
theorem isEmptyStorage_iff {d : Disk} : isEmptyStorage d = true ↔ d.bootSector ≠ fsSignature := by
  have hm : memcmp (n := 512) (d.readBlocks 0 1) fsSignature = 0 ↔ d.bootSector = fsSignature := by
    rw [memcmp_eq_zero, readBlocks_boot]
  unfold isEmptyStorage
  rw [bne_iff_ne, ne_eq, hm]

theorem isEmptyStorage_of_signature {d : Disk} (h : d.bootSector = fsSignature) : isEmptyStorage d = false := by
  rw [Bool.eq_false_iff, ne_eq, isEmptyStorage_iff]
  exact not_not_intro h

/-- Mounting a disk with the signature loads its table of files and writes nothing. -/
theorem initialize_mounted (h : s.disk.bootSector = fsSignature) :
    ∃ m, initializeFilesystemFat32 π s = some ⟨m, s.disk, s.issued⟩ ∧ m.fatTable = s.disk.fat := by
  have hfat : fatPacked.symm (s.disk.readClusters 1) = s.disk.fat := by
    rw [readClusters_eq, place_one]; rfl
  unfold initializeFilesystemFat32
  rw [isEmptyStorage_of_signature h, hfat]
  exact ⟨_, rfl, rfl⟩

/-- Without the signature the disk is formatted. -/
theorem initialize_formatted (h : s.disk.bootSector ≠ fsSignature) :
    initializeFilesystemFat32 π s = createFat32 π s := by
  unfold initializeFilesystemFat32
  rw [if_pos (isEmptyStorage_iff.2 h)]

theorem place_parent_ne_zero (hd : d.Sound) (hp : d.LiveDir r.parent) : place r.parentClusterNumber ≠ 0 := by
  obtain ⟨hp2, hp'⟩ := hd.liveDir_range hp
  rw [place_parent hp']
  omega

theorem place_fat_ne_zero : place fatClusterNumber ≠ 0 := by rw [place_fat]; omega

theorem mem_requestWrites {w : UInt32 × ClusterBuffer} {j c : ℕ} (hd : s.disk.Sound) (hp : s.disk.LiveDir r.parent)
    (h : Accepted s r j c) (hw : w ∈ requestWrites s.disk r j c) : place w.1 ≠ 0 := by
  have hc := h.cluster_range
  unfold requestWrites at hw
  split at hw
  · unfold folderWrites at hw
    rw [List.mem_cons, List.mem_cons, List.mem_singleton] at hw
    rcases hw with rfl | rfl | rfl
    · exact place_fat_ne_zero
    · exact place_parent_ne_zero hd hp
    · rw [place_ofNat hc.2.1]; omega
  · unfold fileWrites at hw
    rw [List.mem_append, List.mem_cons, List.mem_singleton] at hw
    rcases hw with hw | rfl | rfl
    · obtain ⟨x, hx, h1⟩ := mem_dataWrites hw
      have := mem_taken hx
      rw [h1, place_ofNat this.2.1]; omega
    · exact place_fat_ne_zero
    · exact place_parent_ne_zero hd hp

/-- A step whose delete resolves to a slot in use writes no cluster 0. -/
theorem Effect.issued {q : Request} {code : Int} (h : Effect s q code s') (hd : s.disk.Sound) (ht : s.disk.Tree)
    (hp : s.disk.LiveDir q.data.parent) (hs : q.Steady s.disk) (hl : q.OnLive s.disk) :
    ∀ w ∈ s'.issued, w ∈ s.issued ∨ place w.1 ≠ 0 := by
  intro w hw
  cases h with
  | idle _ hi => rw [hi] at hw; exact .inl hw
  | stored h =>
    rw [h.issued, List.mem_append] at hw
    exact hw.imp_right (mem_requestWrites hd hp h.toAccepted)
  | @freed r i s' h =>
    have hi := h.not_special ht hp (hs r rfl)
    -- the cluster that is freed belongs to a live entry, and so lies past the root
    have hr := (h.removed hd ⟨hp, hi, h.resolves.spec.1, hl r rfl i h.resolves⟩).owns.range _ List.mem_cons_self
    rw [h.issued, List.mem_append] at hw
    refine hw.imp_right fun hw => ?_
    unfold freeWrites at hw
    rw [List.mem_cons, List.mem_cons, List.mem_singleton] at hw
    rcases hw with rfl | rfl | rfl
    · show place (s.disk.slot r.parent i).cluster ≠ 0
      rw [place_of_lt (by omega)]; omega
    · exact place_fat_ne_zero
    · exact place_parent_ne_zero hd hp
  | @purged r i zs s' h =>
    obtain ⟨l, hm, -⟩ := h.removed hd (h.liveFile hd (ht.sizedAt hp _) hp)
    rw [h.issued, List.mem_append] at hw
    refine hw.imp_right fun hw => ?_
    unfold purgeWrites at hw
    rw [List.mem_append, List.mem_singleton, h.chain l hm.owns, List.map_map] at hw
    rcases hw with hw | rfl
    · obtain ⟨x, hx, rfl⟩ := List.mem_map.1 hw
      have := hm.owns.range x hx
      show place (UInt32.ofNat x) ≠ 0
      rw [place_ofNat this.2]; omega
    · exact place_parent_ne_zero hd hp

/-! ## A sample disk -/

/-- A disk of zeros. -/
def zeroDisk : Disk := ⟨fun _ => 0⟩

/-- A platform whose unset memory reads as zero. -/
def zeroPlatform : Platform := ⟨Vector.replicate 3 0, fun _ _ => 0⟩

/-- A request in the root directory, by the first letter of its name, with a buffer of ones. -/
def letterRequest (letter : UInt8) (bufferSize : UInt32) : FAT32DriverRequest where
  buf _ := 1
  name := #v[letter, 0, 0, 0, 0, 0, 0, 0]
  ext := #v[0, 0, 0]
  parentClusterNumber := 2
  bufferSize := bufferSize

/-- The sample file `a` of one byte. -/
def fileA : FAT32DriverRequest := letterRequest 97 1

/-- The sample folder `b`. -/
def folderB : FAT32DriverRequest := letterRequest 98 0

/-- The sample folder `c`. -/
def folderC : FAT32DriverRequest := letterRequest 99 0

theorem rootName_getElem (π : Platform) : (rootName π)[0] = 114 := by
  have happ : rootName π = (#v[114, 111, 111, 116, 0] : Vector UInt8 5) ++ π.rootTail := rfl
  simp only [happ]
  rw [Vector.getElem_append]
  rfl

theorem name_ne_rootName {v : Vector UInt8 8} (h : v[0] ≠ 114) : v ≠ rootName π := fun he =>
  h (by rw [he]; exact rootName_getElem π)

theorem fileA_accepted (h : Formatted π d s) : Accepted s fileA 2 3 :=
  h.accepted rfl (by decide) (name_ne_rootName (by decide)) (by decide) (by decide)

theorem folderB_accepted (h : Formatted π d s) : Accepted s folderB 2 3 :=
  h.accepted rfl (by decide) (name_ne_rootName (by decide)) (by decide) (by decide)

theorem Formatted.hasFreeSlot (h : Formatted π d s) : s.disk.HasFreeSlot 2 :=
  ⟨2, Nat.le_refl 2, by omega, by rw [h.slot_of_ge (Nat.le_refl 2)]; decide⟩

/-- In the root of a new disk every request fits. -/
theorem Formatted.fits (h : Formatted π d s) {q : Request} (hp : q.data.parent = 2) : q.Fits s.disk where
  live := by rw [hp]; exact s.disk.liveDir_root
  room r hq _ := by
    subst hq
    rw [show r.parent = 2 from hp]; exact h.hasFreeSlot

/-- After a folder is made on a new disk there are free clusters left. -/
theorem Stored.freeClusters_pos (h : Stored s r 2 3 s') (hf : Formatted π d s) (hp : s.disk.LiveDir r.parent)
    (hb : r.bufferSize = 0) : 1 ≤ (freeClusters s'.disk.fat).length := by
  have hi := h.inserted hf.wellFormed.toSound.grounded hp (by omega)
  have h4 : 4 ∈ freeClusters s'.disk.fat := by
    rw [mem_freeClusters, hi.fat 4 ?_, hf.fat, cell_formattedFat]
    · exact ⟨by omega, by omega, rfl⟩
    · rw [taken_of_folder hb h.free]
      decide
  exact List.length_pos_of_mem h4

/-- Behind a first entry the slots of the root are unused. -/
theorem Stored.slot_unused {c : ℕ} (h : Stored s r 2 c s') (hf : Formatted π d s) (hp : r.parent = 2) (hi : 3 ≤ i) :
    s'.disk.slot 2 i = default := by
  have hd := hf.wellFormed.toSound.grounded
  have hdir : s.disk.LiveDir r.parent := by rw [hp]; exact s.disk.liveDir_root
  have hslot := (h.inserted hd hdir (by omega)).slot_eq hd hdir i
  rw [if_neg (by omega), hp, hf.slot_of_ge (by omega)] at hslot
  exact hslot

/-- The sample disk: the file `a` alone, in slot 2 of the root and cluster 3. -/
structure HoldsA (s : Machine) : Prop where
  wellFormed : s.disk.WellFormed
  tree : s.disk.Tree
  slot : s.disk.slot 2 2 = newEntry fileA 3
  unused : ∀ i, 3 ≤ i → s.disk.slot 2 i = default
  file : s.disk.LiveFile 2 2
  owns : Owns s.disk.fat (s.disk.slot 2 2) [3]
  free : ∀ c, 4 ≤ c → cell s.disk.fat c = fatEmptyEntry
  resolves : Resolves s.disk fileA 2
  data : s.disk.cluster 3 = chunk fileA 0
  memory : s.memory.fatTable = s.disk.fat

theorem Stored.holdsA (h : Stored s fileA 2 3 s') (hf : Formatted π d s) : HoldsA s' := by
  have hd := hf.wellFormed.toSound
  have hp : s.disk.LiveDir fileA.parent := s.disk.liveDir_root
  have hb : fileA.bufferSize ≠ 0 := by decide
  have htaken : taken s.disk fileA = [3] := by
    rw [taken, hf.freeClusters]; rfl
  have hi := h.inserted hd.grounded hp (by omega)
  have hdata := clusters_request_file h.toAccepted hd.grounded hp hb
  rw [← h.disk] at hdata
  have hslot : s'.disk.slot 2 2 = newEntry fileA 3 := hi.slot_new hd.grounded
  have hresolves := h.resolves hd.grounded hp (by omega) (q := fileA) rfl rfl rfl (newExt_file hb)
  refine ⟨(h.sameBoot hd.grounded hp).wellFormed hf.wellFormed (hi.sound hd), hf.tree.inserted hd hi, hslot,
    fun i h3 => h.slot_unused hf rfl h3, h.liveFile hd.grounded hp (by omega) hb, ?_, fun c hc => ?_, hresolves, ?_,
    h.coherent hd.grounded hp⟩
  · have := hi.owns
    rw [htaken] at this
    rw [hslot]; exact this
  · rw [hi.fat c ?_, hf.fat, cell_formattedFat, if_neg (by omega), if_neg (by omega), if_neg (by omega)]
    rw [htaken, List.mem_singleton]; omega
  · rw [htaken] at hdata
    exact (List.cons.inj hdata).1

/-- The sample disk is made by one write on a new disk. -/
theorem exists_holdsA : ∃ s₀ s, createFat32 zeroPlatform (powerOn zeroDisk) = some s₀ ∧
    Formatted zeroPlatform zeroDisk s₀ ∧
    perform zeroPlatform s₀ (.write fileA) = some (0, s) ∧ HoldsA s := by
  obtain ⟨s₀, h₀, hf⟩ := createFat32_formatted zeroPlatform zeroDisk
  obtain ⟨s, hs, hst⟩ := (fileA_accepted hf).write (π := zeroPlatform)
    hf.wellFormed.toSound.grounded s₀.disk.liveDir_root
  exact ⟨s₀, s, h₀, hf, hs, hst.holdsA hf⟩

/-- The disk after the folder of a request is made on a new disk: slot 2 of the root and cluster 3 are its own. -/
structure FirstFolder (π : Platform) (r : FAT32DriverRequest) (s : Machine) : Prop where
  wellFormed : s.disk.WellFormed
  tree : s.disk.Tree
  rootSelf : s.disk.slot 2 0 = rootEntry π
  rootParent : s.disk.slot 2 1 = dotDotEntry (rootEntry π)
  slot : s.disk.slot 2 2 = newEntry r 3
  self : s.disk.slot 3 0 = newEntry r 3
  parent : s.disk.slot 3 1 = dotDotEntry (rootEntry π)
  empty : ∀ i, 2 ≤ i → s.disk.slot 3 i = default

theorem Stored.firstFolder (h : Stored s r 2 3 s') (hf : Formatted π d s) (hp : r.parent = 2) (hb : r.bufferSize = 0) :
    FirstFolder π r s' := by
  have hd := hf.wellFormed.toSound
  have hdir : s.disk.LiveDir r.parent := by rw [hp]; exact s.disk.liveDir_root
  have hi := h.inserted hd.grounded hdir (by omega)
  have hfold : (newEntry r 3).IsFolder := (newEntry_isFolder _ _).2 hb
  have hcl : (newEntry r 3).cluster.toNat = 3 := newEntry_cluster _ (by omega)
  have hself := hi.slot_folder_zero hfold
  have hparent := hi.slot_folder_one hfold
  have hempty (i : ℕ) (h2 : 2 ≤ i) := hi.slot_folder hfold h2
  have hnew := hi.slot_new hd.grounded
  rw [hcl] at hself hparent hempty
  rw [hp] at hparent hnew
  refine ⟨(h.sameBoot hd.grounded hdir).wellFormed hf.wellFormed (hi.sound hd), hf.tree.inserted hd hi, ?_,
    ?_, hnew, hself,
    hparent.trans (congrArg dotDotEntry hf.slot_zero), hempty⟩
  · exact (hi.slot_special hd.grounded s.disk.liveDir_root (i := 0) (by omega)).trans hf.slot_zero
  · exact (hi.slot_special hd.grounded s.disk.liveDir_root (i := 1) (by omega)).trans hf.slot_one

/-- The disk with the folder `b` alone, in slot 2 of the root and cluster 3. -/
structure HoldsFolder (π : Platform) (s : Machine) : Prop where
  wellFormed : s.disk.WellFormed
  tree : s.disk.Tree
  rootParent : s.disk.slot 2 1 = dotDotEntry (rootEntry π)
  slot : s.disk.slot 2 2 = newEntry folderB 3
  resolves : Resolves s.disk folderB 2
  dir : s.disk.LiveDir 3
  self : s.disk.slot 3 0 = newEntry folderB 3
  parent : s.disk.slot 3 1 = dotDotEntry (rootEntry π)
  empty : ∀ i, 2 ≤ i → s.disk.slot 3 i = default
  room : 1 ≤ (freeClusters s.disk.fat).length

theorem Stored.holdsFolder (h : Stored s folderB 2 3 s') (hf : Formatted π d s) : HoldsFolder π s' := by
  have hd := hf.wellFormed.toSound
  have hp : s.disk.LiveDir folderB.parent := s.disk.liveDir_root
  have hfirst := h.firstFolder hf rfl rfl
  exact ⟨hfirst.wellFormed, hfirst.tree, hfirst.rootParent, hfirst.slot,
    h.resolves hd.grounded hp (by omega) rfl rfl rfl (by decide), h.liveDir_folder hd.grounded hp rfl, hfirst.self,
    hfirst.parent, hfirst.empty, h.freeClusters_pos hf hp rfl⟩

/-- It is made by one write on a new disk. -/
theorem exists_holdsFolder : ∃ s₀ s, createFat32 zeroPlatform (powerOn zeroDisk) = some s₀ ∧
    Formatted zeroPlatform zeroDisk s₀ ∧ perform zeroPlatform s₀ (.write folderB) = some (0, s) ∧
    HoldsFolder zeroPlatform s := by
  obtain ⟨s₀, h₀, hf⟩ := createFat32_formatted zeroPlatform zeroDisk
  obtain ⟨s, hs, hst⟩ := (folderB_accepted hf).write (π := zeroPlatform)
    hf.wellFormed.toSound.grounded s₀.disk.liveDir_root
  exact ⟨s₀, s, h₀, hf, hs, hst.holdsFolder hf⟩

theorem HoldsFolder.unused (h : HoldsFolder π s) (hi : 2 ≤ i) : ¬ (s.disk.slot 3 i).Live := by
  rw [h.empty i hi]
  exact FAT32DirectoryEntry.not_live_default

theorem HoldsFolder.hasFreeSlot (h : HoldsFolder π s) : s.disk.HasFreeSlot 3 :=
  ⟨2, Nat.le_refl 2, by omega, h.unused (Nat.le_refl 2)⟩

theorem HoldsFolder.folder (h : HoldsFolder π s) : (s.disk.slot 2 2).IsFolder := by
  rw [h.slot]
  exact (newEntry_isFolder _ _).2 rfl

theorem HoldsFolder.entry (h : HoldsFolder π s) : s.disk.LiveEntry 2 2 :=
  ⟨s.disk.liveDir_root, Nat.le_refl 2, by omega, by rw [h.slot]; exact newEntry_live _ _⟩

/-- The empty folder can be deleted. -/
theorem HoldsFolder.exists_deleted (h : HoldsFolder π s) : ∃ s', perform π s (.delete folderB) = some (0, s') := by
  have hslot : s.disk.slot folderB.parent 2 = newEntry folderB 3 := h.slot
  have hcluster : (s.disk.slot folderB.parent 2).cluster.toNat = 3 := by
    rw [hslot]
    exact newEntry_cluster _ (by omega)
  obtain ⟨s', hs, -⟩ := delete_free (π := π) (show folderB.parent < 512 by decide) h.resolves
    (fun hroot => by rw [hroot] at hcluster; exact absurd hcluster (by decide)) (by rw [hslot]; rfl) (by omega) (by
      rw [hcluster]
      rintro ⟨i, lo, -, hlive⟩
      exact h.unused lo hlive)
  exact ⟨s', hs⟩

/-- The empty folder takes what has another name than its special slots. -/
theorem HoldsFolder.accepted (h : HoldsFolder π s) (hp : r.parent = 3) (hn : needed r = 1) (hb : r.name ≠ folderB.name)
    (hdots : r.name ≠ dotDot) (hzero : r.name ≠ (default : FAT32DirectoryEntry).name) :
    ∃ j c, Accepted s r j c ∧ j < 64 := by
  have hnone : findEntry (s.disk.table r.parent) r.name r.ext = none := by
    refine first_eq_none.2 fun k _ _ => ?_
    rw [Bool.eq_false_iff, ne_eq, FAT32DirectoryEntry.hasName_iff]
    rintro ⟨hname, -⟩
    have hname : (s.disk.slot r.parent k).name = r.name := hname
    rw [hp] at hname
    by_cases hk : k < 2
    · obtain rfl | rfl : k = 0 ∨ k = 1 := by omega
      · rw [h.self, newEntry_name] at hname
        exact hb hname.symm
      · rw [h.parent, dotDotEntry_name] at hname
        exact hdots hname.symm
    · rw [h.empty k (by omega)] at hname
      exact hzero hname.symm
  have hslot : s.disk.HasFreeSlot r.parent := by
    rw [hp]
    exact h.hasFreeSlot
  obtain ⟨j, c, ha⟩ := exists_accepted hnone (by rw [hn]; exact h.room) hslot
  exact ⟨j, c, ha, ha.slot_hi_of_free hslot⟩

theorem HoldsA.hasFreeSlot (h : HoldsA s) : s.disk.HasFreeSlot 2 :=
  ⟨3, by omega, by omega, by rw [h.unused 3 (Nat.le_refl 3)]; decide⟩

theorem HoldsA.fits (h : HoldsA s) {q : Request} (hp : q.data.parent = 2) : q.Fits s.disk where
  live := by rw [hp]; exact s.disk.liveDir_root
  room r hq _ := by
    subst hq
    rw [show r.parent = 2 from hp]; exact h.hasFreeSlot

theorem HoldsA.exists_deleted (h : HoldsA s) : ∃ s', perform zeroPlatform s (.delete fileA) = some (0, s') := by
  obtain ⟨-, s', hs, -⟩ := h.resolves.delete (π := zeroPlatform) h.wellFormed.toSound h.file
  exact ⟨s', hs⟩

theorem HoldsA.bytes (h : HoldsA s) : s.disk.fileBytes (s.disk.slot 2 2) = [1] := by
  have hchunk := chunks_take (r := fileA) (n := 1) (by decide)
  rw [List.range_one, List.map_singleton, List.flatMap_singleton] at hchunk
  unfold fileBytes
  rw [chainOf_eq h.owns, h.slot, newEntry_filesize, List.flatMap_singleton, h.data, hchunk]
  decide

theorem fsSignature_ne {i : ℕ} (hi : i < 512) : cell fsSignature i ≠ uattrNotEmpty := by
  have htext : ∀ b ∈ fsSignatureText.map byteOf, b ≠ uattrNotEmpty := by decide +kernel
  rw [cell_of_lt _ hi]
  unfold fsSignature
  rw [Vector.getElem_ofFn]
  split_ifs
  · decide
  · decide
  · rcases Nat.lt_or_ge i (fsSignatureText.map byteOf).length with h | h
    · rw [List.getD_eq_getElem _ _ h]; exact htext _ (List.getElem_mem h)
    · rw [List.getD_eq_default _ _ h]; decide

theorem fsSignature_zero : cell fsSignature 0 = byteOf 'C' := by
  rw [cell_of_lt _ (by omega)]
  unfold fsSignature
  rw [Vector.getElem_ofFn]
  decide

/-- In the boot cluster of a new disk no slot looks like an entry. -/
theorem not_hasEntry_zero (h : Formatted π zeroDisk s) : ¬ s.disk.HasEntry 0 := by
  rintro ⟨i, -, hi, hlive⟩
  have hbyte : (s.disk.slot 0 i).userAttribute = cell (s.disk.cluster 0) (i * 32 + 12) :=
    userAttribute_unpacked _ hi
  rw [h.zero, cell_of_lt _ (by omega), getElem_cluster] at hbyte
  have h0 : blockAddress 0 = 0 := rfl
  unfold writeBlocks diskSize at hbyte
  simp only [h0, Nat.mul_zero, Nat.zero_add, Nat.sub_zero] at hbyte
  have hne : (s.disk.slot 0 i).userAttribute ≠ uattrNotEmpty := by
    rw [hbyte]
    split_ifs with hlt
    · exact fsSignature_ne (by omega)
    · exact show (0 : UInt8) ≠ uattrNotEmpty by decide
  exact hne hlive

/-- On a new disk a request without a name resolves to the first unused slot. -/
theorem nameless_resolves (h : Formatted π d s) (n : UInt32) : Resolves s.disk (letterRequest 0 n) 2 := by
  refine first_eq_some.2 ⟨by omega, by omega, ?_, fun k _ hk => ?_⟩
  · have hslot : cell (s.disk.table (letterRequest 0 n).parent) 2 = default := h.slot_of_ge (Nat.le_refl 2)
    rw [hslot, FAT32DirectoryEntry.hasName_iff]
    exact ⟨show (default : FAT32DirectoryEntry).name = #v[0, 0, 0, 0, 0, 0, 0, 0] by decide,
      show (default : FAT32DirectoryEntry).ext = #v[0, 0, 0] by decide⟩
  · rw [Bool.eq_false_iff, ne_eq, FAT32DirectoryEntry.hasName_iff]
    rintro ⟨hn, -⟩
    obtain rfl | rfl : k = 0 ∨ k = 1 := by omega
    · have hslot : cell (s.disk.table (letterRequest 0 n).parent) 0 = rootEntry π := h.slot_zero
      rw [hslot] at hn
      exact name_ne_rootName (π := π) (v := #v[0, 0, 0, 0, 0, 0, 0, 0]) (by decide) hn.symm
    · have hslot : cell (s.disk.table (letterRequest 0 n).parent) 1 = dotDotEntry (rootEntry π) := h.slot_one
      rw [hslot, dotDotEntry_name] at hn
      exact absurd (show dotDot = #v[0, 0, 0, 0, 0, 0, 0, 0] from hn) (by decide)

/-- Deleting without a name on a new disk of zeros frees cluster 0. -/
theorem nameless_freed (h : Formatted π zeroDisk s) :
    ∃ s', delete π s (letterRequest 0 0) = some (0, s') ∧ Freed s (letterRequest 0 0) 2 s' ∧
      (s.disk.slot 2 2).cluster.toNat = 0 := by
  have hslot : s.disk.slot 2 2 = default := h.slot_of_ge (Nat.le_refl 2)
  have hcl : (s.disk.slot 2 2).cluster = 0 := by rw [hslot]; decide
  have hzero : (s.disk.slot 2 2).cluster.toNat = 0 := by rw [hcl]; rfl
  obtain ⟨s', h1, h2⟩ := delete_free (π := π) (s := s) (r := letterRequest 0 0) (i := 2)
    (show 2 < 512 by omega) (nameless_resolves h 0)
    (show (s.disk.slot 2 2).cluster ≠ rootClusterNumber by rw [hcl]; decide)
    (show (s.disk.slot 2 2).filesize = 0 by rw [hslot]; rfl)
    (show (s.disk.slot 2 2).cluster.toNat < 512 by omega)
    (show ¬ s.disk.HasEntry (s.disk.slot 2 2).cluster.toNat by rw [hzero]; exact not_hasEntry_zero h)
  exact ⟨s', h1, h2, hzero⟩

theorem Freed.boot_lost (h : Freed s (letterRequest 0 0) 2 s') (hz : (s.disk.slot 2 2).cluster.toNat = 0) :
    s'.disk.bootSector ≠ fsSignature ∧ cell s'.disk.fat 0 = fatEmptyEntry := by
  have hz' : (s.disk.slot (letterRequest 0 0).parent 2).cluster.toNat = 0 := hz
  have hp : (letterRequest 0 0).parent = 2 := rfl
  refine ⟨fun he => ?_, ?_⟩
  · have hcl := h.cluster_self (by omega) (by omega) (by omega)
    rw [hz'] at hcl
    have hbyte : cell s'.disk.bootSector 0 = cell (s'.disk.cluster 0) 0 := by
      rw [bootSector_eq, cell_of_lt _ (by omega), Vector.getElem_ofFn]
    rw [he, hcl, fsSignature_zero, cell_of_lt _ (by omega), zeroCluster_getElem] at hbyte
    exact absurd hbyte (by decide)
  · rw [h.fat_eq (by omega) (by omega), hz', cell_store_self _ _ (by omega)]

/-! ## Well-formedness -/

/-- A new disk stays well formed, and every request that fits has a result, in every run in which each
delete resolves to a slot in use and no directory deletes itself. -/
theorem run_wellFormed (h₀ : createFat32 π (powerOn d) = some s₀)
    (h : ReflTransGen (Step π fun d q => q.Fits d ∧ q.Steady d ∧ q.OnLive d) s₀ s) :
    s.disk.WellFormed ∧ ∀ q : Request, q.Fits s.disk → ∃ code s', perform π s q = some (code, s') := by
  have hf := formatted_of_create h₀
  have hinv : s.disk.WellFormed ∧ s.disk.Tree := by
    refine run_invariant (I := fun s => s.disk.WellFormed ∧ s.disk.Tree) ⟨hf.wellFormed, hf.tree⟩ ?_ h
    rintro s s' q code ⟨hd, ht⟩ ⟨hfit, hs, hl⟩ hq
    have he := perform_effect hd.toSound hfit.live hq
    obtain ⟨hd', ht'⟩ := he.sound_tree hd.toSound ht hfit.live hs
    exact ⟨(he.sameBoot hd.toSound ht hfit.live hs hl).wellFormed hd hd', ht'⟩
  exact ⟨hinv.1, fun q hq => perform_total hinv.1.toSound (hinv.2.onSized hq.live) hq⟩

/-- The file `a` is written and deleted. -/
theorem run_wellFormed_fileA : ∃ s₀ s₁ s₂, createFat32 zeroPlatform (powerOn zeroDisk) = some s₀ ∧
    perform zeroPlatform s₀ (.write fileA) = some (0, s₁) ∧ perform zeroPlatform s₁ (.delete fileA) = some (0, s₂) ∧
    s₂.disk.WellFormed := by
  obtain ⟨s₀, s₁, h₀, hf, hs, ha⟩ := exists_holdsA
  obtain ⟨s₂, hdelete⟩ := ha.exists_deleted
  refine ⟨s₀, s₁, s₂, h₀, hs, hdelete, (run_wellFormed h₀ (.head ⟨.write fileA, 0, ⟨hf.fits rfl, ?_⟩, hs⟩
    (.single ⟨.delete fileA, 0, ⟨ha.fits rfl, ?_⟩, hdelete⟩))).1⟩
  · exact ⟨Request.steady_write _ _, Request.onLive_write _ _⟩
  · exact ha.resolves.steady ha.file.toLiveEntry

/-- A delete without a name leaves a new disk unformatted. -/
theorem run_not_wellFormed : ∃ s₀ s, createFat32 zeroPlatform (powerOn zeroDisk) = some s₀ ∧
    Request.Fits (.delete (letterRequest 0 0)) s₀.disk ∧
    perform zeroPlatform s₀ (.delete (letterRequest 0 0)) = some (0, s) ∧ ¬ s.disk.WellFormed := by
  obtain ⟨s₀, h₀, hf⟩ := createFat32_formatted zeroPlatform zeroDisk
  obtain ⟨s, hs, hfree, hz⟩ := nameless_freed (π := zeroPlatform) hf
  exact ⟨s₀, s, h₀, hf.fits rfl, hs, fun hw => (hfree.boot_lost hz).1 hw.signature⟩

/-! ## Metadata -/

/-- In every run to live directories in which each delete resolves to a slot in use and no directory
deletes itself, the signature and the reserved entries stay, no request writes cluster 0, and the disk
would be mounted again. -/
theorem run_reserved (h₀ : createFat32 π (powerOn d) = some s₀)
    (h : ReflTransGen (Step π fun d q => d.LiveDir q.data.parent ∧ q.Steady d ∧ q.OnLive d) s₀ s) :
    s.disk.Reserved ∧ isEmptyStorage s.disk = false ∧ ∀ w ∈ s.issued, place w.1 ≠ 0 := by
  have hf := formatted_of_create h₀
  have hissued : ∀ w ∈ s₀.issued, place w.1 ≠ 0 := fun w hw => by
    rcases hf.issued w hw with h | h <;> omega
  have hinv : (s.disk.Sound ∧ s.disk.Tree) ∧ s.disk.Reserved ∧ ∀ w ∈ s.issued, place w.1 ≠ 0 := by
    refine run_invariant (I := fun s => (s.disk.Sound ∧ s.disk.Tree) ∧ s.disk.Reserved ∧ ∀ w ∈ s.issued, place w.1 ≠ 0)
      ⟨⟨hf.wellFormed.toSound, hf.tree⟩, hf.reserved, hissued⟩ ?_ h
    rintro s s' q code ⟨⟨hd, ht⟩, hres, hi⟩ ⟨hp, hs, hl⟩ hq
    have he := perform_effect hd hp hq
    refine ⟨he.sound_tree hd ht hp hs, (he.sameBoot hd ht hp hs hl).reserved hres, fun w hw => ?_⟩
    exact (he.issued hd ht hp hs hl w hw).elim (hi w) id
  exact ⟨hinv.2.1, isEmptyStorage_of_signature hinv.2.1.signature, hinv.2.2⟩

/-- The file `a` is written and deleted. -/
theorem run_reserved_fileA : ∃ s₀ s₁ s₂, createFat32 zeroPlatform (powerOn zeroDisk) = some s₀ ∧
    perform zeroPlatform s₀ (.write fileA) = some (0, s₁) ∧ perform zeroPlatform s₁ (.delete fileA) = some (0, s₂) ∧
    s₂.disk.Reserved ∧ isEmptyStorage s₂.disk = false ∧ ∀ w ∈ s₂.issued, place w.1 ≠ 0 := by
  obtain ⟨s₀, s₁, h₀, hf, hs, ha⟩ := exists_holdsA
  obtain ⟨s₂, hdelete⟩ := ha.exists_deleted
  refine ⟨s₀, s₁, s₂, h₀, hs, hdelete, run_reserved h₀ (.head ⟨.write fileA, 0, ⟨s₀.disk.liveDir_root, ?_⟩, hs⟩
    (.single ⟨.delete fileA, 0, ⟨s₁.disk.liveDir_root, ?_⟩, hdelete⟩))⟩
  · exact ⟨Request.steady_write _ _, Request.onLive_write _ _⟩
  · exact ha.resolves.steady ha.file.toLiveEntry

/-- A delete without a name wipes the signature and the first reserved entry, by a write to cluster 0, and
the disk would be formatted again. -/
theorem run_not_reserved : ∃ s₀ s, createFat32 zeroPlatform (powerOn zeroDisk) = some s₀ ∧
    s₀.disk.LiveDir (letterRequest 0 0).parent ∧
    perform zeroPlatform s₀ (.delete (letterRequest 0 0)) = some (0, s) ∧
    s.disk.bootSector ≠ fsSignature ∧ isEmptyStorage s.disk = true ∧ cell s.disk.fat 0 ≠ cluster0Value ∧
    ∃ w ∈ s.issued, place w.1 = 0 := by
  obtain ⟨s₀, h₀, hf⟩ := createFat32_formatted zeroPlatform zeroDisk
  obtain ⟨s, hs, hfree, hz⟩ := nameless_freed (π := zeroPlatform) hf
  obtain ⟨h1, h2⟩ := hfree.boot_lost hz
  have hplace : place (s₀.disk.slot 2 2).cluster = 0 := by rw [place_of_lt (by omega), hz]
  refine ⟨s₀, s, h₀, s₀.disk.liveDir_root, hs, h1, isEmptyStorage_iff.2 h1, by rw [h2]; decide,
    ((s₀.disk.slot 2 2).cluster, zeroCluster), ?_, hplace⟩
  rw [hfree.issued, List.mem_append]
  exact .inr List.mem_cons_self

/-! ## The directory tree -/

/-- What the tree of directories looks like from one directory: it is listed once, by the directory its
slot 1 names. -/
structure ListedBy (d : Disk) (p q i : ℕ) : Prop where
  range : 3 ≤ p ∧ p < 512
  entry : d.LiveEntry q i
  folder : (d.slot q i).IsFolder
  cluster : (d.slot q i).cluster.toNat = p
  once : ∀ q' i', d.LiveEntry q' i' → (d.slot q' i').IsFolder → (d.slot q' i').cluster.toNat = p → q' = q ∧ i' = i
  self : (d.slot p 0).cluster.toNat = p
  name : (d.slot p 1).name = dotDot
  parent : (d.slot p 1).cluster.toNat = q

theorem Disk.Tree.listedBy (hd : d.Sound) (ht : d.Tree) {p : ℕ} (hp : d.LiveDir p) (hp2 : p ≠ 2) :
    ∃ q i, ListedBy d p q i := by
  obtain ⟨q, i, he, hf, hc⟩ := hp.listed hp2
  have hr := (hd.folder_owns he hf).range _ List.mem_cons_self
  rw [hc] at hr
  refine ⟨q, i, hr, he, hf, hc, fun q' i' he' hf' hc' => ?_, ht.self p hp, ht.name p hp, ?_⟩
  · exact hd.listed_once he' he hf' hf (UInt32.toNat_inj.1 (hc'.trans hc.symm))
  · exact ht.up_of_lists hd he.dir ⟨i, he.lo, he.hi, he.live, hf, hc⟩

/-- A new folder gets a free slot of its parent and a free cluster. -/
theorem Stored.newFolder {j c : ℕ} (h : Stored s r j c s') (hd : s.disk.Sound) (hp : s.disk.LiveDir r.parent)
    (hb : r.bufferSize = 0) :
    (2 ≤ j ∧ j < 64 ∧ ¬ (s.disk.slot r.parent j).Live) ∧ (3 ≤ c ∧ c < 512 ∧ cell s.disk.fat c = fatEmptyEntry) ∧
      s'.disk.slot r.parent j = selfEntry r.name (UInt32.ofNat c) := by
  have hj := h.slot_hi_of_folder hb
  have hi := h.inserted hd.grounded hp hj
  exact ⟨⟨hi.lo, hj, hi.free⟩, h.cluster_range, by rw [hi.slot_new hd.grounded, newEntry_folder hb]⟩

/-- After every run of writes on a new disk the directories are a tree: each one but the root is listed
once, its special slots name itself and the directory that lists it, and following slot 1 climbs to the
root through exactly its ancestors. Each folder made next gets a free slot of its parent and a free
cluster. -/
theorem run_tree (h₀ : createFat32 π (powerOn d) = some s₀)
    (h : ReflTransGen (Step π fun d q => q.Fits d ∧ ∃ r, q = .write r) s₀ s) :
    (∀ p, s.disk.LiveDir p → p ≠ 2 → ∃ q i, ListedBy s.disk p q i) ∧
    (∀ p, s.disk.LiveDir p → ∃ n, s.disk.up^[n] p = 2 ∧
      ∀ a, (∃ k ≤ n, s.disk.up^[k] p = a) ↔ s.disk.LiveDir a ∧ ReflTransGen s.disk.Lists a p) ∧
    ∀ r s', s.disk.LiveDir r.parent → r.bufferSize = 0 → write π s r = some (0, s') →
      ∃ j c, (2 ≤ j ∧ j < 64 ∧ ¬ (s.disk.slot r.parent j).Live) ∧
        (3 ≤ c ∧ c < 512 ∧ cell s.disk.fat c = fatEmptyEntry) ∧
        s'.disk.slot r.parent j = selfEntry r.name (UInt32.ofNat c) := by
  obtain ⟨hd, ht⟩ := run_sound_tree (fun d q ⟨hfit, r, hq⟩ => ⟨hfit.live, fun r' hr' => by rw [hq] at hr'; cases hr'⟩)
    (formatted_of_create h₀) h
  refine ⟨fun p hp hp2 => ht.listedBy hd hp hp2, fun p hp => ht.climb hd hp, fun r s' hp hb hw => ?_⟩
  obtain ⟨j, c, hs⟩ := stored_of_write hd.grounded hp hw
  exact ⟨j, c, hs.newFolder hd hp hb⟩

theorem run_tree_folderB : ∃ s₀ s, createFat32 zeroPlatform (powerOn zeroDisk) = some s₀ ∧
    perform zeroPlatform s₀ (.write folderB) = some (0, s) ∧ s.disk.LiveDir 3 ∧ ∃ q i, ListedBy s.disk 3 q i := by
  obtain ⟨s₀, s, h₀, hf, hs, hb⟩ := exists_holdsFolder
  have hrun := run_tree h₀ (.single ⟨.write folderB, 0, ⟨hf.fits rfl, _, rfl⟩, hs⟩)
  exact ⟨s₀, s, h₀, hs, hb.dir, hrun.1 3 hb.dir (by omega)⟩

end BebasOs.Fat32
