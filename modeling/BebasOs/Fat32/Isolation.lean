/-
Isolation. Whatever a request answers, the files it does not delete keep their entries and their
bytes, provided the entry that a delete goes to is as the header says of directory tables: the special
slots hold clusters of live directories, and only files have a size. Well-formedness alone leaves that
open, and a delete can then hit a file it does not name.
-/
import BebasOs.Fat32.Reachable

namespace BebasOs.Fat32

open Bytes Links Search Disk Relation

variable {π : Platform} {s s' : Machine} {r : FAT32DriverRequest} {d d' : Disk} {p i : ℕ}

/-! ## Files that stay -/

/-- The file in slot `i` of directory `p` is the same on both disks. -/
structure SameFile (d d' : Disk) (p i : ℕ) : Prop where
  live : d'.LiveFile p i
  slot : d'.slot p i = d.slot p i
  bytes : d'.fileBytes (d.slot p i) = d.fileBytes (d.slot p i)

theorem SameFile.trans {d₁ d₂ : Disk} (h : SameFile d d₁ p i) (h' : SameFile d₁ d₂ p i) : SameFile d d₂ p i :=
  ⟨h'.live, h'.slot.trans h.slot, by rw [← h.bytes, ← h.slot]; exact h'.bytes⟩

/-- The entry is the one the request deletes. -/
def Request.Deletes (q : Request) (d : Disk) (p i : ℕ) : Prop := ∃ r, q = .delete r ∧ r.parent = p ∧ Resolves d r i

/-- A delete through a special slot clears a directory without entries: no file is in its cluster. -/
theorem Freed.special_kept {j : ℕ} (h : Freed s r j s') (hd : s.disk.Sound) (ht : s.disk.SizedAt r.parent j)
    (hp : s.disk.LiveDir r.parent) (hj : j < 2) (hf : s.disk.LiveFile p i) : SameFile s.disk s'.disk p i := by
  obtain ⟨hp2, hp'⟩ := hd.liveDir_range hp
  have hdir := (ht.special hj).2
  -- slots in use from 2 on stay: the directory that is cleared has none
  have hslot {q k : ℕ} (hq : s.disk.LiveEntry q k) : s'.disk.slot q k = s.disk.slot q k := by
    have hk := hq.lo
    unfold Disk.slot
    by_cases hqp : q = r.parent
    · rw [hqp, h.table_eq hp', cell_store_ne _ _ (by omega)]
    · have hqc : q ≠ (s.disk.slot r.parent j).cluster.toNat := fun he =>
        h.childless ⟨k, hk, hq.hi, by rw [← he]; exact hq.live⟩
      have := hd.liveDir_range hq.dir
      rw [table_congr (h.cluster_other hp' (by omega) hqp hqc)]
  have hmono {q : ℕ} (hq : s.disk.LiveDir q) : s'.disk.LiveDir q := by
    refine Reach.mono_on (fun a ha b ⟨k, h1, h2, h3, h4, h5⟩ => ⟨k, h1, h2, ?_⟩) hq
    rw [hslot ⟨ha, h1, h2, h3⟩]
    exact ⟨h3, h4, h5⟩
  obtain ⟨l, hl⟩ := hd.owns p i hf.toLiveEntry
  have hnot {q : ℕ} (hq : s.disk.LiveDir q) : q ∉ l := fun hm =>
    hf.file (hd.folder_of_dir_mem hq hf.toLiveEntry hl hm).1
  have hne {q c : ℕ} (hq : s.disk.LiveDir q) (hc : c ∈ l) : c ≠ q := fun he => hnot hq (he ▸ hc)
  have hs := hslot hf.toLiveEntry
  refine ⟨⟨⟨hmono hf.dir, hf.lo, hf.hi, by rw [hs]; exact hf.live⟩, by rw [hs]; exact hf.file⟩, hs, ?_⟩
  refine fileBytes_congr hl (fun c hc => ?_) fun c hc => ?_
  · rw [h.fat_eq hp2 hp', cell_store_ne _ _ (Ne.symm (hne hdir hc))]
  · have := hl.range c hc
    exact h.cluster_other hp' (by omega) (hne hp hc) (hne hdir hc)

theorem Stored.sameFile {j c : ℕ} (h : Stored s r j c s') (hd : s.disk.Sound) (hp : s.disk.LiveDir r.parent)
    (hf : s.disk.LiveFile p i) : SameFile s.disk s'.disk p i := by
  rcases Nat.lt_or_ge j 64 with hj | hj
  · obtain ⟨h1, h2, h3⟩ := (h.inserted hd.grounded hp hj).file_kept hd hf
    exact ⟨h1, h2, h3⟩
  · obtain ⟨h1, h2, h3⟩ := (h.kept hd.grounded hp hj).entry_kept hd hf.toLiveEntry
    exact ⟨⟨h1, by rw [h2]; exact hf.file⟩, h2, h3⟩

theorem Effect.sameFile {q : Request} {code : Int} (h : Effect s q code s') (hd : s.disk.Sound) (ht : q.OnSized s.disk)
    (hp : s.disk.LiveDir q.data.parent) (hf : s.disk.LiveFile p i) (hq : ¬ q.Deletes s.disk p i) :
    SameFile s.disk s'.disk p i := by
  cases h with
  | idle hdisk => rw [hdisk]; exact ⟨hf, rfl, rfl⟩
  | stored h => exact h.sameFile hd hp hf
  | @freed r j s' h =>
    have hne : (p, i) ≠ (r.parent, j) := fun he => hq ⟨r, rfl, (congrArg Prod.fst he).symm, by
      rw [show i = j from congrArg Prod.snd he]; exact h.resolves⟩
    by_cases hj : j < 2
    · exact h.special_kept hd (ht r j rfl h.resolves) hp hj hf
    · by_cases hl : (s.disk.slot r.parent j).Live
      · obtain ⟨h1, h2, h3⟩ := (h.removed hd ⟨hp, by omega, h.resolves.spec.1, hl⟩).file_kept hd hf hne
        exact ⟨h1, h2, h3⟩
      · obtain ⟨h1, h2, h3⟩ := (h.kept hd hp hl).entry_kept hd hf.toLiveEntry
        exact ⟨⟨h1, by rw [h2]; exact hf.file⟩, h2, h3⟩
  | @purged r j zs s' h =>
    have hne : (p, i) ≠ (r.parent, j) := fun he => hq ⟨r, rfl, (congrArg Prod.fst he).symm, by
      rw [show i = j from congrArg Prod.snd he]; exact h.resolves⟩
    obtain ⟨l, hr, -⟩ := h.removed hd (h.liveFile hd (ht r j rfl h.resolves) hp)
    obtain ⟨h1, h2, h3⟩ := hr.file_kept hd hf hne
    exact ⟨h1, h2, h3⟩

/-! ## Other entries in the slots of a well-formed disk -/

/-- The disk with another entry in slot `i` of directory `p`. -/
def withSlot (d : Disk) (p i : ℕ) (e : FAT32DirectoryEntry) : Disk :=
  d.writeClusters (tablePacked (store (d.table p) i e)) (UInt32.ofNat p)

section

variable {e : FAT32DirectoryEntry} {q k : ℕ} {l : List ℕ}

theorem withSlot_table (d : Disk) (hp : p < 512) : (withSlot d p i e).table p = store (d.table p) i e := by
  refine table_of_cluster ?_
  rw [withSlot, cluster_writeClusters, place_ofNat hp, if_pos ⟨rfl, by omega⟩]

theorem withSlot_cluster (d : Disk) (hp : p < 512) {x : ℕ} (hx : x ≠ p) : (withSlot d p i e).cluster x = d.cluster x :=
  cluster_writeClusters_ne _ _ (by rw [place_ofNat hp]; exact hx)

theorem withSlot_slot (d : Disk) (hp : p < 512) (hi : i < 64) (q k : ℕ) :
    (withSlot d p i e).slot q k = if q = p ∧ k = i then e else d.slot q k := by
  unfold Disk.slot
  by_cases hq : q = p
  · rw [hq, withSlot_table d hp, cell_store _ _ _ hi]
    simp
  · rw [table_congr (withSlot_cluster d hp hq), if_neg (by tauto)]

/-- A disk that differs in one slot has the live directories and entries it had when the new entry lists
what the old one listed. -/
structure Relisted (d d' : Disk) : Prop where
  live : ∀ q k, 2 ≤ k → ((d'.slot q k).Live ↔ (d.slot q k).Live)
  folder : ∀ q k, 2 ≤ k → ((d'.slot q k).IsFolder ↔ (d.slot q k).IsFolder)
  cluster : ∀ q k, 2 ≤ k → (d'.slot q k).cluster = (d.slot q k).cluster

theorem Relisted.liveDir (h : Relisted d d') : d'.LiveDir q ↔ d.LiveDir q := by
  refine (Reach.congr_on fun a _ b => exists_congr fun k => and_congr_right fun hk => ?_).symm
  rw [h.live a k hk, h.folder a k hk, h.cluster a k hk]

theorem Relisted.liveEntry (h : Relisted d d') : d'.LiveEntry q k ↔ d.LiveEntry q k := by
  constructor
  · rintro ⟨h1, h2, h3, h4⟩
    exact ⟨h.liveDir.1 h1, h2, h3, (h.live q k h2).1 h4⟩
  · rintro ⟨h1, h2, h3, h4⟩
    exact ⟨h.liveDir.2 h1, h2, h3, (h.live q k h2).2 h4⟩

/-- A relisted disk is well formed when its shapes are, and its files are those it had. -/
theorem Relisted.wellFormed (h : Relisted d d') (hd : d.WellFormed) (hboot : d'.cluster 0 = d.cluster 0)
    (hfat : d'.fat = d.fat) (hs : ∀ q, d.LiveDir q → DirShape (d'.table q))
    (hf : ∀ q k, d.LiveFile q k → d'.slot q k = d.slot q k) : d'.WellFormed := by
  -- a folder owns its cluster whatever its size
  have howns {q k : ℕ} (he : d.LiveEntry q k) {l : List ℕ} :
      Owns d'.fat (d'.slot q k) l ↔ Owns d.fat (d.slot q k) l := by
    rw [hfat]
    by_cases hfold : (d.slot q k).IsFolder
    · have hcount : clusterCount (d'.slot q k) = clusterCount (d.slot q k) := by
        unfold clusterCount
        rw [if_pos hfold, if_pos ((h.folder q k he.lo).2 hfold)]
      have hc := h.cluster q k he.lo
      constructor
      · rintro ⟨h1, h2, h3, h4⟩
        exact ⟨by rw [← hc]; exact h1, by rw [← hcount]; exact h2, h3, h4⟩
      · rintro ⟨h1, h2, h3, h4⟩
        exact ⟨by rw [hc]; exact h1, by rw [hcount]; exact h2, h3, h4⟩
    · rw [hf q k ⟨he, hfold⟩]
  have hent {q k : ℕ} (he : d'.LiveEntry q k) := h.liveEntry.1 he
  refine ⟨⟨by rw [hfat]; exact hd.fat1, by rw [hfat]; exact hd.fat2, fun q hq => hs q (h.liveDir.1 hq),
    fun q k hq => ?_, fun q k hq => ?_, fun q k q' k' l m hq hq' hne hl hm => ?_⟩,
    by rw [bootSector_congr hboot]; exact hd.signature, by rw [hfat]; exact hd.fat0⟩
  · have hfile : d.LiveFile q k := ⟨hent hq.toLiveEntry, fun hn => hq.file ((h.folder q k hq.lo).2 hn)⟩
    rw [hf q k hfile]; exact hd.size q k hfile
  · obtain ⟨l, hl⟩ := hd.owns q k (hent hq)
    exact ⟨l, (howns (hent hq)).2 hl⟩
  · exact hd.disjoint q k q' k' l m (hent hq) (hent hq') hne ((howns (hent hq)).1 hl) ((howns (hent hq')).1 hm)

/-- Any entry in use may stand in a special slot of a well-formed disk. -/
theorem withSlot_special (hd : d.WellFormed) (hp : d.LiveDir p) (hi : i < 2) (he : e.Live) :
    Relisted d (withSlot d p i e) ∧ (withSlot d p i e).WellFormed := by
  obtain ⟨hp2, hp'⟩ := hd.toSound.liveDir_range hp
  have hslot {q k : ℕ} (hk : 2 ≤ k) : (withSlot d p i e).slot q k = d.slot q k := by
    rw [withSlot_slot d hp' (by omega), if_neg (by omega)]
  have hlist : Relisted d (withSlot d p i e) :=
    ⟨fun q k hk => by rw [hslot hk], fun q k hk => by rw [hslot hk], fun q k hk => by rw [hslot hk]⟩
  refine ⟨hlist, hlist.wellFormed hd (withSlot_cluster d hp' (by omega)) (fat_congr (withSlot_cluster d hp' (by omega)))
    (fun q hq => ?_) fun q k hf => hslot hf.lo⟩
  have hs := hd.shape q hq
  -- the slots from 2 on are as they were, so only the shape is to be checked
  have hcell (k : ℕ) : cell ((withSlot d p i e).table q) k = if q = p ∧ k = i then e else cell (d.table q) k :=
    withSlot_slot d hp' (by omega) q k
  refine ⟨?_, ?_, fun k hk hn => ?_⟩
  · rw [hcell]; split
    · exact he
    · exact hs.self
  · rw [hcell]; split
    · exact he
    · exact hs.parent
  · rw [hcell] at hn ⊢
    split at hn
    · exact absurd he hn
    · rw [if_neg ‹_›]; exact hs.unused k hk hn

/-- A folder entry of a well-formed disk may have any size. -/
theorem withSlot_resized (hd : d.WellFormed) (he : d.LiveEntry p i) (hf : (d.slot p i).IsFolder) (n : UInt32) :
    Relisted d (withSlot d p i { d.slot p i with filesize := n }) ∧
      (withSlot d p i { d.slot p i with filesize := n }).WellFormed := by
  obtain ⟨hp2, hp'⟩ := hd.toSound.liveDir_range he.dir
  have hslot := withSlot_slot (e := { d.slot p i with filesize := n }) d hp' he.hi
  have hlist : Relisted d (withSlot d p i { d.slot p i with filesize := n }) := by
    refine ⟨fun q k _ => ?_, fun q k _ => ?_, fun q k _ => ?_⟩ <;>
    · rw [hslot]
      split
      · rename_i h
        rw [h.1, h.2]
        rfl
      · rfl
  refine ⟨hlist, hlist.wellFormed hd (withSlot_cluster d hp' (by omega)) (fat_congr (withSlot_cluster d hp' (by omega)))
    (fun q hq => ?_) fun q k hfile => ?_⟩
  · by_cases hqp : q = p
    · rw [hqp, withSlot_table d hp']
      exact (hd.shape p he.dir).store he.lo he.hi (.inl he.live)
    · rw [table_congr (withSlot_cluster d hp' hqp)]; exact hd.shape q hq
  · rw [hslot, if_neg]
    rintro ⟨rfl, rfl⟩
    exact hfile.file hf

end

/-! ## Files lost on well-formed disks -/

/-- A request that fits a well-formed disk, does not delete the live file in slot `i` of directory `p`, and
does not leave it as it was. -/
structure Disturbs (π : Platform) (s : Machine) (q : Request) (s' : Machine) (p i : ℕ) : Prop where
  wellFormed : s.disk.WellFormed
  fits : q.Fits s.disk
  file : s.disk.LiveFile p i
  spared : ¬ q.Deletes s.disk p i
  done : perform π s q = some (0, s')
  changed : ¬ SameFile s.disk s'.disk p i

/-- The request whose name stands in slot 0 of the stray disk. -/
def strayRequest : FAT32DriverRequest := letterRequest 114 0

/-- The sample disk with slot 0 of the root naming the cluster of the file. -/
def strayed (s : Machine) : Machine := ⟨s.memory, withSlot s.disk 2 0 (selfEntry strayRequest.name 3), s.issued⟩

theorem selfEntry_cluster (name : Vector UInt8 8) (index : UInt32) : (selfEntry name index).cluster = index :=
  FAT32DirectoryEntry.cluster_of_halves rfl rfl

theorem strayed_slot_zero (s : Machine) : (strayed s).disk.slot 2 0 = selfEntry strayRequest.name 3 := by
  unfold strayed
  rw [withSlot_slot _ (by omega) (by omega), if_pos ⟨rfl, rfl⟩]

/-- The bytes of the file do not look like entries. -/
theorem HoldsA.not_hasEntry (h : HoldsA s) : ¬ (strayed s).disk.HasEntry 3 := by
  rintro ⟨k, hk, hk', hlive⟩
  have hbyte : ((strayed s).disk.slot 3 k).userAttribute = cell ((strayed s).disk.cluster 3) (k * 32 + 12) :=
    userAttribute_unpacked _ hk'
  rw [show (strayed s).disk.cluster 3 = s.disk.cluster 3 from withSlot_cluster _ (by omega) (by omega), h.data,
    cell_of_lt _ (by omega)] at hbyte
  have hlt : ¬ 0 * 2048 + (k * 32 + 12) < fileA.bufferSize.toNat := by
    rw [show fileA.bufferSize.toNat = 1 from rfl]; omega
  unfold chunk at hbyte
  rw [Vector.getElem_ofFn, if_neg hlt] at hbyte
  exact absurd (hbyte.symm.trans hlive) (by decide)

/-- A chain is followed from its first cluster, whatever the table holds. -/
theorem follow_head (f : ℕ → Option ℕ) (n a : ℕ) : ∃ l, follow f (n + 1) a = a :: l := ⟨_, rfl⟩

theorem zeroCluster_toList : zeroCluster.toList = 0 :: List.replicate 2047 0 := by
  unfold zeroCluster
  rw [Vector.toList_replicate, List.replicate_succ]

theorem strayed_slot (s : Machine) (p : ℕ) {i : ℕ} (hi : 2 ≤ i) : (strayed s).disk.slot p i = s.disk.slot p i := by
  unfold strayed
  rw [withSlot_slot _ (by omega) (by omega), if_neg (by omega)]

theorem strayed_cluster (s : Machine) : ((strayed s).disk.slot strayRequest.parent 0).cluster = 3 := by
  rw [show (strayed s).disk.slot strayRequest.parent 0 = _ from strayed_slot_zero s, selfEntry_cluster]

theorem strayed_resolves (s : Machine) : Resolves (strayed s).disk strayRequest 0 := by
  refine first_eq_some.2 ⟨Nat.le_refl 0, by omega, ?_, fun k h1 h2 => absurd h2 (by omega)⟩
  have hslot : cell ((strayed s).disk.table strayRequest.parent) 0 = selfEntry strayRequest.name 3 :=
    strayed_slot_zero s
  rw [FAT32DirectoryEntry.hasName_iff, hslot]
  exact ⟨rfl, by decide⟩

theorem HoldsA.strayed_bytes (h : HoldsA s) : (strayed s).disk.fileBytes (s.disk.slot 2 2) = [1] := by
  have hfat : (strayed s).disk.fat = s.disk.fat := fat_congr (withSlot_cluster _ (by omega) (by omega))
  rw [← h.bytes]
  refine fileBytes_congr h.owns (fun c _ => by rw [hfat]) fun c hc => withSlot_cluster _ (by omega) ?_
  rw [List.mem_singleton.1 hc]; omega

/-- The delete frees and zeroes the cluster of the file. -/
theorem HoldsA.strayed_freed (h : HoldsA s) : ∃ s', delete zeroPlatform (strayed s) strayRequest = some (0, s') ∧
    s'.disk.cluster 3 = zeroCluster := by
  have hcl := strayed_cluster s
  have hcl' : ((strayed s).disk.slot strayRequest.parent 0).cluster.toNat = 3 := by rw [hcl]; rfl
  obtain ⟨s', hs', hfree⟩ := delete_free (π := zeroPlatform) (s := strayed s) (r := strayRequest) (i := 0)
    (show 2 < 512 by omega) (strayed_resolves s) (by rw [hcl]; decide)
    (by rw [show (strayed s).disk.slot strayRequest.parent 0 = _ from strayed_slot_zero s]; rfl) (by rw [hcl']; omega)
    (by rw [hcl']; exact h.not_hasEntry)
  have hself := hfree.cluster_self (show 2 < 512 by omega) (by rw [hcl']; omega)
    (by rw [hcl', show strayRequest.parent = 2 from rfl]; omega)
  rw [hcl'] at hself
  exact ⟨s', hs', hself⟩

/-- A special slot that holds the cluster of a file: deleting that slot zeroes the file. -/
theorem special_disturbs : ∃ s s', Disturbs zeroPlatform s (.delete strayRequest) s' 2 2 ∧
    ∀ p i, s.disk.LiveEntry p i → (s.disk.slot p i).IsFolder → (s.disk.slot p i).filesize = 0 := by
  obtain ⟨-, s, -, -, -, ha⟩ := exists_holdsA
  obtain ⟨hlist, hw⟩ : Relisted s.disk (strayed s).disk ∧ (strayed s).disk.WellFormed :=
    withSlot_special ha.wellFormed s.disk.liveDir_root (by omega) rfl
  have hfile : (strayed s).disk.LiveFile 2 2 :=
    ⟨hlist.liveEntry.2 ha.file.toLiveEntry, by rw [strayed_slot s 2 (Nat.le_refl 2)]; exact ha.file.file⟩
  obtain ⟨s', hs', hzero⟩ := ha.strayed_freed
  refine ⟨strayed s, s', ⟨hw, ⟨(strayed s).disk.liveDir_root, fun r hr => by cases hr⟩, hfile, ?_, hs', ?_⟩, ?_⟩
  · rintro ⟨r, hr, -, hr'⟩
    cases hr
    have h02 := Option.some.inj ((strayed_resolves s).symm.trans hr')
    omega
  · -- the first cluster of the file is zero, and the file has one byte
    intro h
    have hb := h.bytes
    rw [strayed_slot s 2 (Nat.le_refl 2), ha.strayed_bytes, ha.slot] at hb
    obtain ⟨l, hl⟩ := follow_head (next s'.disk.fat) 511 3
    unfold fileBytes chainOf at hb
    rw [newEntry_filesize, newEntry_cluster _ (by omega), hl, List.flatMap_cons, hzero, zeroCluster_toList,
      List.cons_append, show fileA.bufferSize.toNat = 1 from rfl, List.take_succ_cons] at hb
    exact absurd (List.cons.inj hb).1 (by decide)
  · intro p i he hf
    rw [strayed_slot s p he.lo] at hf ⊢
    exact ha.tree.folder p i (hlist.liveEntry.1 he) hf

/-- The sample file in the sample folder. -/
def fileInB : FAT32DriverRequest := { fileA with parentClusterNumber := 3 }

/-- A disk with the folder `b` in the root and a file in it. -/
structure HoldsB (s : Machine) (j : ℕ) : Prop where
  wellFormed : s.disk.WellFormed
  tree : s.disk.Tree
  slot : s.disk.slot 2 2 = newEntry folderB 3
  folder : s.disk.LiveEntry 2 2
  resolves : Resolves s.disk folderB 2
  file : s.disk.LiveFile 3 j

/-- The empty folder takes the file. -/
theorem HoldsFolder.fileInB_accepted (h : HoldsFolder zeroPlatform s) : ∃ j c, Accepted s fileInB j c ∧ j < 64 :=
  h.accepted rfl rfl (by decide) (by decide) (by decide)

theorem Stored.holdsB {j c : ℕ} (h : Stored s fileInB j c s') (hb : HoldsFolder zeroPlatform s) (hj : j < 64) :
    HoldsB s' j := by
  have hd := hb.wellFormed.toSound
  have hi := h.inserted hd.grounded hb.dir hj
  have he : s.disk.LiveEntry 2 2 :=
    ⟨s.disk.liveDir_root, Nat.le_refl 2, by omega, by rw [hb.slot]; exact newEntry_live _ _⟩
  have hne : (2 : ℕ) ≠ fileInB.parent := by decide
  refine ⟨(h.sameBoot hd.grounded hb.dir).wellFormed hb.wellFormed (hi.sound hd), hb.tree.inserted hd hi,
    (hi.slot_old hd.grounded he).trans hb.slot, (hi.liveEntry_iff hd.grounded).2 (.inl he), ?_,
    h.liveFile hd.grounded hb.dir hj (by decide)⟩
  unfold Resolves
  rw [show folderB.parent = 2 from rfl, hi.table_other hd.grounded s.disk.liveDir_root hne]
  exact hb.resolves

theorem exists_holdsB : ∃ s j, HoldsB s j := by
  obtain ⟨-, s, -, -, -, hb⟩ := exists_holdsFolder
  obtain ⟨j, c, ha, hj⟩ := hb.fileInB_accepted
  obtain ⟨s', -, st⟩ := ha.write (π := zeroPlatform) hb.wellFormed.toSound.grounded hb.dir
  exact ⟨s', j, st.holdsB hb hj⟩

/-- The disk with a size in the entry of the folder `b`. -/
def swollen (s : Machine) : Machine := ⟨s.memory, withSlot s.disk 2 2 { s.disk.slot 2 2 with filesize := 1 }, s.issued⟩

theorem swollen_slot (s : Machine) (p i : ℕ) : (swollen s).disk.slot p i =
    if p = 2 ∧ i = 2 then { s.disk.slot 2 2 with filesize := 1 } else s.disk.slot p i := by
  unfold swollen
  rw [withSlot_slot _ (by omega) (by omega)]

theorem cluster_resized (e : FAT32DirectoryEntry) (n : UInt32) : { e with filesize := n }.cluster = e.cluster := rfl

theorem hasName_resized (e : FAT32DirectoryEntry) (n : UInt32) (name : Vector UInt8 8) (ext : Vector UInt8 3) :
    { e with filesize := n }.hasName name ext = e.hasName name ext := rfl

theorem HoldsB.swollen_resolves {j : ℕ} (h : HoldsB s j) : Resolves (swollen s).disk folderB 2 := by
  have hname (k : ℕ) : (cell ((swollen s).disk.table 2) k).hasName folderB.name folderB.ext =
      (cell (s.disk.table 2) k).hasName folderB.name folderB.ext := by
    have hk := swollen_slot s 2 k
    unfold Disk.slot at hk
    rw [hk]
    split
    · rename_i h
      rw [h.2, hasName_resized]
    · rfl
  have hr : findEntry (s.disk.table 2) folderB.name folderB.ext = some 2 := h.resolves
  show findEntry ((swollen s).disk.table 2) folderB.name folderB.ext = some 2
  rw [← hr]
  exact first_congr fun k _ _ => hname k

theorem HoldsB.isFolder {j : ℕ} (h : HoldsB s j) : (s.disk.slot 2 2).IsFolder := by
  rw [h.slot]; exact (newEntry_isFolder _ _).2 rfl

theorem HoldsB.swollen_wellFormed {j : ℕ} (h : HoldsB s j) :
    Relisted s.disk (swollen s).disk ∧ (swollen s).disk.WellFormed :=
  withSlot_resized h.wellFormed h.folder h.isFolder 1

theorem HoldsB.swollen_cluster {j : ℕ} (h : HoldsB s j) :
    ((swollen s).disk.slot 2 2).cluster.toNat = 3 ∧ ((swollen s).disk.slot 2 2).filesize = 1 := by
  rw [swollen_slot, if_pos ⟨rfl, rfl⟩, cluster_resized, h.slot, newEntry_cluster _ (by omega)]
  exact ⟨rfl, rfl⟩

theorem HoldsB.swollen_owns {j : ℕ} (h : HoldsB s j) :
    Owns (swollen s).disk.fat ((swollen s).disk.slot 2 2) [3] := by
  obtain ⟨hlist, hw⟩ := h.swollen_wellFormed
  have hf : ((swollen s).disk.slot 2 2).IsFolder := (hlist.folder 2 2 (Nat.le_refl 2)).2 h.isFolder
  have := hw.toSound.folder_owns (hlist.liveEntry.2 h.folder) hf
  rwa [h.swollen_cluster.1] at this

/-- The folder is purged. -/
theorem HoldsB.swollen_purged {j : ℕ} (h : HoldsB s j) :
    ∃ zs s', delete zeroPlatform (swollen s) folderB = some (0, s') ∧ Purged (swollen s) folderB 2 zs s' := by
  obtain ⟨hcl, hsize⟩ := h.swollen_cluster
  have hroot : ((swollen s).disk.slot folderB.parent 2).cluster ≠ rootClusterNumber := fun he => by
    rw [show (swollen s).disk.slot 2 2 = (swollen s).disk.slot folderB.parent 2 from rfl, he] at hcl
    exact absurd hcl (by decide)
  have hsize' : ((swollen s).disk.slot folderB.parent 2).filesize ≠ 0 := fun he =>
    absurd (hsize.symm.trans he) (by decide)
  rcases delete_purge (π := zeroPlatform) (s := swollen s) (r := folderB) (show 2 < 512 by omega)
    h.swollen_resolves hroot hsize' with ⟨-, hno⟩ | hyes
  · exact absurd h.swollen_owns (hno [3])
  · exact hyes

theorem HoldsB.swollen_zero {j : ℕ} {zs : List UInt32} (h : HoldsB s j) (hp : Purged (swollen s) folderB 2 zs s') :
    s'.disk.cluster 3 = zeroCluster := by
  have hchain := hp.chain [3] h.swollen_owns
  rw [hp.disk, purgeWrites, hchain, replay_concat, cluster_writeClusters_ne _ _ (by decide)]
  simp only [List.map_cons, List.map_nil, replay_cons, replay_nil]
  rw [cluster_writeClusters, place_ofNat (by omega), if_pos ⟨rfl, by omega⟩]

/-- A folder with a size is purged like a file, with the files in it. -/
theorem folder_disturbs : ∃ s s' j, Disturbs zeroPlatform s (.delete folderB) s' 3 j ∧
    ∀ p, s.disk.LiveDir p → ∀ i < 2,
      (s.disk.slot p i).filesize = 0 ∧ s.disk.LiveDir (s.disk.slot p i).cluster.toNat := by
  obtain ⟨s, j, hb⟩ := exists_holdsB
  obtain ⟨hlist, hw⟩ := hb.swollen_wellFormed
  have hslot := swollen_slot s
  have hfile : (swollen s).disk.LiveFile 3 j := by
    refine ⟨hlist.liveEntry.2 hb.file.toLiveEntry, ?_⟩
    rw [hslot, if_neg (by omega)]; exact hb.file.file
  obtain ⟨zs, s', hs', hpur⟩ := hb.swollen_purged
  refine ⟨swollen s, s', j, ⟨hw, ⟨(swollen s).disk.liveDir_root, fun r hr => by cases hr⟩, hfile, ?_, hs', ?_⟩, ?_⟩
  · rintro ⟨r, hr, hp, -⟩
    cases hr
    exact absurd hp (by decide)
  · -- the directory of the file is a cluster of zeros
    intro h
    have hlive := h.live.live
    unfold Disk.slot Disk.table at hlive
    rw [hb.swollen_zero hpur, cell_unpacked_zero hb.file.hi] at hlive
    exact FAT32DirectoryEntry.not_live_default hlive
  · intro p hp i hi
    have hp := hlist.liveDir.1 hp
    rw [hslot, if_neg (by omega)]
    obtain ⟨h1, h2⟩ := (hb.tree.sizedAt hp i).special hi
    exact ⟨h1, hlist.liveDir.2 h2⟩

/-! ## Isolation -/

/-- A request that fits a well-formed disk has a result and leaves every file it does not delete as it was, if the entry
that a delete goes to is as the header says. -/
theorem perform_isolates (hd : s.disk.WellFormed) {q : Request} (hq : q.Fits s.disk) (ht : q.OnSized s.disk) :
    ∃ code s', perform π s q = some (code, s') ∧
      ∀ p i, s.disk.LiveFile p i → ¬ q.Deletes s.disk p i → SameFile s.disk s'.disk p i := by
  obtain ⟨code, s', h⟩ := perform_total (π := π) hd.toSound ht hq
  exact ⟨code, s', h, fun p i hf hn => (perform_effect hd.toSound hq.live h).sameFile hd.toSound ht hq.live hf hn⟩

/-- The file in the folder `b` stays when the folder is to be deleted. -/
theorem perform_isolates_folderB : ∃ s j code s', s.disk.WellFormed ∧ s.disk.LiveFile 3 j ∧
    Resolves s.disk folderB 2 ∧ perform zeroPlatform s (.delete folderB) = some (code, s') ∧
      SameFile s.disk s'.disk 3 j := by
  obtain ⟨s, j, hb⟩ := exists_holdsB
  have hp : s.disk.LiveDir folderB.parent := s.disk.liveDir_root
  obtain ⟨code, s', h, hsame⟩ := perform_isolates (π := zeroPlatform) hb.wellFormed (q := .delete folderB)
    ⟨hp, fun r hr => by cases hr⟩ (hb.tree.onSized hp)
  refine ⟨s, j, code, s', hb.wellFormed, hb.file, hb.resolves, h, hsame 3 j hb.file ?_⟩
  rintro ⟨r, hr, hparent, -⟩
  cases hr
  exact absurd hparent (by decide)

/-- A well-formed disk does not keep its files: a special slot can hold the cluster of a file, and a folder
can have a size. -/
theorem not_isolated :
    (∃ s s', Disturbs zeroPlatform s (.delete strayRequest) s' 2 2 ∧
      ∀ p i, s.disk.LiveEntry p i → (s.disk.slot p i).IsFolder → (s.disk.slot p i).filesize = 0) ∧
    ∃ s s' j, Disturbs zeroPlatform s (.delete folderB) s' 3 j ∧
      ∀ p, s.disk.LiveDir p → ∀ i < 2,
        (s.disk.slot p i).filesize = 0 ∧ s.disk.LiveDir (s.disk.slot p i).cluster.toNat :=
  ⟨special_disturbs, folder_disturbs⟩

end BebasOs.Fat32
