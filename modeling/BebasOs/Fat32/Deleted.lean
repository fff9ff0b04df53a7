/-
What a delete does to the disk. Deleting a live entry takes it out of its directory; a folder's
cluster becomes free again, while the clusters of a file are zeroed and stay taken. A delete that
resolves to an unused slot goes to cluster 0, and one that resolves to slot 0 of a directory without
entries clears that directory while its parent still lists it.
-/
import BebasOs.Fat32.Delete

namespace BebasOs.Fat32

open Bytes Links Search Disk

variable {s s' : Machine} {r : FAT32DriverRequest} {i x : ℕ} {l : List ℕ} {zs : List UInt32}

/-! ## The clusters after the writes -/

namespace Freed

theorem cluster_fat (h : Freed s r i s') (hp : 2 ≤ r.parent) (hp' : r.parent < 512) :
    s'.disk.cluster 1 =
      fatPacked (store s.disk.fat (s.disk.slot r.parent i).cluster.toNat fatEmptyEntry) := by
  rw [h.disk, freeWrites, replay_cons, replay_cons, replay_cons, replay_nil,
    cluster_writeClusters_ne _ _ (by rw [place_parent hp']; omega), cluster_writeClusters, place_fat,
    if_pos ⟨rfl, by omega⟩]

theorem cluster_parent (h : Freed s r i s') (hp' : r.parent < 512) :
    s'.disk.cluster r.parent = tablePacked (store (s.disk.table r.parent) i default) := by
  rw [h.disk, freeWrites, replay_cons, replay_cons, replay_cons, replay_nil, cluster_writeClusters,
    place_parent hp', if_pos ⟨rfl, by omega⟩]

theorem cluster_other (h : Freed s r i s') (hp' : r.parent < 512) (h1 : x ≠ 1) (hx : x ≠ r.parent)
    (hc : x ≠ (s.disk.slot r.parent i).cluster.toNat) : s'.disk.cluster x = s.disk.cluster x := by
  have hpl : place (s.disk.slot r.parent i).cluster = (s.disk.slot r.parent i).cluster.toNat :=
    place_of_lt (by have := h.range; omega)
  rw [h.disk, freeWrites, replay_cons, replay_cons, replay_cons, replay_nil,
    cluster_writeClusters_ne _ _ (by rw [place_parent hp']; exact hx), cluster_writeClusters_ne _ _ h1,
    cluster_writeClusters_ne _ _ (by rw [hpl]; exact hc)]

/-- The freed cluster is zeroed. -/
theorem cluster_self (h : Freed s r i s') (hp' : r.parent < 512)
    (h1 : (s.disk.slot r.parent i).cluster.toNat ≠ 1) (hx : (s.disk.slot r.parent i).cluster.toNat ≠ r.parent) :
    s'.disk.cluster (s.disk.slot r.parent i).cluster.toNat = zeroCluster := by
  have hr : (s.disk.slot r.parent i).cluster.toNat < 2048 := by have := h.range; omega
  rw [h.disk, freeWrites, replay_cons, replay_cons, replay_cons, replay_nil,
    cluster_writeClusters_ne _ _ (by rw [place_parent hp']; exact hx), cluster_writeClusters_ne _ _ h1,
    cluster_writeClusters_self _ _ hr]

theorem fat_eq (h : Freed s r i s') (hp : 2 ≤ r.parent) (hp' : r.parent < 512) :
    s'.disk.fat = store s.disk.fat (s.disk.slot r.parent i).cluster.toNat fatEmptyEntry :=
  fat_of_cluster (h.cluster_fat hp hp')

theorem table_eq (h : Freed s r i s') (hp' : r.parent < 512) :
    s'.disk.table r.parent = store (s.disk.table r.parent) i default :=
  table_of_cluster (h.cluster_parent hp')

end Freed

theorem cluster_zeros (d : Disk) : ∀ (zs : List UInt32) (x : ℕ),
    (d.replay (zs.map fun c => (c, zeroCluster))).cluster x = d.cluster x ∨
      (d.replay (zs.map fun c => (c, zeroCluster))).cluster x = zeroCluster := by
  intro zs
  induction zs using List.reverseRecOn with
  | nil => exact fun x => .inl rfl
  | append_singleton zs c ih =>
    intro x
    rw [List.map_append, List.map_singleton, replay_concat, cluster_writeClusters]
    split
    · exact .inr rfl
    · exact ih x

namespace Purged

theorem cluster_parent (h : Purged s r i zs s') (hp' : r.parent < 512) :
    s'.disk.cluster r.parent = tablePacked (store (s.disk.table r.parent) i default) := by
  rw [h.disk, purgeWrites, replay_concat, cluster_writeClusters, place_parent hp', if_pos ⟨rfl, by omega⟩]

theorem table_eq (h : Purged s r i zs s') (hp' : r.parent < 512) :
    s'.disk.table r.parent = store (s.disk.table r.parent) i default :=
  table_of_cluster (h.cluster_parent hp')

/-- Whatever was purged, the table of files is unchanged or all empty. -/
theorem cluster_fat (h : Purged s r i zs s') (hp : 2 ≤ r.parent) (hp' : r.parent < 512) :
    s'.disk.cluster 1 = s.disk.cluster 1 ∨ s'.disk.cluster 1 = zeroCluster := by
  rw [h.disk, purgeWrites, replay_concat, cluster_writeClusters_ne _ _ (by rw [place_parent hp']; omega)]
  exact cluster_zeros s.disk zs 1

theorem cluster_other (h : Purged s r i zs s') (hp' : r.parent < 512)
    (hl : Owns s.disk.fat (s.disk.slot r.parent i) l) (hx : x ≠ r.parent) (hxl : x ∉ l) :
    s'.disk.cluster x = s.disk.cluster x := by
  rw [h.disk, purgeWrites, replay_concat, cluster_writeClusters_ne _ _ (by rw [place_parent hp']; exact hx)]
  refine cluster_replay_other (fun w hw => ?_) s.disk
  rw [h.chain l hl, List.map_map] at hw
  obtain ⟨c, hc, rfl⟩ := List.mem_map.1 hw
  show place (UInt32.ofNat c) ≠ x
  rw [place_ofNat (hl.range c hc).2]
  rintro rfl
  exact hxl hc

end Purged

/-! ## Live entries -/

/-- A live entry without a size is a folder. -/
theorem folder_of_size {d : Disk} {p : ℕ} (hd : d.Sound) (h : d.LiveEntry p i) (hs : (d.slot p i).filesize = 0) :
    (d.slot p i).IsFolder := by
  by_contra hf
  have := hd.size p i ⟨h, hf⟩
  rw [hs] at this
  exact absurd this (by decide)

/-- Deleting a live entry without a size takes the folder out. -/
theorem Freed.removed (h : Freed s r i s') (hd : s.disk.Sound) (he : s.disk.LiveEntry r.parent i) :
    s.disk.Removed s'.disk r.parent i [(s.disk.slot r.parent i).cluster.toNat] := by
  obtain ⟨hp, hp'⟩ := hd.liveDir_range he.dir
  have ho := hd.folder_owns he (folder_of_size hd he h.size)
  refine ⟨he, ho, fun _ => h.childless, h.table_eq hp', fun x h1 hx hc => ?_, fun x hx => ?_⟩
  · exact h.cluster_other hp' h1 hx (by simpa using hc)
  · rw [h.fat_eq hp hp', cell_store_ne _ _ (by simpa [eq_comm] using hx)]

/-- Deleting a live file takes it out, and leaves the table of files as it is. -/
theorem Purged.removed (h : Purged s r i zs s') (hd : s.disk.Sound) (he : s.disk.LiveFile r.parent i) :
    ∃ l, s.disk.Removed s'.disk r.parent i l ∧ s'.disk.fat = s.disk.fat := by
  obtain ⟨hp, hp'⟩ := hd.liveDir_range he.dir
  obtain ⟨l, hl⟩ := hd.owns _ _ he.toLiveEntry
  have hfat : s'.disk.fat = s.disk.fat :=
    fat_congr (h.cluster_other hp' hl (by omega) fun hm => absurd (hl.range 1 hm) (by omega))
  refine ⟨l, ⟨he.toLiveEntry, hl, fun hf => absurd hf he.file, h.table_eq hp', fun x _ hx hm => ?_, fun x _ => ?_⟩,
    hfat⟩
  · exact h.cluster_other hp' hl hx hm
  · rw [hfat]

/-! ## Unused slots -/

/-- A delete that resolves to an unused slot frees cluster 0 and changes no entry. -/
theorem Freed.kept (h : Freed s r i s') (hd : s.disk.Sound) (hp : s.disk.LiveDir r.parent)
    (hu : ¬ (s.disk.slot r.parent i).Live) : s.disk.Kept s'.disk := by
  obtain ⟨hp2, hp'⟩ := hd.liveDir_range hp
  have hdef : s.disk.slot r.parent i = default := (hd.shape _ hp).unused i h.resolves.spec.1 hu
  have hzero : (s.disk.slot r.parent i).cluster.toNat = 0 := by rw [hdef]; decide
  refine ⟨fun x hx _ => ?_, fun x hx _ => ?_⟩
  · by_cases hxp : x = r.parent
    · have hsame : store (s.disk.table r.parent) i default = s.disk.table r.parent := by
        rw [← hdef]; exact store_cell_self _ _
      rw [hxp, h.cluster_parent hp', hsame]
      unfold Disk.table
      rw [Equiv.apply_symm_apply]
    · exact h.cluster_other hp' (by omega) hxp (by omega)
  · rw [h.fat_eq hp2 hp', hzero, cell_store_ne _ _ (by omega)]

/-- A delete of an unused slot never purges. -/
theorem Purged.live (h : Purged s r i zs s') (hd : s.disk.Sound) (hp : s.disk.LiveDir r.parent) :
    (s.disk.slot r.parent i).Live := by
  by_contra hu
  exact h.size (by rw [show s.disk.slot r.parent i = default from (hd.shape _ hp).unused i h.resolves.spec.1 hu]; rfl)

end BebasOs.Fat32
