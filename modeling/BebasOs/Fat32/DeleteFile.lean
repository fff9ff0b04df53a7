/-
What deleting a file leaves: zeros in the clusters of its chain and in its slot, everything else as it
was, and no entry under its name unless there was another one.
-/
import BebasOs.Fat32.Read

namespace BebasOs.Fat32

open Bytes Links Search Disk

variable {π : Platform} {s s' : Machine} {r q : FAT32DriverRequest} {d d' : Disk} {i : ℕ} {l : List ℕ}
  {zs : List UInt32}

/-- A cluster that zeros were written into holds zeros, whatever was zeroed after it. -/
theorem cluster_zeros_mem (d : Disk) {c : UInt32} (hc : place c < 2048) (h : c ∈ zs) :
    (d.replay (zs.map fun c => (c, zeroCluster))).cluster (place c) = zeroCluster := by
  obtain ⟨before, after, rfl⟩ := List.append_of_mem h
  rw [List.map_append, List.map_cons, replay_append, replay_cons]
  rcases cluster_zeros ((d.replay (before.map fun c => (c, zeroCluster))).writeClusters zeroCluster c) after (place c)
    with hz | hz
  · rw [hz, cluster_writeClusters, if_pos ⟨rfl, hc⟩]
  · exact hz

/-- `d'` is `d` with zeros in the clusters `l` and in slot `i` of the request's directory. -/
structure Erased (d d' : Disk) (r : FAT32DriverRequest) (i : ℕ) (l : List ℕ) : Prop where
  zeroed : ∀ c ∈ l, d'.cluster c = zeroCluster
  table : d'.table r.parent = store (d.table r.parent) i default
  others : ∀ x, x ≠ 1 → x ≠ r.parent → x ∉ l → d'.cluster x = d.cluster x

/-- The cluster of a live directory is not in the chain of a file. -/
theorem Disk.Sound.dir_not_mem {p : ℕ} (hd : d.Sound) (hp : d.LiveDir p) {q : ℕ} (he : d.LiveFile q i)
    (hl : Owns d.fat (d.slot q i) l) : p ∉ l := fun hm =>
  he.file (hd.folder_of_dir_mem hp he.toLiveEntry hl hm).1

theorem Purged.erased (h : Purged s r i zs s') (hd : s.disk.Sound) (he : s.disk.LiveFile r.parent i)
    (hl : Owns s.disk.fat (s.disk.slot r.parent i) l) : Erased s.disk s'.disk r i l := by
  have hp' := (hd.liveDir_range he.dir).2
  have hnot := hd.dir_not_mem he.dir he hl
  refine ⟨fun c hc => ?_, h.table_eq hp', fun x _ => h.cluster_other hp' hl⟩
  have hr := hl.range c hc
  have hne : c ≠ r.parent := fun e => hnot (e ▸ hc)
  have hmem : UInt32.ofNat c ∈ zs := by
    rw [h.chain l hl]
    exact List.mem_map_of_mem hc
  have hzero := cluster_zeros_mem s.disk (by rw [place_ofNat hr.2]; omega) hmem
  rw [place_ofNat hr.2] at hzero
  rw [h.disk, purgeWrites, replay_concat, cluster_writeClusters_ne _ _ (by rw [place_parent hp']; exact hne), hzero]

/-- A look-up of a name that no other slot has fails once its slot is cleared. -/
theorem findEntry_cleared {t : FAT32DirectoryTable} (hn : Named r)
    (hother : ∀ k < 64, k ≠ i → (cell t k).hasName r.name r.ext = false) :
    findEntry (store t i default) r.name r.ext = none := by
  have hdefault : (default : FAT32DirectoryEntry).hasName r.name r.ext = false := by
    rw [Bool.eq_false_iff, ne_eq, FAT32DirectoryEntry.hasName_iff]
    rintro ⟨h, -⟩
    exact hn (h.symm.trans (by decide))
  refine first_eq_none.2 fun k _ hk => ?_
  by_cases hki : k = i
  · subst hki
    rw [cell_store_self _ _ hk]
    exact hdefault
  · rw [cell_store_ne _ _ (Ne.symm hki)]
    exact hother k hk hki

theorem read_unmatched (hp : r.parent < 512) (hf : findEntry (s.disk.table r.parent) r.name r.ext = none) :
    (read π s r).code = 2 := by
  rw [read_eq hp]
  unfold readLoaded
  simp only [listed, hf]

/-- A named request that resolves to a live file deletes it, whatever the order of its clusters: its chain
and its slot are zeroed and nothing else is touched. A read of the name then finds nothing, unless
another slot had it as well. -/
theorem delete_file (hd : s.disk.WellFormed) (hn : Named r) (he : s.disk.LiveFile r.parent i)
    (hr : Resolves s.disk r i) :
    ∃ s' l, delete π s r = some (0, s') ∧ Owns s.disk.fat (s.disk.slot r.parent i) l ∧ Erased s.disk s'.disk r i l ∧
      ((∀ k < 64, k ≠ i → (s.disk.slot r.parent k).hasName r.name r.ext = false) →
        ∀ q : FAT32DriverRequest, q.parentClusterNumber = r.parentClusterNumber → q.name = r.name → q.ext = r.ext →
          (read π s' q).code = 2) := by
  have hd := hd.toSound
  have hp' := (hd.liveDir_range he.dir).2
  obtain ⟨l, hl⟩ := hd.owns _ _ he.toLiveEntry
  have hroot : (s.disk.slot r.parent i).cluster ≠ rootClusterNumber := fun hc => by
    have h3 := (hl.range _ hl.first_mem).1
    rw [hc] at h3
    exact absurd h3 (by decide)
  have hsize : (s.disk.slot r.parent i).filesize ≠ 0 := fun hz => by
    have h1 := hd.size _ _ he
    rw [hz] at h1
    exact absurd h1 (by decide)
  rcases delete_purge (π := π) hp' hr hroot hsize with ⟨-, hnone⟩ | ⟨zs, s', hdel, hpurged⟩
  · exact absurd hl (hnone l)
  · have herased := hpurged.erased hd he hl
    refine ⟨s', l, hdel, hl, herased, fun hother q hq hname hext => read_unmatched ?_ ?_⟩ <;>
      have hqp : q.parent = r.parent := congrArg UInt32.toNat hq
    · rw [hqp]; exact hp'
    · rw [hqp, herased.table, hname, hext]
      exact findEntry_cleared hn hother

/-- The file `a`, on the disk that holds nothing else. -/
theorem delete_file_fileA : ∃ s s', delete zeroPlatform s fileA = some (0, s') ∧ Erased s.disk s'.disk fileA 2 [3] := by
  obtain ⟨s₀, s, -, -, -, h⟩ := exists_holdsA
  obtain ⟨s', l, hdel, hl, herased, -⟩ := delete_file (π := zeroPlatform) (r := fileA) h.wellFormed (by decide) h.file
    h.resolves
  obtain rfl : l = [3] := hl.unique h.owns
  exact ⟨s, s', hdel, herased⟩

end BebasOs.Fat32
