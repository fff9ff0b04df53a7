/-
`delete`, every exit of it. An entry without a size is taken for a folder: its cluster is zeroed and
freed. An entry with a size is taken for a file: the clusters of its chain are zeroed, and the table
is left as it is. Nothing tells a slot in use from one that is not, or an entry from the two special
slots.
-/
import BebasOs.Fat32.Stored

namespace BebasOs.Fat32

open Bytes Links Search Disk

variable {π : Platform} {s s' : Machine} {r : FAT32DriverRequest} {d : Disk} {i : ℕ}

/-! ## The purge loop -/

/-- The machine after zeroes (or what else the cluster buffer holds) went into the clusters `zs`. -/
def purged (s : Machine) (zs : List UInt32) : Machine :=
  ⟨s.memory, s.disk.replay (zs.map fun c => (c, s.memory.clusterBuf)),
    s.issued ++ zs.map fun c => (c, s.memory.clusterBuf)⟩

theorem purged_cons (s : Machine) (c : UInt32) (zs : List UInt32) :
    purged (s.writeClusters s.memory.clusterBuf c) zs = purged s (c :: zs) := by
  unfold purged Machine.writeClusters
  rw [List.map_cons, replay_cons, List.append_assoc, List.singleton_append]

theorem purged_nil (s : Machine) : purged s [] = s := by
  unfold purged
  rw [List.map_nil, replay_nil, List.append_nil]

theorem purgeLoop_last {n : ℕ} {c : UInt32} (h : mapAt π s.memory c.toNat = fatEndOfFile) :
    purgeLoop π (n + 1) c s = some (purged s [c]) := by
  rw [purgeLoop]
  simp only [h, if_true]
  rw [← purged_cons, purged_nil]

theorem purgeLoop_link {n : ℕ} {c : UInt32} (h : mapAt π s.memory c.toNat ≠ fatEndOfFile) :
    purgeLoop π (n + 1) c s =
      purgeLoop π n (mapAt π s.memory c.toNat) (s.writeClusters s.memory.clusterBuf c) := by
  rw [purgeLoop]
  simp only [if_neg h]

/-- Whatever the purge loop meets, it writes the cluster buffer into some clusters. -/
theorem purgeLoop_some : ∀ {n : ℕ} {c : UInt32} {s s' : Machine}, purgeLoop π n c s = some s' →
    ∃ zs, s' = purged s zs
  | 0, _, _, _, h => by cases h
  | n + 1, c, s, s', h => by
    by_cases hn : mapAt π s.memory c.toNat = fatEndOfFile
    · rw [purgeLoop_last hn] at h
      cases h
      exact ⟨[c], rfl⟩
    · rw [purgeLoop_link hn] at h
      obtain ⟨zs, rfl⟩ := purgeLoop_some h
      exact ⟨c :: zs, purged_cons s c zs⟩

/-- Along a chain it purges the clusters of the chain. -/
theorem purgeLoop_chain {f : FAT32FileAllocationTable} {a : ℕ} {l : List ℕ} (h : Chain (next f) a l) :
    ∀ (n : ℕ) (s : Machine), l.length ≤ n → (∀ c ∈ l, c < 512) → s.memory.fatTable = f →
      purgeLoop π n (UInt32.ofNat a) s = some (purged s (l.map UInt32.ofNat)) := by
  have lookup {c : ℕ} {s : Machine} (hc : c < 512) (hf : s.memory.fatTable = f) :
      mapAt π s.memory (UInt32.ofNat c).toNat = cell f c := by
    rw [toNat_ofNat_cluster hc, mapAt, if_pos hc, hf]
  induction h with
  | @last a h =>
    intro n s hn hr hf
    obtain ⟨n, rfl⟩ : ∃ k, n = k + 1 := ⟨n - 1, by rw [List.length_singleton] at hn; omega⟩
    refine purgeLoop_last ?_
    rw [lookup (hr a (List.mem_singleton_self a)) hf]
    unfold next at h
    split at h
    · assumption
    · cases h
  | @link a b l h hl ih =>
    intro n s hn hr hf
    obtain ⟨n, rfl⟩ : ∃ k, n = k + 1 := ⟨n - 1, by rw [List.length_cons] at hn; omega⟩
    have hl' : ∀ c ∈ l, c < 512 := fun c hc => hr c (List.mem_cons_of_mem a hc)
    have ha := lookup (hr a List.mem_cons_self) hf
    unfold next at h
    split at h
    · cases h
    · rename_i hne
      have hb : cell f a = UInt32.ofNat b := by
        rw [← Option.some.inj h, UInt32.ofNat_toNat]
      -- zeroing a cluster leaves the table in memory, which the rest of the chain is read from
      have hrest := ih n (s.writeClusters s.memory.clusterBuf (UInt32.ofNat a)) (by simpa using hn) hl' hf
      rw [purgeLoop_link (by rw [ha]; exact hne), ha, hb, hrest, purged_cons, List.map_cons]

/-! ## The exits of delete -/

/-- The cluster writes that free a folder. -/
def freeWrites (d : Disk) (r : FAT32DriverRequest) (i : ℕ) : List (UInt32 × ClusterBuffer) :=
  let c := (d.slot r.parent i).cluster
  [(c, zeroCluster), (fatClusterNumber, fatPacked (store d.fat c.toNat fatEmptyEntry)),
    (r.parentClusterNumber, tablePacked (store (d.table r.parent) i default))]

/-- The cluster writes that purge a file. -/
def purgeWrites (d : Disk) (r : FAT32DriverRequest) (i : ℕ) (zs : List UInt32) : List (UInt32 × ClusterBuffer) :=
  (zs.map fun c => (c, zeroCluster)) ++ [(r.parentClusterNumber, tablePacked (store (d.table r.parent) i default))]

/-- `s'` is `s` after slot `i` was deleted as a folder. -/
structure Freed (s : Machine) (r : FAT32DriverRequest) (i : ℕ) (s' : Machine) : Prop where
  resolves : Resolves s.disk r i
  notRoot : (s.disk.slot r.parent i).cluster ≠ rootClusterNumber
  size : (s.disk.slot r.parent i).filesize = 0
  range : (s.disk.slot r.parent i).cluster.toNat < 512
  childless : ¬ s.disk.HasEntry (s.disk.slot r.parent i).cluster.toNat
  disk : s'.disk = s.disk.replay (freeWrites s.disk r i)
  issued : s'.issued = s.issued ++ freeWrites s.disk r i
  fat : s'.memory.fatTable = store s.disk.fat (s.disk.slot r.parent i).cluster.toNat fatEmptyEntry

/-- `s'` is `s` after slot `i` was deleted as a file, with zeros in the clusters `zs`. -/
structure Purged (s : Machine) (r : FAT32DriverRequest) (i : ℕ) (zs : List UInt32) (s' : Machine) : Prop where
  resolves : Resolves s.disk r i
  size : (s.disk.slot r.parent i).filesize ≠ 0
  chain : ∀ l, Owns s.disk.fat (s.disk.slot r.parent i) l → zs = l.map UInt32.ofNat
  disk : s'.disk = s.disk.replay (purgeWrites s.disk r i zs)
  issued : s'.issued = s.issued ++ purgeWrites s.disk r i zs
  fat : s'.memory.fatTable = s.disk.fat

/-- The ways a delete ends. It has no result for an entry whose cluster is not in the table, or whose
chain does not end. -/
inductive DeleteSpec (s : Machine) (r : FAT32DriverRequest) : Option (Int × Machine) → Prop
  | refused {code : Int} {s' : Machine} (h : Refused s code s') : DeleteSpec s r (some (code, s'))
  | freed {i : ℕ} {s' : Machine} (h : Freed s r i s') : DeleteSpec s r (some (0, s'))
  | purged {i : ℕ} {zs : List UInt32} {s' : Machine} (h : Purged s r i zs s') : DeleteSpec s r (some (0, s'))
  | lost {i : ℕ} (h : Resolves s.disk r i)
      (hf : (s.disk.slot r.parent i).filesize = 0 → 512 ≤ (s.disk.slot r.parent i).cluster.toNat)
      (hl : (s.disk.slot r.parent i).filesize ≠ 0 → ∀ l, ¬ Owns s.disk.fat (s.disk.slot r.parent i) l) :
      DeleteSpec s r none

theorem delete_eq (hp : r.parent < 512) : delete π s r = deleteLoaded π (reloaded s r) r := by
  unfold delete; rw [reload_eq (by omega)]; rfl

section

variable {t : FAT32DirectoryTable} {f : FAT32FileAllocationTable}

theorem deleteLoaded_unmatched (ht : s.memory.dirTableBuf = t) (hf : findEntry t r.name r.ext = none) :
    deleteLoaded π s r = some (1, s) := by
  unfold deleteLoaded
  simp only [ht, hf]

theorem deleteLoaded_root (ht : s.memory.dirTableBuf = t) (hf : findEntry t r.name r.ext = some i)
    (hc : (cell t i).cluster = rootClusterNumber) : deleteLoaded π s r = some (-1, s) := by
  unfold deleteLoaded
  simp only [ht, hf, if_pos hc]

/-- The loop that looks for entries in the directory to be removed. -/
def firstEntry (d : Disk) (c : UInt32) : Option ℕ :=
  first (fun i => (cell (tablePacked.symm (d.readClusters c)) i).userAttribute == uattrNotEmpty) 2 64

theorem deleteLoaded_hasEntry {k : ℕ} (ht : s.memory.dirTableBuf = t) (hf : findEntry t r.name r.ext = some i)
    (hc : (cell t i).cluster ≠ rootClusterNumber) (hs : (cell t i).filesize = 0)
    (hk : firstEntry s.disk (cell t i).cluster = some k) : deleteLoaded π s r = some (2, s) := by
  unfold firstEntry at hk
  unfold deleteLoaded
  simp only [ht, hf, if_neg hc, if_pos hs, hk]

theorem deleteLoaded_lost (ht : s.memory.dirTableBuf = t) (hf : findEntry t r.name r.ext = some i)
    (hc : (cell t i).cluster ≠ rootClusterNumber) (hs : (cell t i).filesize = 0)
    (hk : firstEntry s.disk (cell t i).cluster = none) (hr : ¬ (cell t i).cluster.toNat < 512) :
    deleteLoaded π s r = none := by
  unfold firstEntry at hk
  unfold deleteLoaded
  simp only [ht, hf, if_neg hc, if_pos hs, hk, if_neg hr]

theorem deleteLoaded_free (ht : s.memory.dirTableBuf = t) (hm : s.memory.fatTable = f)
    (hf : findEntry t r.name r.ext = some i) (hc : (cell t i).cluster ≠ rootClusterNumber)
    (hs : (cell t i).filesize = 0) (hk : firstEntry s.disk (cell t i).cluster = none)
    (hr : (cell t i).cluster.toNat < 512) :
    deleteLoaded π s r = some (0,
      ⟨⟨store f (cell t i).cluster.toNat fatEmptyEntry, store t i default, zeroCluster⟩,
        ((s.disk.writeClusters zeroCluster (cell t i).cluster).writeClusters
          (fatPacked (store f (cell t i).cluster.toNat fatEmptyEntry)) fatClusterNumber).writeClusters
            (tablePacked (store t i default)) r.parentClusterNumber,
        s.issued ++ [((cell t i).cluster, zeroCluster)] ++
          [(fatClusterNumber, fatPacked (store f (cell t i).cluster.toNat fatEmptyEntry))] ++
          [(r.parentClusterNumber, tablePacked (store t i default))]⟩) := by
  unfold firstEntry at hk
  unfold deleteLoaded
  simp only [ht, hm, hf, if_neg hc, if_pos hs, hk, if_pos hr, dropSlot, Machine.writeClusters]

/-- The machine the purge loop starts with. -/
def cleared (s : Machine) (f : FAT32FileAllocationTable) (t : FAT32DirectoryTable) : Machine :=
  ⟨⟨f, t, zeroCluster⟩, s.disk, s.issued⟩

theorem deleteLoaded_purge {zs : List UInt32} (ht : s.memory.dirTableBuf = t) (hm : s.memory.fatTable = f)
    (hf : findEntry t r.name r.ext = some i) (hc : (cell t i).cluster ≠ rootClusterNumber)
    (hs : (cell t i).filesize ≠ 0)
    (hz : purgeLoop π (2 ^ 32) (cell t i).cluster (cleared s f t) = some (purged (cleared s f t) zs)) :
    deleteLoaded π s r = some (0,
      ⟨⟨f, store t i default, zeroCluster⟩,
        (s.disk.replay (zs.map fun c => (c, zeroCluster))).writeClusters (tablePacked (store t i default))
          r.parentClusterNumber,
        s.issued ++ (zs.map fun c => (c, zeroCluster)) ++
          [(r.parentClusterNumber, tablePacked (store t i default))]⟩) := by
  unfold cleared at hz
  unfold deleteLoaded
  simp only [ht, hm, hf, if_neg hc, if_neg hs]
  rw [hz]
  simp only [purged, dropSlot, Machine.writeClusters, Option.bind_eq_bind, Option.bind_some, Option.pure_def]

theorem deleteLoaded_diverges (ht : s.memory.dirTableBuf = t) (hm : s.memory.fatTable = f)
    (hf : findEntry t r.name r.ext = some i) (hc : (cell t i).cluster ≠ rootClusterNumber)
    (hs : (cell t i).filesize ≠ 0)
    (hz : purgeLoop π (2 ^ 32) (cell t i).cluster (cleared s f t) = none) :
    deleteLoaded π s r = none := by
  unfold cleared at hz
  unfold deleteLoaded
  simp only [ht, hm, hf, if_neg hc, if_neg hs]
  rw [hz]
  rfl

end

theorem firstEntry_eq_none_place {c : UInt32} : firstEntry d c = none ↔ ¬ d.HasEntry (place c) := by
  have hcell (k : ℕ) : cell (tablePacked.symm (d.readClusters c)) k = d.slot (place c) k := by
    rw [readClusters_eq]; rfl
  unfold firstEntry
  rw [first_eq_none]
  simp only [hcell, HasEntry, FAT32DirectoryEntry.Live, not_exists, not_and, beq_eq_false_iff_ne]

theorem firstEntry_eq_none {c : UInt32} (hc : c.toNat < 512) : firstEntry d c = none ↔ ¬ d.HasEntry c.toNat := by
  rw [firstEntry_eq_none_place, place_of_lt (by omega)]

/-- A chain of the table is purged whole. -/
theorem purgeLoop_owns {e : FAT32DirectoryEntry} {l : List ℕ} (h : Owns s.memory.fatTable e l) :
    purgeLoop π (2 ^ 32) e.cluster s = some (purged s (l.map UInt32.ofNat)) := by
  have hc : e.cluster = UInt32.ofNat e.cluster.toNat := UInt32.ofNat_toNat.symm
  rw [hc]
  exact purgeLoop_chain h.chain _ s (by have := h.length_le; omega) (fun c hm => (h.range c hm).2) rfl

/-- The purge loop, started on an entry: it does not end, or it purges some clusters, those of the
entry's chain if it has one. -/
theorem purgeLoop_cases (e : FAT32DirectoryEntry) (s : Machine) :
    (purgeLoop π (2 ^ 32) e.cluster s = none ∧ ∀ l, ¬ Owns s.memory.fatTable e l) ∨
      ∃ zs, purgeLoop π (2 ^ 32) e.cluster s = some (purged s zs) ∧
        ∀ l, Owns s.memory.fatTable e l → zs = l.map UInt32.ofNat := by
  by_cases ho : ∃ l, Owns s.memory.fatTable e l
  · obtain ⟨l, hl⟩ := ho
    exact .inr ⟨l.map UInt32.ofNat, purgeLoop_owns hl, fun m hm => by rw [hl.unique hm]⟩
  · rw [not_exists] at ho
    rcases hz : purgeLoop π (2 ^ 32) e.cluster s with _ | s'
    · exact .inl ⟨rfl, ho⟩
    · obtain ⟨zs, rfl⟩ := purgeLoop_some hz
      exact .inr ⟨zs, rfl, fun l hl => absurd hl (ho l)⟩

/-- A delete of an entry without a size, in a table without entries, frees it. -/
theorem delete_free (hp : r.parent < 512) (hf : Resolves s.disk r i)
    (hc : (s.disk.slot r.parent i).cluster ≠ rootClusterNumber) (hs : (s.disk.slot r.parent i).filesize = 0)
    (hr : (s.disk.slot r.parent i).cluster.toNat < 512)
    (hk : ¬ s.disk.HasEntry (s.disk.slot r.parent i).cluster.toNat) :
    ∃ s', delete π s r = some (0, s') ∧ Freed s r i s' := by
  have hm := reloaded_fatTable s r
  have ht := reloaded_dirTableBuf s r
  rw [delete_eq hp, deleteLoaded_free ht hm hf hc hs ((firstEntry_eq_none hr).2 hk) hr]
  refine ⟨_, rfl, hf, hc, hs, hr, hk, ?_, ?_, rfl⟩
  · rw [freeWrites, replay_cons, replay_cons, replay_cons, replay_nil]
    rfl
  · rw [freeWrites, List.append_assoc, List.append_assoc]
    rfl

/-- A delete of an entry with a size purges some clusters, those of its chain if it has one; without
one it may have no result. -/
theorem delete_purge (hp : r.parent < 512) (hf : Resolves s.disk r i)
    (hc : (s.disk.slot r.parent i).cluster ≠ rootClusterNumber) (hs : (s.disk.slot r.parent i).filesize ≠ 0) :
    (delete π s r = none ∧ ∀ l, ¬ Owns s.disk.fat (s.disk.slot r.parent i) l) ∨
      ∃ zs s', delete π s r = some (0, s') ∧ Purged s r i zs s' := by
  have hm := reloaded_fatTable s r
  have ht := reloaded_dirTableBuf s r
  rw [delete_eq hp]
  rcases purgeLoop_cases (π := π) (s.disk.slot r.parent i)
    (cleared (reloaded s r) s.disk.fat (s.disk.table r.parent)) with ⟨hz, ho⟩ | ⟨zs, hz, ho⟩
  · rw [deleteLoaded_diverges ht hm hf hc hs hz]
    exact .inl ⟨rfl, ho⟩
  · rw [deleteLoaded_purge ht hm hf hc hs hz]
    refine .inr ⟨zs, _, rfl, hf, hs, ho, ?_, ?_, rfl⟩
    · rw [purgeWrites, replay_concat]
      rfl
    · rw [purgeWrites, List.append_assoc]
      rfl

theorem delete_spec (hp : r.parent < 512) : DeleteSpec s r (delete π s r) := by
  have ht := reloaded_dirTableBuf s r
  rcases hf : findEntry (s.disk.table r.parent) r.name r.ext with _ | i
  · rw [delete_eq hp, deleteLoaded_unmatched ht hf]
    exact .refused (refused_reloaded s r (by decide))
  by_cases hc : (s.disk.slot r.parent i).cluster = rootClusterNumber
  · rw [delete_eq hp, deleteLoaded_root ht hf hc]
    exact .refused (refused_reloaded s r (by decide))
  by_cases hs : (s.disk.slot r.parent i).filesize = 0
  · rcases hk : firstEntry s.disk (s.disk.slot r.parent i).cluster with _ | k
    · by_cases hr : (s.disk.slot r.parent i).cluster.toNat < 512
      · obtain ⟨s', h1, h2⟩ := delete_free (π := π) hp hf hc hs hr ((firstEntry_eq_none hr).1 hk)
        rw [h1]
        exact .freed h2
      · rw [delete_eq hp, deleteLoaded_lost ht hf hc hs hk hr]
        exact .lost hf (fun _ => by omega) fun h => absurd hs h
    · rw [delete_eq hp, deleteLoaded_hasEntry ht hf hc hs hk]
      exact .refused (refused_reloaded s r (by decide))
  · rcases delete_purge (π := π) hp hf hc hs with ⟨h1, h2⟩ | ⟨zs, s', h1, h2⟩
    · rw [h1]
      exact .lost hf (fun h => absurd h hs) fun _ => h2
    · rw [h1]
      exact .purged h2

end BebasOs.Fat32
