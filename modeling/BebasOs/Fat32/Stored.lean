/-
What a served write does to the disk: the cluster of each of its writes, the entry it puts into the
directory, and the bytes of a new file.
-/
import BebasOs.Fat32.Write

namespace BebasOs.Fat32

open Bytes Links Search Disk

variable {s s' : Machine} {r : FAT32DriverRequest} {d : Disk} {j c : ℕ}

/-! ## The new entry -/

/-- The entry a request puts into the directory. -/
def newEntry (r : FAT32DriverRequest) (c : ℕ) : FAT32DirectoryEntry :=
  if r.bufferSize = 0 then selfEntry r.name (UInt32.ofNat c) else fileEntry r c

theorem newEntry_folder (h : r.bufferSize = 0) (c : ℕ) : newEntry r c = selfEntry r.name (UInt32.ofNat c) := if_pos h

theorem newEntry_file (h : r.bufferSize ≠ 0) (c : ℕ) : newEntry r c = fileEntry r c := if_neg h

theorem newEntry_live (r : FAT32DriverRequest) (c : ℕ) : (newEntry r c).Live := by
  unfold newEntry
  split <;> rfl

theorem newEntry_name (r : FAT32DriverRequest) (c : ℕ) : (newEntry r c).name = r.name := by
  unfold newEntry
  split <;> rfl

theorem newEntry_filesize (r : FAT32DriverRequest) (c : ℕ) : (newEntry r c).filesize = r.bufferSize := by
  unfold newEntry
  split
  · rename_i h; exact h.symm
  · rfl

theorem newEntry_attribute (r : FAT32DriverRequest) (c : ℕ) :
    (newEntry r c).attributeByte = if r.bufferSize = 0 then attrSubdirectory else 0 := by
  unfold newEntry
  split <;> rfl

theorem newEntry_isFolder (r : FAT32DriverRequest) (c : ℕ) : (newEntry r c).IsFolder ↔ r.bufferSize = 0 := by
  by_cases h : r.bufferSize = 0
  · rw [newEntry_folder h]
    exact iff_of_true rfl h
  · rw [newEntry_file h]
    exact iff_of_false (fun hf => absurd (show (0 : UInt8) = attrSubdirectory from hf) (by decide)) h

theorem newEntry_cluster (r : FAT32DriverRequest) (hc : c < 512) : (newEntry r c).cluster.toNat = c := by
  have : (newEntry r c).cluster = UInt32.ofNat c := by
    unfold newEntry
    split <;> exact FAT32DirectoryEntry.cluster_of_halves rfl rfl
  rw [this, toNat_ofNat_cluster hc]

theorem newEntry_clusterCount (r : FAT32DriverRequest) (c : ℕ) : clusterCount (newEntry r c) = needed r := by
  unfold clusterCount
  by_cases h : r.bufferSize = 0
  · rw [if_pos ((newEntry_isFolder r c).2 h), needed_of_folder h]
  · rw [if_neg (mt (newEntry_isFolder r c).1 h), needed_of_file h, newEntry_filesize]

/-! ## Looking entries up -/

/-- A request resolves to a slot: the first of its directory with its name and extension. -/
def Resolves (d : Disk) (r : FAT32DriverRequest) (i : ℕ) : Prop :=
  findEntry (d.table r.parent) r.name r.ext = some i

theorem Resolves.spec {i : ℕ} (h : Resolves d r i) :
    i < 64 ∧ (d.slot r.parent i).name = r.name ∧ (d.slot r.parent i).ext = r.ext := by
  obtain ⟨-, h1, h2, -⟩ := first_eq_some.1 h
  obtain ⟨h3, h4⟩ := FAT32DirectoryEntry.hasName_iff.1 h2
  exact ⟨h1, h3, h4⟩

/-- The name of the request is not all zeros. -/
def Named (r : FAT32DriverRequest) : Prop := r.name ≠ Vector.replicate 8 0

instance (r : FAT32DriverRequest) : Decidable (Named r) := inferInstanceAs (Decidable (_ ≠ _))

section

variable {t : FAT32DirectoryTable} {e : FAT32DirectoryEntry} {name : Vector UInt8 8} {ext : Vector UInt8 3}

/-- An entry under a name that was not there is the one a look-up of the name finds. -/
theorem findEntry_store_self (h : findEntry t name ext = none) (hj : j < 64) (he : e.hasName name ext = true) :
    findEntry (store t j e) name ext = some j := by
  refine first_eq_some.2 ⟨Nat.zero_le j, hj, ?_, fun k _ hk => ?_⟩
  · rw [cell_store_self _ _ hj]; exact he
  · rw [cell_store_ne _ _ (by omega)]
    exact first_eq_none.1 h k (Nat.zero_le k) (by omega)

/-- An entry under another name does not hide an entry that was found. -/
theorem findEntry_store_found {i : ℕ} (h : findEntry t name ext = some i) (hj : j < 64) (hne : i ≠ j)
    (he : e.hasName name ext = false) : findEntry (store t j e) name ext = some i := by
  obtain ⟨h1, h2, h3, h4⟩ := first_eq_some.1 h
  refine first_eq_some.2 ⟨h1, h2, ?_, fun k h5 h6 => ?_⟩
  · rw [cell_store_ne _ _ (Ne.symm hne)]; exact h3
  · rw [cell_store _ _ _ hj]
    split
    · exact he
    · exact h4 k h5 h6

/-- An entry under another name does not change what a look-up finds. -/
theorem findEntry_store_other (hj : j < 64) (he : e.hasName name ext = false)
    (hj' : (cell t j).hasName name ext = false) : findEntry (store t j e) name ext = findEntry t name ext := by
  refine first_congr fun k _ _ => ?_
  rw [cell_store _ _ _ hj]
  split
  · subst_vars; rw [he, hj']
  · rfl

end

/-- The extension an entry gets: that of the request for a file, none for a folder. -/
def newExt (r : FAT32DriverRequest) : Vector UInt8 3 := if r.bufferSize = 0 then Vector.replicate 3 0 else r.ext

theorem newEntry_ext (r : FAT32DriverRequest) (c : ℕ) : (newEntry r c).ext = newExt r := by
  unfold newEntry newExt
  split
  · show (default : FAT32DirectoryEntry).ext = _
    decide
  · rfl

/-! ## The slot -/

namespace Accepted

variable (h : Accepted s r j c)
include h

theorem cluster_range : 3 ≤ c ∧ c < 512 ∧ cell s.disk.fat c = fatEmptyEntry := by
  obtain ⟨h1, h2, h3, -⟩ := first_eq_some.1 h.free
  exact ⟨h1, h2, isEmptyEntry_iff.1 h3⟩

theorem slot_free (hj : j < 64) : ¬ (s.disk.slot r.parent j).Live := by
  have := (first_eq_some.1 h.slot).2.2.1
  rw [slotAttribute_loaded hj] at this
  simpa [FAT32DirectoryEntry.Live] using this

theorem slot_before {i : ℕ} (hi : i < j) (hi' : i < 64) : (s.disk.slot r.parent i).Live := by
  have := (first_eq_some.1 h.slot).2.2.2 i (Nat.zero_le i) hi
  rw [slotAttribute_loaded hi'] at this
  simpa [FAT32DirectoryEntry.Live] using this

theorem slot_lo (hd : s.disk.Grounded) (hp : s.disk.LiveDir r.parent) : 2 ≤ j := by
  have hs := hd.shape _ hp
  rcases Nat.lt_or_ge j 2 with hj | hj
  · refine absurd ?_ (h.slot_free (by omega))
    obtain rfl | rfl : j = 0 ∨ j = 1 := by omega
    · exact hs.self
    · exact hs.parent
  · exact hj

theorem slot_hi_of_folder (hb : r.bufferSize = 0) : j < 64 := by
  have := h.slot
  rw [if_pos hb] at this
  exact (first_eq_some.1 this).2.1

theorem slot_hi_of_free (hf : s.disk.HasFreeSlot r.parent) : j < 64 := by
  obtain ⟨i, -, h2, h3⟩ := hf
  by_contra hj
  exact h3 (h.slot_before (by omega) h2)

theorem taken_mem : c ∈ taken s.disk r := by
  obtain ⟨cs, hcs⟩ := taken_eq (r := r) h.free
  rw [hcs]; exact List.mem_cons_self

theorem owns : Owns (link s.disk.fat (taken s.disk r)) (newEntry r c) (taken s.disk r) := by
  have hl := linked_taken (r := r) h.free
  refine ⟨?_, ?_, fun x hx => ?_, hl.used⟩
  · rw [newEntry_cluster r h.cluster_range.2.1]; exact hl.chain
  · rw [taken_length h.room, newEntry_clusterCount]
  · obtain ⟨h1, h2, -⟩ := mem_taken hx
    exact ⟨h1, h2⟩

end Accepted

/-- A request under a new name, with enough free clusters and a free slot, can be served. -/
theorem exists_accepted (hf : findEntry (s.disk.table r.parent) r.name r.ext = none)
    (hn : needed r ≤ (freeClusters s.disk.fat).length) (hs : s.disk.HasFreeSlot r.parent) :
    ∃ j c, Accepted s r j c := by
  obtain ⟨c, hc⟩ : ∃ c, first (isEmptyEntry s.disk.fat) 3 512 = some c := by
    rcases h : first (isEmptyEntry s.disk.fat) 3 512 with _ | c
    · rw [freeClusters, hits_of_first_none h, List.length_nil] at hn
      have := needed_pos r
      omega
    · exact ⟨c, rfl⟩
  obtain ⟨j, hj⟩ : ∃ j, first (fun j => slotAttribute (loaded s r) j != uattrNotEmpty) 0
      (if r.bufferSize = 0 then 64 else 128) = some j := by
    obtain ⟨i, -, h2, h3⟩ := hs
    rcases h : first (fun j => slotAttribute (loaded s r) j != uattrNotEmpty) 0
      (if r.bufferSize = 0 then 64 else 128) with _ | j
    · have := first_eq_none.1 h i (Nat.zero_le i) (by split <;> omega)
      rw [slotAttribute_loaded h2] at this
      exact absurd (by simpa [FAT32DirectoryEntry.Live] using this) h3
    · exact ⟨j, rfl⟩
  exact ⟨j, c, hf, hc, hn, hj⟩

/-! ## The clusters after the writes -/

theorem place_ofNat (h : c < 512) : place (UInt32.ofNat c) = c := by
  rw [place_of_lt (by rw [toNat_ofNat_cluster h]; omega), toNat_ofNat_cluster h]

theorem mem_dataWrites {w : UInt32 × ClusterBuffer} : ∀ {i : ℕ} {cs : List ℕ}, w ∈ dataWrites r i cs →
    ∃ c ∈ cs, w.1 = UInt32.ofNat c
  | i, c :: cs, h => by
    rw [dataWrites, List.mem_cons] at h
    rcases h with rfl | h
    · exact ⟨c, List.mem_cons_self, rfl⟩
    · obtain ⟨c', h1, h2⟩ := mem_dataWrites h
      exact ⟨c', List.mem_cons_of_mem c h1, h2⟩

theorem cluster_dataWrites_other {cs : List ℕ} {i x : ℕ} (hr : ∀ c ∈ cs, c < 512) (hx : x ∉ cs) (d : Disk) :
    (d.replay (dataWrites r i cs)).cluster x = d.cluster x := by
  refine cluster_replay_other (fun w hw => ?_) d
  obtain ⟨c, h1, h2⟩ := mem_dataWrites hw
  rw [h2, place_ofNat (hr c h1)]
  rintro rfl
  exact hx h1

/-- The clusters of the copy loop hold the chunks of the buffer. -/
theorem cluster_dataWrites {cs : List ℕ} (i : ℕ) (d : Disk) (hn : cs.Nodup) (hr : ∀ c ∈ cs, c < 512) :
    (cs.map fun c => (d.replay (dataWrites r i cs)).cluster c) = (List.range' i cs.length).map (chunk r) := by
  induction cs generalizing i d with
  | nil => simp
  | cons c cs ih =>
    obtain ⟨hc, hn'⟩ := List.nodup_cons.1 hn
    have hr' : ∀ x ∈ cs, x < 512 := fun x hx => hr x (List.mem_cons_of_mem c hx)
    have hc512 := hr c List.mem_cons_self
    have hself : (d.replay (dataWrites r i (c :: cs))).cluster c = chunk r i := by
      rw [dataWrites, replay_cons, cluster_dataWrites_other hr' hc, cluster_writeClusters, place_ofNat hc512,
        if_pos ⟨rfl, by omega⟩]
    rw [List.map_cons, hself, List.length_cons, List.range'_succ, List.map_cons, dataWrites, replay_cons,
      ih (i + 1) _ hn' hr']

theorem place_fat : place fatClusterNumber = 1 := rfl

theorem link_singleton (t : FAT32FileAllocationTable) (c : ℕ) : link t [c] = store t c fatEndOfFile := rfl

section

theorem parent_not_taken (hd : d.Grounded) (hp : d.LiveDir r.parent) : r.parent ∉ taken d r :=
  fun hm => hd.used _ hp (mem_taken hm).2.2

/-- The cluster of a new folder. -/
theorem cluster_request_folder (h : Accepted s r j c) (hb : r.bufferSize = 0) :
    (s.disk.replay (requestWrites s.disk r j c)).cluster c = tablePacked (newDirectory (newEntry r c)
      (dotDotEntry (s.disk.slot r.parent 0))) := by
  have hc := h.cluster_range
  rw [requestWrites, if_pos hb, folderWrites, replay_cons, replay_cons, replay_cons, replay_nil,
    cluster_writeClusters, place_ofNat hc.2.1, if_pos ⟨rfl, by omega⟩, newEntry_folder hb]

theorem Accepted.replay_fat (h : Accepted s r j c) (hlo : 2 ≤ r.parent) (hhi : r.parent < 2 ^ 26) :
    (s.disk.replay (requestWrites s.disk r j c)).cluster 1 = fatPacked (link s.disk.fat (taken s.disk r)) := by
  have hc := h.cluster_range
  by_cases hb : r.bufferSize = 0
  · rw [requestWrites, if_pos hb, folderWrites, replay_cons, replay_cons, replay_cons, replay_nil,
      cluster_writeClusters_ne _ _ (by rw [place_ofNat hc.2.1]; omega),
      cluster_writeClusters_ne _ _ (by rw [place_parent_of_lt hhi]; omega), cluster_writeClusters, place_fat,
      if_pos ⟨rfl, by omega⟩, taken_of_folder hb h.free, link_singleton]
  · rw [requestWrites, if_neg hb, fileWrites, replay_append, replay_cons, replay_cons, replay_nil,
      cluster_writeClusters_ne _ _ (by rw [place_parent_of_lt hhi]; omega), cluster_writeClusters, place_fat,
      if_pos ⟨rfl, by omega⟩]

/-- A served request writes the table of files, the cluster it names and the clusters it takes. -/
theorem Accepted.replay_other (h : Accepted s r j c) (hhi : r.parent < 2 ^ 26) {x : ℕ} (h1 : x ≠ 1) (hx : x ≠ r.parent)
    (ht : x ∉ taken s.disk r) : (s.disk.replay (requestWrites s.disk r j c)).cluster x = s.disk.cluster x := by
  have hxc : x ≠ c := fun he => ht (by rw [he]; exact h.taken_mem)
  by_cases hb : r.bufferSize = 0
  · rw [requestWrites, if_pos hb, folderWrites, replay_cons, replay_cons, replay_cons, replay_nil,
      cluster_writeClusters_ne _ _ (by rw [place_ofNat h.cluster_range.2.1]; exact hxc),
      cluster_writeClusters_ne _ _ (by rw [place_parent_of_lt hhi]; exact hx), cluster_writeClusters_ne _ _ h1]
  · rw [requestWrites, if_neg hb, fileWrites, replay_append, replay_cons, replay_cons, replay_nil,
      cluster_writeClusters_ne _ _ (by rw [place_parent_of_lt hhi]; exact hx), cluster_writeClusters_ne _ _ h1,
      cluster_dataWrites_other (fun y hy => (mem_taken hy).2.1) ht]

variable (h : Accepted s r j c) (hd : s.disk.Grounded) (hp : s.disk.LiveDir r.parent)
include h hd hp

theorem cluster_request_fat :
    (s.disk.replay (requestWrites s.disk r j c)).cluster 1 = fatPacked (link s.disk.fat (taken s.disk r)) :=
  have hr := hd.range _ hp
  h.replay_fat hr.1 (by omega)

theorem cluster_request_parent :
    (s.disk.replay (requestWrites s.disk r j c)).cluster r.parent =
      tablePacked (store (s.disk.table r.parent) j (newEntry r c)) := by
  obtain ⟨hp2, hp512⟩ := hd.range _ hp
  have hc := h.cluster_range
  have hne : r.parent ≠ c := fun he => hd.used _ hp (by rw [he]; exact hc.2.2)
  by_cases hb : r.bufferSize = 0
  · rw [requestWrites, if_pos hb, folderWrites, replay_cons, replay_cons, replay_cons, replay_nil,
      cluster_writeClusters_ne _ _ (by rw [place_ofNat hc.2.1]; exact hne), cluster_writeClusters,
      place_parent hp512, if_pos ⟨rfl, by omega⟩, newEntry_folder hb]
  · rw [requestWrites, if_neg hb, fileWrites, replay_append, replay_cons, replay_cons, replay_nil,
      cluster_writeClusters, place_parent hp512, if_pos ⟨rfl, by omega⟩, newEntry_file hb]

theorem cluster_request_other {x : ℕ} (h1 : x ≠ 1) (hx : x ≠ r.parent) (ht : x ∉ taken s.disk r) :
    (s.disk.replay (requestWrites s.disk r j c)).cluster x = s.disk.cluster x :=
  have hr := hd.range _ hp
  h.replay_other (by omega) h1 hx ht

/-- The clusters of a new file. -/
theorem clusters_request_file (hb : r.bufferSize ≠ 0) :
    ((taken s.disk r).map fun x => (s.disk.replay (requestWrites s.disk r j c)).cluster x) =
      (List.range (needed r)).map (chunk r) := by
  obtain ⟨hp2, hp512⟩ := hd.range _ hp
  have hdata : ∀ x ∈ taken s.disk r, (s.disk.replay (requestWrites s.disk r j c)).cluster x =
      (s.disk.replay (dataWrites r 0 (taken s.disk r))).cluster x := by
    intro x hx
    have hr := mem_taken hx
    have hxp : x ≠ r.parent := fun he => parent_not_taken hd hp (by rw [← he]; exact hx)
    rw [requestWrites, if_neg hb, fileWrites, replay_append, replay_cons, replay_cons, replay_nil,
      cluster_writeClusters_ne _ _ (by rw [place_parent hp512]; exact hxp),
      cluster_writeClusters_ne _ _ (by rw [place_fat]; omega)]
  rw [List.map_congr_left hdata, cluster_dataWrites 0 _ (taken_nodup _ _) fun x hx => (mem_taken hx).2.1,
    taken_length h.room, ← List.range_eq_range']

/-! ## The change to the disk -/

theorem request_inserted (hj : j < 64) :
    s.disk.Inserted (s.disk.replay (requestWrites s.disk r j c)) r.parent j (newEntry r c) (taken s.disk r) where
  dir := hp
  lo := h.slot_lo hd hp
  hi := hj
  free := h.slot_free hj
  live := newEntry_live r c
  table := table_of_cluster (cluster_request_parent h hd hp)
  others _ := cluster_request_other h hd hp
  fat x hx := by
    rw [fat_of_cluster (cluster_request_fat h hd hp), (linked_taken h.free).others x hx]
  owns := by rw [fat_of_cluster (cluster_request_fat h hd hp)]; exact h.owns
  fresh x hx := (mem_taken hx).2.2
  file hf := by
    rw [newEntry_filesize]
    exact bufferSize_pos (mt (newEntry_isFolder r c).2 hf)
  folder hf := by
    have hb := (newEntry_isFolder r c).1 hf
    rw [newEntry_cluster r h.cluster_range.2.1, newEntry_filesize]
    exact ⟨hb, table_of_cluster (cluster_request_folder h hb)⟩

/-- A file written into a full directory is not entered: its slot is past the directory. -/
theorem request_kept (hj : 64 ≤ j) : s.disk.Kept (s.disk.replay (requestWrites s.disk r j c)) where
  others x hx hu := by
    have ht : x ∉ taken s.disk r := fun hm => hu (mem_taken hm).2.2
    by_cases hxp : x = r.parent
    · rw [hxp, cluster_request_parent h hd hp, store_ge _ _ hj]
      unfold Disk.table
      rw [Equiv.apply_symm_apply]
    · exact cluster_request_other h hd hp (by omega) hxp ht
  fat x _ hu := by
    rw [fat_of_cluster (cluster_request_fat h hd hp),
      (linked_taken h.free).others x fun hm => hu (mem_taken hm).2.2]

/-- No request writes cluster 0 or a reserved table entry. -/
theorem request_sameBoot : s.disk.SameBoot (s.disk.replay (requestWrites s.disk r j c)) where
  cluster := by
    have := hd.range _ hp
    exact cluster_request_other h hd hp (by omega) (by omega) fun hm => absurd (mem_taken hm).1 (by omega)
  fat x hx := by
    rw [fat_of_cluster (cluster_request_fat h hd hp),
      (linked_taken h.free).others x fun hm => absurd (mem_taken hm).1 (by omega)]

end

/-! ## The bytes of a new file -/

/-- The bytes a request stores. -/
def bufferBytes (r : FAT32DriverRequest) : List UInt8 := (List.range r.bufferSize.toNat).map r.buf

theorem chunk_toList (r : FAT32DriverRequest) (i : ℕ) :
    (chunk r i).toList = (List.range 2048).map fun b =>
      if i * 2048 + b < r.bufferSize.toNat then r.buf (i * 2048 + b) else 0 := by
  unfold chunk
  rw [Vector.toList_ofFn, List.ofFn_eq_map, ← List.map_coe_finRange_eq_range, List.map_map]
  rfl

theorem chunks_take {n : ℕ} (hn : r.bufferSize.toNat ≤ n * 2048) :
    (((List.range n).map (chunk r)).flatMap fun b => b.toList).take r.bufferSize.toNat = bufferBytes r := by
  have hblocks := flatMap_blocks (fun a => if a < r.bufferSize.toNat then r.buf a else 0) 2048 n
  rw [List.flatMap_map, List.flatMap_congr fun i _ => chunk_toList r i, hblocks, ← List.map_take, List.take_range,
    Nat.min_eq_left hn, bufferBytes]
  exact List.map_congr_left fun a ha => if_pos (List.mem_range.1 ha)

/-- A new file holds the bytes of the buffer. -/
theorem fileBytes_request (h : Accepted s r j c) (hd : s.disk.Grounded) (hp : s.disk.LiveDir r.parent)
    (hb : r.bufferSize ≠ 0) :
    (s.disk.replay (requestWrites s.disk r j c)).fileBytes (newEntry r c) = bufferBytes r := by
  have ho := h.owns
  rw [← fat_of_cluster (cluster_request_fat h hd hp)] at ho
  unfold fileBytes
  rw [chainOf_eq ho, newEntry_filesize, ← List.flatMap_map, clusters_request_file h hd hp hb, chunks_take]
  rw [needed_of_file hb]; omega

/-! ## The machine after a served request -/

namespace Stored

variable (h : Stored s r j c s') (hd : s.disk.Grounded) (hp : s.disk.LiveDir r.parent)
include h hd hp

theorem inserted (hj : j < 64) : s.disk.Inserted s'.disk r.parent j (newEntry r c) (taken s.disk r) := by
  rw [h.disk]; exact request_inserted h.toAccepted hd hp hj

theorem kept (hj : 64 ≤ j) : s.disk.Kept s'.disk := by
  rw [h.disk]; exact request_kept h.toAccepted hd hp hj

theorem sameBoot : s.disk.SameBoot s'.disk := by
  rw [h.disk]; exact request_sameBoot h.toAccepted hd hp

/-- The tables in memory and on the disk are the same. -/
theorem coherent : s'.memory.fatTable = s'.disk.fat := by
  rw [h.fat, h.disk, fat_of_cluster (cluster_request_fat h.toAccepted hd hp)]

/-- A later request under the name of the new entry resolves to it. -/
theorem resolves (hj : j < 64) {q : FAT32DriverRequest} (hq : q.parent = r.parent) (hn : q.name = r.name)
    (hx : q.ext = r.ext) (hext : newExt r = r.ext) : Resolves s'.disk q j := by
  unfold Resolves
  rw [hq, hn, hx, (h.inserted hd hp hj).table]
  refine findEntry_store_self h.unmatched hj ?_
  rw [FAT32DirectoryEntry.hasName_iff]
  exact ⟨newEntry_name r c, (newEntry_ext r c).trans hext⟩

theorem slot_new (hj : j < 64) : s'.disk.slot r.parent j = newEntry r c := (h.inserted hd hp hj).slot_new hd

theorem liveEntry (hj : j < 64) : s'.disk.LiveEntry r.parent j :=
  ((h.inserted hd hp hj).liveEntry_iff hd).2 (.inr ⟨rfl, rfl⟩)

theorem liveFile (hj : j < 64) (hb : r.bufferSize ≠ 0) : s'.disk.LiveFile r.parent j :=
  ⟨h.liveEntry hd hp hj, by rw [h.slot_new hd hp hj, newEntry_isFolder]; exact hb⟩

/-- A new folder is a directory. -/
theorem liveDir_folder (hb : r.bufferSize = 0) : s'.disk.LiveDir c := by
  have hi := h.inserted hd hp (h.slot_hi_of_folder hb)
  exact (hi.liveDir_iff hd).2 (.inr ⟨(newEntry_isFolder r c).2 hb, (newEntry_cluster r h.cluster_range.2.1).symm⟩)

theorem bytes (hb : r.bufferSize ≠ 0) : s'.disk.fileBytes (newEntry r c) = bufferBytes r := by
  rw [h.disk]; exact fileBytes_request h.toAccepted hd hp hb

end Stored

theorem newExt_file (h : r.bufferSize ≠ 0) : newExt r = r.ext := if_neg h

end BebasOs.Fat32
