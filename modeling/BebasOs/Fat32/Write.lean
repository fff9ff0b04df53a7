/-
`write`, every exit of it: what it answers, the cluster writes it issues in order, and the state it
leaves. A request that is refused leaves the disk alone and the table in memory right wherever the
one on the disk is taken; a request that succeeds puts one entry into the directory, on the first
free clusters of the table.
-/
import BebasOs.Fat32.Allocate
import BebasOs.Fat32.Change

namespace BebasOs.Fat32

open Bytes Links Search Disk

/-- The cluster of the directory a request names. -/
def FAT32DriverRequest.parent (r : FAT32DriverRequest) : ℕ := r.parentClusterNumber.toNat

variable {π : Platform} {s : Machine} {r : FAT32DriverRequest} {d : Disk}

/-! ## The two loads -/

/-- The memory after the two loads of `write` and `delete`. -/
def loaded (s : Machine) (r : FAT32DriverRequest) : FAT32DriverState :=
  ⟨s.disk.fat, s.disk.table r.parent, s.memory.clusterBuf⟩

theorem place_parent_of_lt (h : r.parent < 2 ^ 26) : place r.parentClusterNumber = r.parent := place_of_lt h

theorem place_parent (h : r.parent < 512) : place r.parentClusterNumber = r.parent := place_parent_of_lt (by omega)

theorem reload_eq (h : r.parent < 2 ^ 26) : reload s r = ⟨loaded s r, s.disk, s.issued⟩ := by
  unfold reload loaded
  rw [readClusters_eq, readClusters_eq, place_parent_of_lt h, show place 1 = 1 from rfl]
  rfl

theorem ceil_eq (n : ℕ) : ceil n 2048 = (n + 2047) / 2048 := by
  unfold ceil
  split <;> omega

/-! ## A new folder -/

/-- The cluster writes of `init_directory_table`: the table of files, the parent, the new directory. -/
def folderWrites (d : Disk) (r : FAT32DriverRequest) (j c : ℕ) : List (UInt32 × ClusterBuffer) :=
  let self := selfEntry r.name (UInt32.ofNat c)
  [(fatClusterNumber, fatPacked (store d.fat c fatEndOfFile)),
    (r.parentClusterNumber, tablePacked (store (d.table r.parent) j self)),
    (UInt32.ofNat c, tablePacked (newDirectory self (dotDotEntry (d.slot r.parent 0))))]

theorem initDirectoryTable_eq {m : FAT32DriverState} {i : List (UInt32 × ClusterBuffer)} {j c : ℕ}
    (hp : 2 ≤ r.parent) (hp' : r.parent < 2 ^ 26) (hc : first (isEmptyEntry d.fat) 1 512 = some c) (hc2 : c ≠ 2)
    (hj : first (isFreeSlot (d.table r.parent)) 0 64 = some j) (hj0 : j ≠ 0) (hm : m.fatTable = d.fat) :
    ∃ m', initDirectoryTable ⟨m, d, i⟩ r.name r.parentClusterNumber =
        some ⟨m', d.replay (folderWrites d r j c), i ++ folderWrites d r j c⟩ ∧
      m'.fatTable = store d.fat c fatEndOfFile := by
  obtain ⟨-, hc512, -, -⟩ := first_eq_some.1 hc
  have hroot : UInt32.ofNat c ≠ rootClusterNumber := fun h => hc2 (by
    have := congrArg UInt32.toNat h
    rwa [toNat_ofNat_cluster hc512] at this)
  -- the parent is read again once the table of files is written, and lies elsewhere
  have hread (b : ClusterBuffer) :
      tablePacked.symm ((d.writeClusters b fatClusterNumber).readClusters r.parentClusterNumber) =
        d.table r.parent := by
    rw [readClusters_eq, place_parent_of_lt hp', cluster_writeClusters_ne _ _ (by
      rw [show place fatClusterNumber = 1 from rfl]; omega)]
    rfl
  have hslot (e : FAT32DirectoryEntry) : cell (store (d.table r.parent) j e) 0 = d.slot r.parent 0 :=
    cell_store_ne _ _ hj0
  unfold initDirectoryTable
  simp only [hm, hc, if_neg hroot, Machine.writeClusters, hread, hj, hslot, folderWrites, replay_cons, replay_nil,
    List.append_assoc, List.cons_append, List.nil_append]
  exact ⟨_, rfl, rfl⟩

/-! ## A new file -/

/-- The number of clusters a request takes. -/
def needed (r : FAT32DriverRequest) : ℕ := if r.bufferSize = 0 then 1 else ceil r.bufferSize.toNat 2048

/-- The clusters a request takes: the first free ones. -/
def taken (d : Disk) (r : FAT32DriverRequest) : List ℕ := (freeClusters d.fat).take (needed r)

theorem bufferSize_pos (h : r.bufferSize ≠ 0) : 0 < r.bufferSize.toNat :=
  Nat.pos_of_ne_zero fun h' => h (UInt32.toNat_inj.1 h')

theorem needed_of_file (h : r.bufferSize ≠ 0) : needed r = (r.bufferSize.toNat + 2047) / 2048 := by
  rw [needed, if_neg h, ceil_eq]

theorem needed_of_folder (h : r.bufferSize = 0) : needed r = 1 := if_pos h

theorem needed_pos (r : FAT32DriverRequest) : 1 ≤ needed r := by
  by_cases h : r.bufferSize = 0
  · rw [needed_of_folder h]
  · have := bufferSize_pos h
    rw [needed_of_file h]; omega

theorem taken_length (h : needed r ≤ (freeClusters d.fat).length) : (taken d r).length = needed r :=
  List.length_take_of_le h

/-- With enough free clusters the first of them is taken first. -/
theorem taken_eq {c : ℕ} (hc : first (isEmptyEntry d.fat) 3 512 = some c) : ∃ cs, taken d r = c :: cs := by
  obtain ⟨n, hn⟩ : ∃ n, needed r = n + 1 := ⟨needed r - 1, by have := needed_pos r; omega⟩
  refine ⟨(hits (isEmptyEntry d.fat) (c + 1) 512).take n, ?_⟩
  rw [taken, freeClusters, hits_of_first_some hc, hn, List.take_succ_cons]

theorem mem_taken {c : ℕ} (h : c ∈ taken d r) : 3 ≤ c ∧ c < 512 ∧ cell d.fat c = fatEmptyEntry :=
  mem_freeClusters.1 (List.mem_of_mem_take h)

theorem taken_nodup (d : Disk) (r : FAT32DriverRequest) : (taken d r).Nodup :=
  (freeClusters_nodup d.fat).sublist (List.take_sublist _ _)

theorem linked_taken {c : ℕ} (hc : first (isEmptyEntry d.fat) 3 512 = some c) :
    Linked d.fat (link d.fat (taken d r)) c (taken d r) := by
  have hn := taken_nodup d r
  have hr : ∀ x ∈ taken d r, 3 ≤ x ∧ x < 512 := fun x hx => by
    obtain ⟨h1, h2, -⟩ := mem_taken hx
    exact ⟨h1, h2⟩
  obtain ⟨cs, hcs⟩ := taken_eq (r := r) hc
  rw [hcs] at hn hr ⊢
  exact linked_link _ hn hr

/-- The cluster writes of a new file: its data, the table of files, the directory. -/
def fileWrites (d : Disk) (r : FAT32DriverRequest) (j c : ℕ) : List (UInt32 × ClusterBuffer) :=
  dataWrites r 0 (taken d r) ++ [(fatClusterNumber, fatPacked (link d.fat (taken d r))),
    (r.parentClusterNumber, tablePacked (store (d.table r.parent) j (fileEntry r c)))]

theorem writeFile_ok {m : FAT32DriverState} {i : List (UInt32 × ClusterBuffer)} {j c : ℕ} (hm : m.fatTable = d.fat)
    (ht : m.dirTableBuf = d.table r.parent) (hb : r.bufferSize ≠ 0)
    (hc : first (isEmptyEntry d.fat) 3 512 = some c)
    (hj : first (fun j => slotAttribute m j != uattrNotEmpty) 0 128 = some j)
    (hlen : needed r ≤ (freeClusters d.fat).length) :
    ∃ m', writeFile π ⟨m, d, i⟩ r c = some (0, ⟨m', d.replay (fileWrites d r j c), i ++ fileWrites d r j c⟩) ∧
      m'.fatTable = link d.fat (taken d r) := by
  have hk : ceil r.bufferSize.toNat 2048 = needed r := by rw [needed, if_neg hb]
  have hl := linked_taken (r := r) hc
  have hlo : (0 + (taken d r).length) * 2048 < r.bufferSize.toNat + 2048 := by
    rw [taken_length hlen, needed_of_file hb]; omega
  obtain ⟨a, h1, h2, h3⟩ := allocate_ok (r := r) (j := j) (needed_pos r) (m := m) (by rw [hm]; exact hc)
    (by rw [hm]; exact hlen)
  have hfat : a.memory.fatTable = link d.fat (taken d r) := by rw [h3, hm]; rfl
  have hdir : a.memory.dirTableBuf = store (d.table r.parent) j (fileEntry r c) := by
    rw [h3, ← ht, ← storeSlot_dirTableBuf]; rfl
  -- the chain is linked in memory when the copying starts, and the loop follows it
  obtain ⟨buf, h4⟩ := copyLoop_eq π hl.chain 0 r.bufferSize.toNat ⟨a.memory, d, i⟩ hfat
    (fun x hx => (mem_taken hx).2.1) (by omega) hlo
  rw [taken_length hlen] at h4
  unfold writeFile
  simp only [hj, hk, h1, h2, h4, copied, Machine.writeClusters, FAT32DriverState.withBuf_fatTable,
    FAT32DriverState.withBuf_dirTableBuf, fileWrites, hfat, hdir, replay_append, replay_cons, replay_nil,
    List.append_assoc, List.cons_append, List.nil_append]
  exact ⟨_, rfl, by rw [FAT32DriverState.withBuf_fatTable, hfat]⟩

/-- A file that needs more clusters than there are is refused half-way; the table in memory is then
right where the one on the disk is taken. -/
theorem writeFile_noSpace {m : FAT32DriverState} {i : List (UInt32 × ClusterBuffer)} {j c : ℕ}
    (hm : m.fatTable = d.fat) (hb : r.bufferSize ≠ 0) (hc : first (isEmptyEntry d.fat) 3 512 = some c)
    (hj : first (fun j => slotAttribute m j != uattrNotEmpty) 0 128 = some j)
    (hlen : (freeClusters d.fat).length < needed r) :
    ∃ m', writeFile π ⟨m, d, i⟩ r c = some (-1, ⟨m', d, i⟩) ∧
      ∀ x, cell d.fat x ≠ fatEmptyEntry → cell m'.fatTable x = cell d.fat x := by
  have hk : ceil r.bufferSize.toNat 2048 = needed r := by rw [needed, if_neg hb]
  have hc' : hits (isEmptyEntry d.fat) c 512 = freeClusters d.fat := by
    obtain ⟨-, hc512, hce, -⟩ := first_eq_some.1 hc
    rw [freeClusters, hits_of_first_some hc]
    exact hits_of_first_some (first_eq_some.2 ⟨Nat.le_refl c, hc512, hce, fun x h1 h2 => absurd h1 (by omega)⟩)
  obtain ⟨m', h1, h2⟩ := allocate_error (r := r) (j := j) (k := needed r) (t := d.fat) (needed r) 0 ⟨m, c, none, 0⟩
    (fun x _ => by rw [hm]) (fun x _ => by rw [hm]) (fun p h => by cases h) (by rw [hc']; exact hlen)
  refine ⟨m', ?_, h2⟩
  unfold writeFile
  simp only [hj, hk, h1]

/-! ## The exits of write -/

/-- The cluster writes of a request that succeeds. -/
def requestWrites (d : Disk) (r : FAT32DriverRequest) (j c : ℕ) : List (UInt32 × ClusterBuffer) :=
  if r.bufferSize = 0 then folderWrites d r j c else fileWrites d r j c

/-- The request can be served, with slot `j` and first cluster `c`. -/
structure Accepted (s : Machine) (r : FAT32DriverRequest) (j c : ℕ) : Prop where
  unmatched : findEntry (s.disk.table r.parent) r.name r.ext = none
  free : first (isEmptyEntry s.disk.fat) 3 512 = some c
  room : needed r ≤ (freeClusters s.disk.fat).length
  slot : first (fun j => slotAttribute (loaded s r) j != uattrNotEmpty) 0
    (if r.bufferSize = 0 then 64 else 128) = some j

/-- `s'` is `s` after a request that was served. -/
structure Stored (s : Machine) (r : FAT32DriverRequest) (j c : ℕ) (s' : Machine) : Prop
    extends Accepted s r j c where
  disk : s'.disk = s.disk.replay (requestWrites s.disk r j c)
  issued : s'.issued = s.issued ++ requestWrites s.disk r j c
  fat : s'.memory.fatTable = link s.disk.fat (taken s.disk r)

/-- `s'` is `s` after a request that was refused. -/
structure Refused (s : Machine) (code : Int) (s' : Machine) : Prop where
  code : code ≠ 0
  disk : s'.disk = s.disk
  issued : s'.issued = s.issued
  fat : ∀ x, cell s.disk.fat x ≠ fatEmptyEntry → cell s'.memory.fatTable x = cell s.disk.fat x

/-- The three ways a write ends: served, refused, or a search past the end of the driver's memory,
for a file in a directory without a free slot. -/
inductive WriteSpec (s : Machine) (r : FAT32DriverRequest) : Option (Int × Machine) → Prop
  | stored {j c : ℕ} {s' : Machine} (h : Stored s r j c s') : WriteSpec s r (some (0, s'))
  | refused {code : Int} {s' : Machine} (h : Refused s code s') (hno : ∀ j c, ¬ Accepted s r j c) :
      WriteSpec s r (some (code, s'))
  | lost (hb : r.bufferSize ≠ 0) (hfull : ∀ i < 64, (s.disk.slot r.parent i).Live) (hno : ∀ j c, ¬ Accepted s r j c) :
      WriteSpec s r none

theorem slotAttribute_loaded {i : ℕ} (hi : i < 64) :
    slotAttribute (loaded s r) i = (s.disk.slot r.parent i).userAttribute := if_pos hi

theorem first_slot {n : ℕ} (hn : n ≤ 64) :
    first (fun j => slotAttribute (loaded s r) j != uattrNotEmpty) 0 n =
      first (isFreeSlot (s.disk.table r.parent)) 0 n :=
  first_congr fun i _ hi => by rw [slotAttribute_loaded (by omega)]; rfl

theorem room_of_folder {c : ℕ} (hb : r.bufferSize = 0) (hc : first (isEmptyEntry d.fat) 3 512 = some c) :
    needed r ≤ (freeClusters d.fat).length := by
  rw [needed_of_folder hb, freeClusters, hits_of_first_some hc, List.length_cons]
  omega

theorem taken_of_folder {c : ℕ} (hb : r.bufferSize = 0) (hc : first (isEmptyEntry d.fat) 3 512 = some c) :
    taken d r = [c] := by
  rw [taken, needed_of_folder hb, freeClusters, hits_of_first_some hc]
  rfl

/-- The machine after the two loads. -/
def reloaded (s : Machine) (r : FAT32DriverRequest) : Machine := ⟨loaded s r, s.disk, s.issued⟩

theorem reloaded_fatTable (s : Machine) (r : FAT32DriverRequest) :
    (reloaded s r).memory.fatTable = s.disk.fat := by simp only [reloaded, loaded]

theorem reloaded_dirTableBuf (s : Machine) (r : FAT32DriverRequest) :
    (reloaded s r).memory.dirTableBuf = s.disk.table r.parent := by simp only [reloaded, loaded]

theorem refused_reloaded {code : Int} (s : Machine) (r : FAT32DriverRequest) (hc : code ≠ 0) :
    Refused s code (reloaded s r) :=
  ⟨hc, rfl, rfl, fun x _ => by rw [reloaded_fatTable]⟩

theorem write_eq (hp : r.parent < 2 ^ 26) : write π s r = writeLoaded π (reloaded s r) r := by
  unfold write; rw [reload_eq hp]; rfl

section

variable {t : FAT32FileAllocationTable} {u : FAT32DirectoryTable} {c i : ℕ}

theorem writeLoaded_full (hm : s.memory.fatTable = t) (hc : first (isEmptyEntry t) 3 512 = none) :
    writeLoaded π s r = some (-1, s) := by
  unfold writeLoaded
  simp only [show rootClusterNumber.toNat + 1 = 3 from rfl, hm, hc]

theorem writeLoaded_unused (hm : s.memory.fatTable = t) (hu : s.memory.dirTableBuf = u)
    (hc : first (isEmptyEntry t) 3 512 = some c) (hs : ¬ (cell u 0).Live) : writeLoaded π s r = some (-1, s) := by
  have hs' : ¬ (cell u 0).userAttribute = uattrNotEmpty := hs
  unfold writeLoaded
  simp only [show rootClusterNumber.toNat + 1 = 3 from rfl, hm, hu, hc, if_neg hs']

theorem writeLoaded_matched (hm : s.memory.fatTable = t) (hu : s.memory.dirTableBuf = u)
    (hc : first (isEmptyEntry t) 3 512 = some c) (hs : (cell u 0).Live)
    (hf : findEntry u r.name r.ext = some i) : writeLoaded π s r = some (1, s) := by
  have hs' : (cell u 0).userAttribute = uattrNotEmpty := hs
  unfold writeLoaded
  simp only [show rootClusterNumber.toNat + 1 = 3 from rfl, hm, hu, hc, if_pos hs', hf]

theorem writeLoaded_unmatched (hm : s.memory.fatTable = t) (hu : s.memory.dirTableBuf = u)
    (hc : first (isEmptyEntry t) 3 512 = some c) (hs : (cell u 0).Live)
    (hf : findEntry u r.name r.ext = none) :
    writeLoaded π s r = if r.bufferSize = 0 then writeFolder s r else writeFile π s r c := by
  have hs' : (cell u 0).userAttribute = uattrNotEmpty := hs
  unfold writeLoaded
  simp only [show rootClusterNumber.toNat + 1 = 3 from rfl, hm, hu, hc, if_pos hs', hf]

theorem writeFolder_full (hu : s.memory.dirTableBuf = u) (hj : first (isFreeSlot u) 0 64 = none) :
    writeFolder s r = some (-1, s) := by
  unfold writeFolder
  simp only [hu, hj]

theorem writeFile_lost (hj : first (fun j => slotAttribute s.memory j != uattrNotEmpty) 0 128 = none) :
    writeFile π s r c = none := by
  unfold writeFile
  simp only [hj]

end

theorem writeFolder_ok {j c : ℕ} {m : FAT32DriverState} {i : List (UInt32 × ClusterBuffer)} (hp : 2 ≤ r.parent)
    (hp' : r.parent < 2 ^ 26) (hm : m.fatTable = d.fat) (ht : m.dirTableBuf = d.table r.parent)
    (hc : first (isEmptyEntry d.fat) 1 512 = some c) (hc2 : c ≠ 2)
    (hj : first (isFreeSlot (d.table r.parent)) 0 64 = some j) (hj0 : j ≠ 0) :
    ∃ m', writeFolder ⟨m, d, i⟩ r = some (0, ⟨m', d.replay (folderWrites d r j c), i ++ folderWrites d r j c⟩) ∧
      m'.fatTable = store d.fat c fatEndOfFile := by
  obtain ⟨m', h1, h2⟩ := initDirectoryTable_eq (m := { m with dirTableBuf := zeroTable })
    (i := i) hp hp' hc hc2 hj hj0 hm
  refine ⟨m', ?_, h2⟩
  unfold writeFolder
  simp only [ht, hj, h1]
  rfl

/-- What a request passes for its directory: a cluster past the table of files, with slot 0 in use. -/
structure Disk.Opens (d : Disk) (r : FAT32DriverRequest) : Prop where
  fat1 : cell d.fat 1 ≠ fatEmptyEntry
  fat2 : cell d.fat 2 ≠ fatEmptyEntry
  lo : 2 ≤ r.parent
  hi : r.parent < 2 ^ 26
  self : (d.slot r.parent 0).Live

theorem Disk.Grounded.opens (hd : d.Grounded) (hp : d.LiveDir r.parent) : d.Opens r :=
  ⟨hd.fat1, hd.fat2, (hd.range _ hp).1, by have := hd.range _ hp; omega, (hd.shape _ hp).self⟩

section

variable (hd : s.disk.Opens r) (hf : findEntry (s.disk.table r.parent) r.name r.ext = none) {c : ℕ}
  (hc : first (isEmptyEntry s.disk.fat) 3 512 = some c)
include hf hc

include hd in
/-- A folder under a new name is served or finds no slot. -/
theorem writeFolder_spec (hb : r.bufferSize = 0) : WriteSpec s r (writeFolder (reloaded s r) r) := by
  have hskip : first (isEmptyEntry s.disk.fat) 1 512 = first (isEmptyEntry s.disk.fat) 3 512 :=
    first_skip (by omega) fun x h1 h2 => by
      obtain rfl | rfl : x = 1 ∨ x = 2 := by omega
      · simpa [isEmptyEntry] using hd.fat1
      · simpa [isEmptyEntry] using hd.fat2
  have hc3 := (first_eq_some.1 hc).1
  rcases hj : first (isFreeSlot (s.disk.table r.parent)) 0 64 with _ | j
  · rw [writeFolder_full (reloaded_dirTableBuf s r) hj]
    refine .refused (refused_reloaded s r (by decide)) fun j c h => ?_
    have := h.slot
    rw [if_pos hb, first_slot (Nat.le_refl 64), hj] at this
    cases this
  · have hj0 : j ≠ 0 := by
      rintro rfl
      have := (first_eq_some.1 hj).2.2.1
      simp [isFreeSlot] at this
      exact this hd.self
    obtain ⟨m', h1, h2⟩ := writeFolder_ok (m := loaded s r) (i := s.issued) hd.lo hd.hi rfl rfl (hskip.trans hc)
      (by omega) hj hj0
    have hreq : requestWrites s.disk r j c = folderWrites s.disk r j c := if_pos hb
    rw [reloaded, h1]
    refine .stored (j := j) (c := c) ⟨⟨hf, hc, room_of_folder hb hc, ?_⟩, ?_, ?_, ?_⟩
    · rw [if_pos hb, first_slot (Nat.le_refl 64), hj]
    · rw [hreq]
    · rw [hreq]
    · rw [taken_of_folder hb hc]; exact h2

/-- A file under a new name is served, finds too few clusters, or no slot at all. -/
theorem writeFile_spec (hb : r.bufferSize ≠ 0) : WriteSpec s r (writeFile π (reloaded s r) r c) := by
  rcases hj : first (fun j => slotAttribute (loaded s r) j != uattrNotEmpty) 0 128 with _ | j
  · rw [writeFile_lost (s := reloaded s r) hj]
    refine .lost hb (fun i hi => ?_) fun j c h => ?_
    · have := first_eq_none.1 hj i (Nat.zero_le i) (by omega)
      rw [slotAttribute_loaded hi] at this
      simpa [FAT32DirectoryEntry.Live] using this
    · have := h.slot
      rw [if_neg hb, hj] at this
      cases this
  · by_cases hroom : needed r ≤ (freeClusters s.disk.fat).length
    · obtain ⟨m', h1, h2⟩ := writeFile_ok (π := π) (m := loaded s r) (i := s.issued) rfl rfl hb hc hj hroom
      have hreq : requestWrites s.disk r j c = fileWrites s.disk r j c := if_neg hb
      rw [reloaded, h1]
      refine .stored (j := j) (c := c) ⟨⟨hf, hc, hroom, ?_⟩, ?_, ?_, ?_⟩
      · rw [if_neg hb, hj]
      · rw [hreq]
      · rw [hreq]
      · exact h2
    · obtain ⟨m', h1, h2⟩ := writeFile_noSpace (π := π) (m := loaded s r) (i := s.issued) rfl hb hc hj
        (by omega)
      rw [reloaded, h1]
      exact .refused ⟨by decide, rfl, rfl, h2⟩ fun j c h => hroom h.room

end

theorem Disk.Opens.write_spec (hd : s.disk.Opens r) : WriteSpec s r (write π s r) := by
  have hm := reloaded_fatTable s r
  have hu := reloaded_dirTableBuf s r
  rw [write_eq hd.hi]
  rcases hc : first (isEmptyEntry s.disk.fat) 3 512 with _ | c
  · rw [writeLoaded_full hm hc]
    exact .refused (refused_reloaded s r (by decide)) fun j c h => by rw [h.free] at hc; cases hc
  rcases hf : findEntry (s.disk.table r.parent) r.name r.ext with _ | i
  · rw [writeLoaded_unmatched hm hu hc hd.self hf]
    split
    · exact writeFolder_spec hd hf hc ‹_›
    · exact writeFile_spec hf hc ‹_›
  · rw [writeLoaded_matched hm hu hc hd.self hf]
    exact .refused (refused_reloaded s r (by decide)) fun j c h => by rw [h.unmatched] at hf; cases hf

theorem write_spec (hd : s.disk.Grounded) (hp : s.disk.LiveDir r.parent) : WriteSpec s r (write π s r) :=
  (hd.opens hp).write_spec

theorem Accepted.unique {j j' c c' : ℕ} (h : Accepted s r j c) (h' : Accepted s r j' c') : j = j' ∧ c = c' := by
  have hj := h.slot
  have hc := h.free
  rw [h'.slot] at hj
  rw [h'.free] at hc
  exact ⟨(Option.some.inj hj).symm, (Option.some.inj hc).symm⟩

/-- A request that can be served is. -/
theorem Accepted.write {j c : ℕ} (h : Accepted s r j c) (hd : s.disk.Grounded) (hp : s.disk.LiveDir r.parent) :
    ∃ s', Fat32.write π s r = some (0, s') ∧ Stored s r j c s' := by
  have hw : WriteSpec s r (Fat32.write π s r) := write_spec hd hp
  rcases hr : Fat32.write π s r with _ | ⟨code, s'⟩
  · rw [hr] at hw
    cases hw with
    | lost _ _ hno => exact absurd h (hno j c)
  · rw [hr] at hw
    cases hw with
    | stored h' =>
      obtain ⟨rfl, rfl⟩ := h.unique h'.toAccepted
      exact ⟨s', rfl, h'⟩
    | refused _ hno => exact absurd h (hno j c)

/-- A request that answered 0 was served. -/
theorem stored_of_write {s' : Machine} (hd : s.disk.Grounded) (hp : s.disk.LiveDir r.parent)
    (h : write π s r = some (0, s')) : ∃ j c, Stored s r j c s' := by
  have hw : WriteSpec s r (write π s r) := write_spec hd hp
  rw [h] at hw
  cases hw with
  | stored h => exact ⟨_, _, h⟩
  | refused h _ => exact absurd rfl h.code

end BebasOs.Fat32
