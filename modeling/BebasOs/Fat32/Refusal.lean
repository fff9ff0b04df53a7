/-
What `write` and `delete` refuse, for every disk and every parent cluster, and that no error changes
the disk. The only test of the parent is one byte of whatever cluster it names, in `write` alone, so
that a file, or a cluster nobody uses, can pass for a directory.
-/
import BebasOs.Fat32.Reachable

namespace BebasOs.Fat32

open Bytes Search Disk

variable {π : Platform} {s s' : Machine} {r : FAT32DriverRequest} {d : Disk} {c i : ℕ} {code : Int}

/-! ## Errors leave the disk alone -/

/-- The allocation loop only works in memory: a file write that finds too few clusters changes no disk. -/
theorem writeFile_error (h : writeFile π s r c = some (code, s')) (hc : code ≠ 0) : s'.disk = s.disk := by
  unfold writeFile at h
  split at h
  · cases h
  · simp only at h
    split at h
    · cases h
      rfl
    · cases h
      exact absurd rfl hc

theorem writeFolder_error (h : writeFolder s r = some (code, s')) (hc : code ≠ 0) : s' = s := by
  unfold writeFolder at h
  split at h
  · cases h
    rfl
  · obtain ⟨t, -, h⟩ := Option.bind_eq_some_iff.1 h
    cases h
    exact absurd rfl hc

theorem writeLoaded_error (h : writeLoaded π s r = some (code, s')) (hc : code ≠ 0) : s'.disk = s.disk := by
  unfold writeLoaded at h
  split at h
  · cases h
    rfl
  · split at h
    · -- a name that is there already, and the two branches
      split at h
      · cases h
        rfl
      · split at h
        · rw [writeFolder_error h hc]
        · exact writeFile_error h hc
    · cases h
      rfl

theorem deleteLoaded_error (h : deleteLoaded π s r = some (code, s')) (hc : code ≠ 0) : s' = s := by
  unfold deleteLoaded at h
  split at h
  · cases h
    rfl
  · simp only at h
    split at h
    · cases h
      rfl
    · split at h
      · split at h
        · cases h
          rfl
        · split at h
          · cases h
            exact absurd rfl hc
          · cases h
      · obtain ⟨t, -, h⟩ := Option.bind_eq_some_iff.1 h
        cases h
        exact absurd rfl hc

theorem read_disk (π : Platform) (s : Machine) (r : FAT32DriverRequest) : (read π s r).machine.disk = s.disk := by
  unfold read
  rw [readLoaded_machine]
  rfl

theorem readDirectory_disk (s : Machine) (r : FAT32DriverRequest) : (readDirectory s r).machine.disk = s.disk := by
  unfold readDirectory
  rw [readDirectoryLoaded_machine]
  rfl

theorem perform_error {q : Request} (h : perform π s q = some (code, s')) (hc : code ≠ 0) : s'.disk = s.disk := by
  cases q with
  | write r => exact writeLoaded_error (s := reload s r) h hc
  | delete r =>
    rw [deleteLoaded_error (s := reload s r) h hc]
    rfl
  | read r =>
    cases h
    exact read_disk π s r
  | readDirectory r =>
    cases h
    exact readDirectory_disk s r

/-! ## What is refused -/

/-- The memory after the two loads, whatever the parent. -/
theorem reload_eq_place (s : Machine) (r : FAT32DriverRequest) : reload s r =
    ⟨⟨s.disk.fat, s.disk.table (place r.parentClusterNumber), s.memory.clusterBuf⟩, s.disk, s.issued⟩ := by
  unfold reload
  rw [readClusters_eq, readClusters_eq, show place 1 = 1 from rfl]
  rfl

/-- A request is answered with an error and the disk stays as it was. -/
def Refuses (π : Platform) (s : Machine) (q : Request) : Prop :=
  ∃ code s', perform π s q = some (code, s') ∧ code ≠ 0 ∧ s'.disk = s.disk

/-- The user attribute of slot `j` as the slot search of a file write sees it: from slot 64 on it reads
on in the cluster buffer. -/
def seenAttribute (s : Machine) (r : FAT32DriverRequest) (j : ℕ) : UInt8 := slotAttribute (reload s r).memory j

/-- When `write` refuses. -/
inductive WriteRefused (s : Machine) (r : FAT32DriverRequest) : Prop
  | noCluster (h : freeClusters s.disk.fat = [])
  | unused (h : ¬ (s.disk.slot (place r.parentClusterNumber) 0).Live)
  | taken (h : findEntry (s.disk.table (place r.parentClusterNumber)) r.name r.ext ≠ none)
  | full (hb : r.bufferSize = 0) (h : ∀ i < 64, (s.disk.slot (place r.parentClusterNumber) i).Live)
  | noSpace (hb : r.bufferSize ≠ 0) (hj : ∃ j < 128, seenAttribute s r j ≠ uattrNotEmpty)
      (h : (freeClusters s.disk.fat).length < needed r)

/-- When `delete` refuses. -/
inductive DeleteRefused (s : Machine) (r : FAT32DriverRequest) : Prop
  | absent (h : findEntry (s.disk.table (place r.parentClusterNumber)) r.name r.ext = none)
  | root {i : ℕ} (h : findEntry (s.disk.table (place r.parentClusterNumber)) r.name r.ext = some i)
      (hc : (s.disk.slot (place r.parentClusterNumber) i).cluster = rootClusterNumber)
  | hasEntry {i : ℕ} (h : findEntry (s.disk.table (place r.parentClusterNumber)) r.name r.ext = some i)
      (hs : (s.disk.slot (place r.parentClusterNumber) i).filesize = 0)
      (he : s.disk.HasEntry (place (s.disk.slot (place r.parentClusterNumber) i).cluster))

theorem freeClusters_eq_nil {t : FAT32FileAllocationTable} :
    freeClusters t = [] ↔ first (isEmptyEntry t) 3 512 = none := by
  constructor
  · intro h
    rcases hc : first (isEmptyEntry t) 3 512 with _ | c
    · rfl
    · rw [freeClusters, hits_of_first_some hc] at h
      cases h
  · exact hits_of_first_none

theorem isFreeSlot_eq_false {t : FAT32DirectoryTable} : isFreeSlot t i = false ↔ (cell t i).Live := by
  unfold isFreeSlot
  rw [bne_eq_false_iff_eq]
  rfl

/-- The folder branch refuses exactly when there is no free slot. -/
theorem writeFolder_refuses : (∃ code s', writeFolder s r = some (code, s') ∧ code ≠ 0) ↔
    ∀ i < 64, (cell s.memory.dirTableBuf i).Live := by
  constructor
  · rintro ⟨code, s', h, hc⟩ i hi
    rcases hj : first (isFreeSlot s.memory.dirTableBuf) 0 64 with _ | j
    · exact isFreeSlot_eq_false.1 (first_eq_none.1 hj i (Nat.zero_le i) hi)
    · unfold writeFolder at h
      simp only [hj] at h
      obtain ⟨t, -, h⟩ := Option.bind_eq_some_iff.1 h
      cases h
      exact absurd rfl hc
  · intro h
    have hj : first (isFreeSlot s.memory.dirTableBuf) 0 64 = none :=
      first_eq_none.2 fun i _ hi => isFreeSlot_eq_false.2 (h i hi)
    exact ⟨-1, s, writeFolder_full rfl hj, by decide⟩

/-- With enough free clusters the file branch answers 0. -/
theorem writeFile_served {j : ℕ} (hb : r.bufferSize ≠ 0) (hc : first (isEmptyEntry s.memory.fatTable) 3 512 = some c)
    (hj : first (fun j => slotAttribute s.memory j != uattrNotEmpty) 0 128 = some j)
    (hn : needed r ≤ (freeClusters s.memory.fatTable).length) : ∃ s', writeFile π s r c = some (0, s') := by
  obtain ⟨a, h1, -, -⟩ := allocate_ok (r := r) (j := j) (needed_pos r) hc hn
  rw [needed, if_neg hb] at h1
  unfold writeFile
  simp only [hj, h1]
  exact ⟨_, rfl⟩

/-- The file branch refuses exactly when its slot search ends and there are too few free clusters. -/
theorem writeFile_refuses (hm : s.memory.fatTable = s.disk.fat) (hb : r.bufferSize ≠ 0)
    (hc : first (isEmptyEntry s.disk.fat) 3 512 = some c) :
    (∃ code s', writeFile π s r c = some (code, s') ∧ code ≠ 0) ↔
      (∃ j < 128, slotAttribute s.memory j ≠ uattrNotEmpty) ∧ (freeClusters s.disk.fat).length < needed r := by
  rcases hj : first (fun j => slotAttribute s.memory j != uattrNotEmpty) 0 128 with _ | j
  · -- the search leaves the driver's memory
    rw [writeFile_lost hj]
    refine iff_of_false ?_ ?_
    · rintro ⟨code, s', h, -⟩
      cases h
    · rintro ⟨⟨j, hj', h⟩, -⟩
      exact h (by simpa using first_eq_none.1 hj j (Nat.zero_le j) hj')
  · obtain ⟨-, hj', hne, -⟩ := first_eq_some.1 hj
    have hslot : ∃ j < 128, slotAttribute s.memory j ≠ uattrNotEmpty := ⟨j, hj', by simpa using hne⟩
    rcases Nat.lt_or_ge (freeClusters s.disk.fat).length (needed r) with hn | hn
    · obtain ⟨m', h, -⟩ := writeFile_noSpace (π := π) (m := s.memory) (i := s.issued) hm hb hc hj hn
      exact iff_of_true ⟨-1, _, h, by decide⟩ ⟨hslot, hn⟩
    · rw [← hm] at hc hn
      obtain ⟨s', h⟩ := writeFile_served (π := π) hb hc hj hn
      refine iff_of_false ?_ fun h => absurd h.2 (by rw [← hm]; omega)
      rintro ⟨code, s'', h', hcode⟩
      rw [h] at h'
      cases h'
      exact hcode rfl

/-- No error changes the disk, so a refusal is an error. -/
theorem refuses_iff_error {q : Request} : Refuses π s q ↔ ∃ code s', perform π s q = some (code, s') ∧ code ≠ 0 := by
  constructor
  · rintro ⟨code, s', h, hc, -⟩
    exact ⟨code, s', h, hc⟩
  · rintro ⟨code, s', h, hc⟩
    exact ⟨code, s', h, hc, perform_error h hc⟩

theorem reload_fatTable (s : Machine) (r : FAT32DriverRequest) : (reload s r).memory.fatTable = s.disk.fat := by
  rw [reload_eq_place]

theorem reload_dirTableBuf (s : Machine) (r : FAT32DriverRequest) :
    (reload s r).memory.dirTableBuf = s.disk.table (place r.parentClusterNumber) := by
  rw [reload_eq_place]

/-- `write` refuses exactly in these cases. -/
theorem write_refuses_iff : Refuses π s (.write r) ↔ WriteRefused s r := by
  have hm := reload_fatTable s r
  have hu := reload_dirTableBuf s r
  rw [refuses_iff_error]
  show (∃ code s', writeLoaded π (reload s r) r = some (code, s') ∧ code ≠ 0) ↔ _
  rcases hc : first (isEmptyEntry s.disk.fat) 3 512 with _ | c
  · rw [writeLoaded_full hm hc]
    exact iff_of_true ⟨_, _, rfl, by decide⟩ (.noCluster (freeClusters_eq_nil.2 hc))
  have hfree : freeClusters s.disk.fat ≠ [] := fun h => by
    rw [freeClusters_eq_nil, hc] at h
    cases h
  by_cases hs : (s.disk.slot (place r.parentClusterNumber) 0).Live
  swap
  · rw [writeLoaded_unused hm hu hc hs]
    exact iff_of_true ⟨_, _, rfl, by decide⟩ (.unused hs)
  rcases hf : findEntry (s.disk.table (place r.parentClusterNumber)) r.name r.ext with _ | i
  swap
  · rw [writeLoaded_matched hm hu hc hs hf]
    exact iff_of_true ⟨_, _, rfl, by decide⟩ (.taken (by rw [hf]; exact Option.some_ne_none i))
  rw [writeLoaded_unmatched hm hu hc hs hf]
  by_cases hb : r.bufferSize = 0
  · rw [if_pos hb, writeFolder_refuses, hu]
    constructor
    · exact .full hb
    · intro h
      cases h with
      | noCluster h => exact absurd h hfree
      | unused h => exact absurd hs h
      | taken h => exact absurd hf h
      | full _ h => exact h
      | noSpace h => exact absurd hb h
  · rw [if_neg hb, writeFile_refuses hm hb hc]
    constructor
    · rintro ⟨hj, hn⟩
      exact .noSpace hb hj hn
    · intro h
      cases h with
      | noCluster h => exact absurd h hfree
      | unused h => exact absurd hs h
      | taken h => exact absurd hf h
      | full h => exact absurd h hb
      | noSpace _ hj hn => exact ⟨hj, hn⟩

/-- An entry that is not the root and has a size, or no entries of its own, is not refused. -/
theorem deleteLoaded_code {t : FAT32DirectoryTable} (ht : s.memory.dirTableBuf = t)
    (hf : findEntry t r.name r.ext = some i) (hc : (cell t i).cluster ≠ rootClusterNumber)
    (hs : (cell t i).filesize ≠ 0 ∨ firstEntry s.disk (cell t i).cluster = none)
    (h : deleteLoaded π s r = some (code, s')) : code = 0 := by
  unfold firstEntry at hs
  unfold deleteLoaded at h
  simp only [ht, hf, if_neg hc] at h
  split at h
  · rename_i hz
    rw [hs.resolve_left (not_not_intro hz)] at h
    simp only at h
    split at h
    · cases h
      rfl
    · cases h
  · obtain ⟨t, -, h⟩ := Option.bind_eq_some_iff.1 h
    cases h
    rfl

/-- An entry that is not the root and has a size, or an empty cluster, is none of the cases. -/
theorem not_deleteRefused (hf : findEntry (s.disk.table (place r.parentClusterNumber)) r.name r.ext = some i)
    (hc : (s.disk.slot (place r.parentClusterNumber) i).cluster ≠ rootClusterNumber)
    (hs : ¬ ((s.disk.slot (place r.parentClusterNumber) i).filesize = 0 ∧
      s.disk.HasEntry (place (s.disk.slot (place r.parentClusterNumber) i).cluster))) : ¬ DeleteRefused s r := by
  intro h
  cases h with
  | absent h =>
    rw [hf] at h
    cases h
  | root h hc' =>
    obtain rfl := Option.some.inj (hf.symm.trans h)
    exact hc hc'
  | hasEntry h hs' he =>
    obtain rfl := Option.some.inj (hf.symm.trans h)
    exact hs ⟨hs', he⟩

/-- `delete` refuses exactly in these cases; nothing in it looks at the directory it is given. -/
theorem delete_refuses_iff : Refuses π s (.delete r) ↔ DeleteRefused s r := by
  have hu := reload_dirTableBuf s r
  rw [refuses_iff_error]
  show (∃ code s', deleteLoaded π (reload s r) r = some (code, s') ∧ code ≠ 0) ↔ _
  rcases hf : findEntry (s.disk.table (place r.parentClusterNumber)) r.name r.ext with _ | i
  · rw [deleteLoaded_unmatched hu hf]
    exact iff_of_true ⟨_, _, rfl, by decide⟩ (.absent hf)
  by_cases hc : (s.disk.slot (place r.parentClusterNumber) i).cluster = rootClusterNumber
  · rw [deleteLoaded_root hu hf hc]
    exact iff_of_true ⟨_, _, rfl, by decide⟩ (.root hf hc)
  by_cases hs : (s.disk.slot (place r.parentClusterNumber) i).filesize = 0 ∧
      s.disk.HasEntry (place (s.disk.slot (place r.parentClusterNumber) i).cluster)
  · obtain ⟨k, hk⟩ : ∃ k, firstEntry s.disk (s.disk.slot (place r.parentClusterNumber) i).cluster = some k :=
      Option.ne_none_iff_exists'.1 fun hk => firstEntry_eq_none_place.1 hk hs.2
    rw [deleteLoaded_hasEntry hu hf hc hs.1 hk]
    exact iff_of_true ⟨_, _, rfl, by decide⟩ (.hasEntry hf hs.1 hs.2)
  · -- a file, or what passes for an empty folder: it is freed, or the call has no result
    refine iff_of_false ?_ (not_deleteRefused hf hc hs)
    rintro ⟨code, s', h, hcode⟩
    refine hcode (deleteLoaded_code hu hf hc ?_ h)
    by_cases hz : (s.disk.slot (place r.parentClusterNumber) i).filesize = 0
    · exact .inr (firstEntry_eq_none_place.2 fun he => hs ⟨hz, he⟩)
    · exact .inl hz

/-! ## A file that passes for a directory -/

/-- The sample file `a` of 13 bytes, the last of them the mark of a slot in use. -/
def forged : FAT32DriverRequest := { letterRequest 97 13 with buf := fun a => if a = 12 then uattrNotEmpty else 0 }

/-- The sample requests in the cluster of that file: a folder `c`, and an entry without a name. -/
def inForged (letter : UInt8) : FAT32DriverRequest := { letterRequest letter 0 with parentClusterNumber := 3 }

/-- Slot 0 of the cluster of that file. -/
def forgedSlot : FAT32DirectoryEntry := { (default : FAT32DirectoryEntry) with userAttribute := uattrNotEmpty }

theorem cell_chunk_forged {k : ℕ} (hk : k < 2048) : cell (chunk forged 0) k = if k = 12 then uattrNotEmpty else 0 := by
  have hsize : forged.bufferSize.toNat = 13 := rfl
  rw [cell_of_lt _ hk]
  unfold chunk
  rw [Vector.getElem_ofFn, hsize]
  simp only [forged, Nat.zero_mul, Nat.zero_add]
  split_ifs <;> first | rfl | omega

theorem slot_forged (h : d.cluster 3 = chunk forged 0) (hi : i < 64) :
    d.slot 3 i = if i = 0 then forgedSlot else default := by
  have hbytes : (Vector.ofFn fun j : Fin 32 =>
      have hj : i * 32 + j.1 < 2048 := by omega
      (chunk forged 0)[i * 32 + j.1]) =
      Vector.ofFn fun j : Fin 32 => if i * 32 + j.1 = 12 then uattrNotEmpty else 0 := by
    refine Vector.ext fun j hj => ?_
    rw [Vector.getElem_ofFn, Vector.getElem_ofFn, ← cell_of_lt _ (by omega), cell_chunk_forged (by omega)]
  unfold slot Disk.table
  rw [h, cell_unpacked _ hi, hbytes]
  split
  · subst i
    decide
  · have hzero : (Vector.ofFn fun j : Fin 32 => if i * 32 + j.1 = 12 then uattrNotEmpty else 0) =
        Vector.replicate 32 0 := by
      refine Vector.ext fun j hj => ?_
      rw [Vector.getElem_ofFn, Vector.getElem_replicate, if_neg (by omega)]
    rw [hzero]
    exact FAT32DirectoryEntry.packed_symm_zero

theorem forged_accepted (h : Formatted π d s) : Accepted s forged 2 3 :=
  h.accepted rfl (by decide) (name_ne_rootName (by decide)) (by decide) (by decide)

/-- The disk with that file alone: cluster 3 belongs to the file and is no directory. -/
structure HoldsForged (d : Disk) : Prop where
  wellFormed : d.WellFormed
  beyond : ∀ a, diskSize ≤ a → d.byte a = 0
  root : ∀ p, d.LiveDir p → p = 2
  data : d.cluster 3 = chunk forged 0
  free : cell d.fat 4 = fatEmptyEntry
  boot : ¬ d.HasEntry 0

theorem exists_new : ∃ s, Formatted zeroPlatform zeroDisk s ∧ ∀ a, diskSize ≤ a → s.disk.byte a = 0 := by
  obtain ⟨m, h₀, -⟩ := createFat32_eq zeroPlatform zeroDisk
  refine ⟨_, formatted_of_create h₀, fun a ha => ?_⟩
  rw [byte_replay_beyond _ _ ha, byte_writeBlocks_beyond _ _ _ ha]
  rfl

/-- One write on a new disk makes it. -/
theorem exists_holdsForged : ∃ s : Machine, HoldsForged s.disk := by
  obtain ⟨s₀, hf, hbeyond⟩ := exists_new
  have hd := hf.wellFormed.toSound
  have hb : forged.bufferSize ≠ 0 := by decide
  have hp : s₀.disk.LiveDir forged.parent := s₀.disk.liveDir_root
  obtain ⟨s, -, hst⟩ := (forged_accepted hf).write (π := zeroPlatform) hd.grounded hp
  have htaken : taken s₀.disk forged = [3] := by
    rw [taken, hf.freeClusters]; rfl
  have hi := hst.inserted hd.grounded hp (by omega)
  have hdata := clusters_request_file hst.toAccepted hd.grounded hp hb
  rw [← hst.disk, htaken] at hdata
  have hboot := hst.sameBoot hd.grounded hp
  refine ⟨s, hboot.wellFormed hf.wellFormed (hi.sound hd), fun a ha => ?_, fun p h => ?_,
    (List.cons.inj hdata).1, ?_, ?_⟩
  · rw [hst.disk, byte_replay_beyond _ _ ha]
    exact hbeyond a ha
  · rcases (hi.liveDir_iff hd.grounded).1 h with h | ⟨h, -⟩
    · exact hf.liveDir h
    · exact absurd ((newEntry_isFolder forged 3).1 h) hb
  · rw [hi.fat 4 (by rw [htaken]; decide), hf.fat, cell_formattedFat]
    rfl
  · have hzero := not_hasEntry_zero hf
    unfold HasEntry slot at hzero ⊢
    rwa [table_congr hboot.cluster]

theorem findEntry_forged (h : d.cluster 3 = chunk forged 0) (letter : UInt8) :
    findEntry (d.table 3) (inForged letter).name (inForged letter).ext = if letter = 0 then some 0 else none := by
  have hname {i : ℕ} (hi : i < 64) : (cell (d.table 3) i).name = Vector.replicate 8 0 ∧
      (cell (d.table 3) i).ext = Vector.replicate 3 0 := by
    have hs : cell (d.table 3) i = _ := slot_forged h hi
    rw [hs]
    split <;> decide
  split
  · subst letter
    refine first_eq_some.2 ⟨Nat.le_refl 0, by omega, ?_, fun j _ hj => absurd hj (Nat.not_lt_zero j)⟩
    rw [FAT32DirectoryEntry.hasName_iff]
    exact hname (by omega)
  · rename_i hl
    refine first_eq_none.2 fun i _ hi => ?_
    rw [Bool.eq_false_iff, ne_eq, FAT32DirectoryEntry.hasName_iff, (hname hi).1]
    rintro ⟨hn, -⟩
    have h0 := congrArg (fun v : Vector UInt8 8 => v[0]) hn
    exact hl h0.symm

/-- A write or delete is refused exactly in the cases above, whatever the disk and the parent cluster are. -/
theorem refused_iff (π : Platform) (s : Machine) (r : FAT32DriverRequest) :
    (Refuses π s (.write r) ↔ WriteRefused s r) ∧ (Refuses π s (.delete r) ↔ DeleteRefused s r) :=
  ⟨write_refuses_iff, delete_refuses_iff⟩

/-- With the cluster of a file for its parent, a folder is made and an entry deleted. -/
theorem parent_not_refused : ∃ s : Machine, s.disk.WellFormed ∧ (∀ a, diskSize ≤ a → s.disk.byte a = 0) ∧
    ¬ s.disk.LiveDir 3 ∧ ¬ Refuses zeroPlatform s (.write (inForged 99)) ∧
    ¬ Refuses zeroPlatform s (.delete (inForged 0)) := by
  obtain ⟨s, h⟩ := exists_holdsForged
  have hslot {i : ℕ} (hi : i < 64) := slot_forged h.data hi
  have hplace (letter : UInt8) : place (inForged letter).parentClusterNumber = 3 := rfl
  refine ⟨s, h.wellFormed, h.beyond, fun h3 => absurd (h.root 3 h3) (by decide), fun hr => ?_, fun hr => ?_⟩
  · cases write_refuses_iff.1 hr with
    | noCluster hn =>
      have hmem : 4 ∈ freeClusters s.disk.fat := mem_freeClusters.2 ⟨by omega, by omega, h.free⟩
      rw [hn] at hmem
      cases hmem
    | unused hn =>
      rw [hplace, hslot (by omega)] at hn
      exact hn (by decide)
    | taken hn =>
      rw [hplace] at hn
      exact hn (findEntry_forged h.data 99)
    | full _ hn =>
      have h1 := hn 1 (by omega)
      rw [hplace, hslot (by omega)] at h1
      exact absurd h1 (by decide)
    | noSpace hb => exact hb rfl
  · have hcl : (s.disk.slot 3 0).cluster = 0 := by
      rw [hslot (by omega)]; decide
    have hfind : findEntry (s.disk.table (place (inForged 0).parentClusterNumber)) (inForged 0).name (inForged 0).ext =
        some 0 := by
      rw [hplace, findEntry_forged h.data 0]
      rfl
    have hroot : (s.disk.slot (place (inForged 0).parentClusterNumber) 0).cluster ≠ rootClusterNumber := by
      rw [hplace, hcl]
      decide
    refine not_deleteRefused hfind hroot (fun hs => ?_) (delete_refuses_iff.1 hr)
    rw [hplace, hcl] at hs
    exact h.boot hs.2

/-! ## Errors -/

/-- Whatever is on the disk, an answer other than 0 leaves it as it was, and reading leaves it as it was
whatever the answer. -/
theorem error_keeps_disk {q : Request} (h : perform π s q = some (code, s')) :
    (code ≠ 0 → s'.disk = s.disk) ∧ ((∃ r, q = .read r ∨ q = .readDirectory r) → s'.disk = s.disk) := by
  refine ⟨perform_error h, ?_⟩
  rintro ⟨r, rfl | rfl⟩
  · cases h
    exact read_disk π s r
  · cases h
    exact readDirectory_disk s r

/-- A file of 600 clusters is refused by a new disk, half-way through its allocation. -/
theorem error_keeps_disk_fileA : ∃ s code s', createFat32 zeroPlatform (powerOn zeroDisk) = some s ∧
    perform zeroPlatform s (.write (letterRequest 97 1228800)) = some (code, s') ∧ code ≠ 0 ∧ s'.disk = s.disk := by
  obtain ⟨s, h₀, hf⟩ := createFat32_formatted zeroPlatform zeroDisk
  have hb : (letterRequest 97 1228800).bufferSize ≠ 0 := by decide
  have hseen : seenAttribute s (letterRequest 97 1228800) 2 = 0 := by
    unfold seenAttribute slotAttribute
    rw [if_pos (by omega), reload_dirTableBuf]
    have hslot : cell (s.disk.table (place (letterRequest 97 1228800).parentClusterNumber)) 2 = default :=
      hf.slot_of_ge (Nat.le_refl 2)
    rw [hslot]
    rfl
  have hrefused : WriteRefused s (letterRequest 97 1228800) := by
    refine .noSpace hb ⟨2, by omega, by rw [hseen]; decide⟩ ?_
    rw [hf.freeClusters, List.length_range', needed_of_file hb]
    decide
  obtain ⟨code, s', h, hc, -⟩ := write_refuses_iff (π := zeroPlatform).2 hrefused
  exact ⟨s, code, s', h₀, h, hc, (error_keeps_disk h).1 hc⟩

end BebasOs.Fat32
