/-
Runs of writes that name any cluster for their directory. `write` looks at nothing of it but one byte, so
a request can pass a file, a free cluster or a number past the end of the disk for a directory. Its
entry is lost there, but the live directories stay as they are.
-/
import BebasOs.Fat32.Refusal
import BebasOs.Fat32.NewFile

namespace BebasOs.Fat32

open Bytes Links Search Disk Relation

variable {π : Platform} {s s' : Machine} {r : FAT32DriverRequest} {d d' : Disk} {j c p : ℕ}

/-! ## Cluster numbers that mean the same cluster -/

/-- The request with the number of its directory cut to the bits the disk takes. -/
def FAT32DriverRequest.placed (r : FAT32DriverRequest) : FAT32DriverRequest :=
  { r with parentClusterNumber := UInt32.ofNat (place r.parentClusterNumber) }

theorem place_lt (c : UInt32) : place c < 2 ^ 26 := Nat.mod_lt _ (by decide)

theorem placed_parent (r : FAT32DriverRequest) : r.placed.parent = place r.parentClusterNumber := by
  have := place_lt r.parentClusterNumber
  show (UInt32.ofNat (place r.parentClusterNumber)).toNat = _
  rw [UInt32.toNat_ofNat']
  omega

theorem place_placed (r : FAT32DriverRequest) : place r.placed.parentClusterNumber = place r.parentClusterNumber := by
  have hp : r.placed.parent < 2 ^ 26 := by
    rw [placed_parent]
    exact place_lt _
  rw [place_parent_of_lt hp, placed_parent]

theorem Disk.writeClusters_place (d : Disk) (b : ClusterBuffer) {c c' : UInt32} (h : place c = place c') :
    d.writeClusters b c = d.writeClusters b c' := by
  unfold Disk.writeClusters Disk.writeBlocks
  simp only [blockAddress_clusterToLba, h]

/-- What a request leaves but for the numbers of the clusters it wrote. -/
def outcome (x : Int × Machine) : Int × FAT32DriverState × Disk := (x.1, x.2.memory, x.2.disk)

theorem reload_placed (s : Machine) (r : FAT32DriverRequest) : reload s r.placed = reload s r := by
  rw [reload_eq_place, reload_eq_place, place_placed]

theorem allocate_congr {q r : FAT32DriverRequest} (h : ∀ c, fileEntry q c = fileEntry r c) (k m n i : ℕ)
    (a : Allocation) : allocate q k m n i a = allocate r k m n i a := by
  induction n generalizing i a with
  | zero => rw [allocate, allocate]
  | succ n ih =>
    rw [allocate, allocate]
    split
    · rfl
    · rw [ih]
      simp only [allocateRound, h]

theorem copyLoop_congr (π : Platform) {q r : FAT32DriverRequest} (h : q.buf = r.buf) (n i k x : ℕ) (s : Machine) :
    copyLoop π q n i k x s = copyLoop π r n i k x s := by
  induction n generalizing i k x s with
  | zero => rw [copyLoop, copyLoop]
  | succ n ih => rw [copyLoop, copyLoop, ih, h]

/-- A directory made in a parent only depends on the cluster the parent's number stands for. -/
theorem initDirectoryTable_place (s : Machine) (name : Vector UInt8 8) {c c' : UInt32} (h : place c = place c') :
    (initDirectoryTable s name c).map (fun s => (s.memory, s.disk)) =
      (initDirectoryTable s name c').map fun s => (s.memory, s.disk) := by
  have hread (d : Disk) : d.readClusters c = d.readClusters c' := by rw [readClusters_eq, readClusters_eq, h]
  have hwrite (d : Disk) (b : ClusterBuffer) : d.writeClusters b c = d.writeClusters b c' := d.writeClusters_place b h
  rcases hi : first (isEmptyEntry s.memory.fatTable) 1 512 with _ | i
  · unfold initDirectoryTable
    simp only [hi]
  by_cases hr : UInt32.ofNat i = rootClusterNumber
  · have hroot : initDirectoryTable s name c = initDirectoryTable s name c' := by
      unfold initDirectoryTable
      simp only [hi, hr, if_true]
    rw [hroot]
  rcases hj : first (isFreeSlot (tablePacked.symm ((s.disk.writeClusters
    (fatPacked (store s.memory.fatTable i fatEndOfFile)) fatClusterNumber).readClusters c'))) 0 64 with _ | j
  · unfold initDirectoryTable
    simp only [hi, if_neg hr, Machine.writeClusters, hread, hj]
  · unfold initDirectoryTable
    simp only [hi, if_neg hr, Machine.writeClusters, hread, hj, Option.map_some, hwrite]

theorem writeFolder_placed (s : Machine) (r : FAT32DriverRequest) :
    (writeFolder s r.placed).map outcome = (writeFolder s r).map outcome := by
  unfold writeFolder
  split
  · rfl
  · have h := initDirectoryTable_place { s with memory.dirTableBuf := zeroTable } r.name (place_placed r)
    show (Option.bind _ _).map _ = (Option.bind _ _).map _
    rw [Option.map_bind, Option.map_bind]
    have hb (o : Option Machine) : (o.bind fun t => Option.map outcome (some (0, t))) =
        (o.map fun t => (t.memory, t.disk)).map fun m => ((0 : Int), m.1, m.2) := by
      cases o <;> rfl
    exact (hb _).trans ((congrArg _ h).trans (hb _).symm)

theorem writeFile_placed (π : Platform) (s : Machine) (r : FAT32DriverRequest) (c : ℕ) :
    (writeFile π s r.placed c).map outcome = (writeFile π s r c).map outcome := by
  have hsize : r.placed.bufferSize = r.bufferSize := rfl
  unfold writeFile
  split
  · rfl
  · simp only [hsize, allocate_congr (q := r.placed) (r := r) fun _ => rfl,
      copyLoop_congr π (q := r.placed) (r := r) rfl]
    split
    · rfl
    · simp only [Option.map_some, outcome, Machine.writeClusters, Disk.writeClusters_place _ _ (place_placed r)]

/-- A write only depends on the cluster its directory's number stands for. -/
theorem write_placed (π : Platform) (s : Machine) (r : FAT32DriverRequest) :
    (write π s r.placed).map outcome = (write π s r).map outcome := by
  show (writeLoaded π (reload s r.placed) r.placed).map outcome = (writeLoaded π (reload s r) r).map outcome
  rw [reload_placed]
  generalize reload s r = t
  rcases hc : first (isEmptyEntry t.memory.fatTable) 3 512 with _ | c
  · rw [writeLoaded_full rfl hc, writeLoaded_full rfl hc]
  by_cases hs : (cell t.memory.dirTableBuf 0).Live
  swap
  · rw [writeLoaded_unused rfl rfl hc hs, writeLoaded_unused rfl rfl hc hs]
  rcases hf : findEntry t.memory.dirTableBuf r.name r.ext with _ | i
  swap
  · rw [writeLoaded_matched rfl rfl hc hs hf, writeLoaded_matched (r := r.placed) rfl rfl hc hs hf]
  rw [writeLoaded_unmatched rfl rfl hc hs hf, writeLoaded_unmatched (r := r.placed) rfl rfl hc hs hf]
  by_cases hb : r.bufferSize = 0
  · rw [if_pos hb, if_pos (show r.placed.bufferSize = 0 from hb), writeFolder_placed]
  · rw [if_neg hb, if_neg (show r.placed.bufferSize ≠ 0 from hb), writeFile_placed]

/-- The request with its number cut has the same answer and leaves the same disk. -/
theorem write_placed_disk {code : Int} (h : write π s r = some (code, s')) :
    ∃ t, write π s r.placed = some (code, t) ∧ t.disk = s'.disk := by
  have hm := write_placed π s r
  rw [h] at hm
  obtain ⟨⟨code', t⟩, h1, h2⟩ := Option.map_eq_some_iff.1 hm
  obtain ⟨rfl, -, hd⟩ : code' = code ∧ t.memory = s'.memory ∧ t.disk = s'.disk := by simpa [outcome] using h2
  exact ⟨t, h1, hd⟩

/-! ## One directory -/

/-- A file request, whatever cluster it names for its directory, ends in one of the ways that a write has. -/
theorem write_spec_file (hb : r.bufferSize ≠ 0) (hp : r.parent < 2 ^ 26) {code : Int}
    (h : write π s r = some (code, s')) :
    s'.disk = s.disk ∨ ∃ j c, Stored s r j c s' := by
  have hm := reloaded_fatTable s r
  have hu := reloaded_dirTableBuf s r
  rw [write_eq hp] at h
  rcases hc : first (isEmptyEntry s.disk.fat) 3 512 with _ | c
  · rw [writeLoaded_full hm hc] at h
    cases h
    exact .inl rfl
  by_cases hs : (cell (s.disk.table r.parent) 0).Live
  swap
  · rw [writeLoaded_unused hm hu hc hs] at h
    cases h
    exact .inl rfl
  rcases hf : findEntry (s.disk.table r.parent) r.name r.ext with _ | i
  · rw [writeLoaded_unmatched hm hu hc hs hf, if_neg hb] at h
    have hw := writeFile_spec (π := π) hf hc hb
    rw [h] at hw
    cases hw with
    | stored h => exact .inr ⟨_, _, h⟩
    | refused h _ => exact .inl h.disk
  · rw [writeLoaded_matched hm hu hc hs hf] at h
    cases h
    exact .inl rfl

/-- The table of a live directory changes in one slot at most when a file is written somewhere, and that slot
gets the entry of the file. -/
theorem write_table {code : Int} (hd : s.disk.Grounded) (hp : s.disk.LiveDir p) (hb : r.bufferSize ≠ 0)
    (h : write π s r = some (code, s')) :
    s'.disk.table p = s.disk.table p ∨ ∃ j c, s'.disk.table p = store (s.disk.table p) j (fileEntry r c) := by
  obtain ⟨t, ht, hdisk⟩ := write_placed_disk h
  have hlt : r.placed.parent < 2 ^ 26 := by
    rw [placed_parent]
    exact place_lt _
  rw [← hdisk]
  rcases write_spec_file (r := r.placed) hb hlt ht with hsame | ⟨j, c, hst⟩
  · rw [hsame]
    exact .inl rfl
  · have hrange := hd.range p hp
    by_cases hpr : p = r.placed.parent
    · subst hpr
      refine .inr ⟨j, c, ?_⟩
      rw [hst.disk]
      refine table_of_cluster ((cluster_request_parent hst.toAccepted hd hp).trans ?_)
      rw [newEntry_file (r := r.placed) hb]
      rfl
    · refine .inl ?_
      rw [hst.disk]
      exact table_congr (hst.replay_other hlt (by omega) hpr fun hm => hd.used p hp (mem_taken hm).2.2)

/-! ## Leaving the directories alone -/

namespace Disk

/-- `d'` is `d` where it matters to the tree: the live directories and the table entries that are taken. -/
structure Spared (d d' : Disk) : Prop where
  dirs : ∀ p, d.LiveDir p → d'.cluster p = d.cluster p
  fat : ∀ x, cell d.fat x ≠ fatEmptyEntry → cell d'.fat x = cell d.fat x

theorem Spared.liveDir_iff (h : d.Spared d') : d'.LiveDir p ↔ d.LiveDir p :=
  liveDir_congr fun p hp => table_congr (h.dirs p hp)

theorem Spared.grounded (h : d.Spared d') (hd : d.Grounded) : d'.Grounded where
  fat1 := by rw [h.fat 1 hd.fat1]; exact hd.fat1
  fat2 := by rw [h.fat 2 hd.fat2]; exact hd.fat2
  shape p hp := by
    have hp := h.liveDir_iff.1 hp
    rw [table_congr (h.dirs p hp)]
    exact hd.shape p hp
  range p hp := hd.range p (h.liveDir_iff.1 hp)
  used p hp := by
    have hp := h.liveDir_iff.1 hp
    rw [h.fat p (hd.used p hp)]
    exact hd.used p hp

end Disk

/-- A request served out of the tree leaves the tree alone. -/
theorem Accepted.spared (h : Accepted s r j c) (hd : s.disk.Grounded) (ho : s.disk.Opens r)
    (hn : ¬ s.disk.LiveDir r.parent) : s.disk.Spared (s.disk.replay (requestWrites s.disk r j c)) where
  dirs p hp := by
    refine h.replay_other ho.hi ?_ (fun he => hn (he ▸ hp)) fun hm => hd.used p hp (mem_taken hm).2.2
    have := hd.range p hp
    omega
  fat x hx := by
    rw [fat_of_cluster (h.replay_fat ho.lo ho.hi), (linked_taken h.free).others x fun hm => hx (mem_taken hm).2.2]

theorem Accepted.grounded (h : Accepted s r j c) (hd : s.disk.Grounded) (ho : s.disk.Opens r) :
    (s.disk.replay (requestWrites s.disk r j c)).Grounded := by
  by_cases hp : s.disk.LiveDir r.parent
  · rcases Nat.lt_or_ge j 64 with hj | hj
    · exact (request_inserted h hd hp hj).grounded hd
    · have hk := request_kept h hd hp hj
      refine Spared.grounded ⟨fun p hp => hk.others p (hd.range p hp).1 (hd.used p hp), fun x hx => ?_⟩ hd
      rw [fat_of_cluster (h.replay_fat ho.lo ho.hi),
        (linked_taken h.free).others x fun hm => hx (mem_taken hm).2.2]
  · exact (h.spared hd ho hp).grounded hd

/-! ## The clusters before the root -/

/-- Clusters 0 and 1 do not pass for directories: byte 12 of the first is of the boot sector, and that of
the second is of the table entry of cluster 3, the first that is ever taken. -/
structure Disk.Barred (d : Disk) : Prop where
  boot : ¬ (d.slot 0 0).Live
  third : cell d.fat 3 = fatEmptyEntry ∧ cell d.fat 4 = fatEmptyEntry ∨ cell d.fat 3 = fatEndOfFile ∨ cell d.fat 3 = 4

/-- The first of the four bytes of table entry 3 is where slot 0 of cluster 1 has its mark. -/
theorem cell_fat_third (d : Disk) : cell (u32 (cell d.fat 3)) 0 = (d.slot 1 0).userAttribute := by
  unfold slot Disk.table Disk.fat
  rw [cell_fat_unpacked _ (by omega), userAttribute_unpacked _ (by omega), Equiv.apply_symm_apply,
    cell_of_lt _ (by omega), Vector.getElem_ofFn, cell_of_lt _ (by omega)]
  rfl

theorem Disk.Barred.fat_slot (h : d.Barred) : ¬ (d.slot 1 0).Live := by
  unfold FAT32DirectoryEntry.Live
  rw [← cell_fat_third]
  rcases h.third with ⟨h, -⟩ | h | h <;> rw [h] <;> decide

/-- A request is served in neither of them. -/
theorem Disk.Barred.opens (h : d.Barred) (hd : d.Grounded) (hs : (d.slot r.parent 0).Live) (hp : r.parent < 2 ^ 26) :
    d.Opens r := by
  refine ⟨hd.fat1, hd.fat2, ?_, hp, hs⟩
  by_contra hlt
  obtain h0 | h1 : r.parent = 0 ∨ r.parent = 1 := by omega
  · rw [h0] at hs
    exact h.boot hs
  · rw [h1] at hs
    exact h.fat_slot hs

/-- With clusters 3 and 4 free, a chain from cluster 3 on ends there or goes on to cluster 4. -/
theorem Accepted.third (h : Accepted s r j c) (h3 : cell s.disk.fat 3 = fatEmptyEntry)
    (h4 : cell s.disk.fat 4 = fatEmptyEntry) : cell (link s.disk.fat (taken s.disk r)) 3 = fatEndOfFile ∨
      cell (link s.disk.fat (taken s.disk r)) 3 = 4 := by
  have hfirst {x : ℕ} (hx : x < 512) (he : cell s.disk.fat x = fatEmptyEntry) :
      first (isEmptyEntry s.disk.fat) x 512 = some x :=
    first_eq_some.2 ⟨Nat.le_refl x, hx, isEmptyEntry_iff.2 he, fun k h1 h2 => absurd h1 (by omega)⟩
  have hfree : freeClusters s.disk.fat = 3 :: 4 :: hits (isEmptyEntry s.disk.fat) 5 512 := by
    rw [freeClusters, hits_of_first_some (hfirst (by omega) h3), hits_of_first_some (hfirst (by omega) h4)]
  have hnext := (linked_taken (r := r) (hfirst (by omega) h3)).chain.next_getElem (i := 0)
    (by rw [taken_length h.room]; exact needed_pos r)
  obtain ⟨n, hn⟩ : ∃ n, needed r = n + 1 := ⟨needed r - 1, by have := needed_pos r; omega⟩
  have htaken : taken s.disk r = 3 :: (4 :: hits (isEmptyEntry s.disk.fat) 5 512).take n := by
    rw [taken, hn, hfree, List.take_succ_cons]
  rcases n with _ | n
  · refine .inl (next_eq_none ?_)
    simpa only [htaken, List.getElem_cons_zero, List.getElem?_cons_succ, List.take_zero, List.getElem?_nil] using hnext
  · refine .inr (next_eq_some (c := 4) ?_)
    simpa only [htaken, List.getElem_cons_zero, List.getElem?_cons_succ, List.take_succ_cons,
      List.getElem?_cons_zero] using hnext

theorem Accepted.barred (h : Accepted s r j c) (hb : s.disk.Barred) (ho : s.disk.Opens r) :
    (s.disk.replay (requestWrites s.disk r j c)).Barred := by
  have hlo := ho.lo
  refine ⟨?_, ?_⟩
  · unfold Disk.slot
    rw [table_congr (h.replay_other ho.hi (by omega) (by omega) fun hm => absurd (mem_taken hm).1 (by omega))]
    exact hb.boot
  · rw [fat_of_cluster (h.replay_fat ho.lo ho.hi)]
    by_cases h3 : cell s.disk.fat 3 = fatEmptyEntry
    · refine .inr (h.third h3 ?_)
      rcases hb.third with ⟨-, h4⟩ | h4 | h4
      · exact h4
      · rw [h3] at h4
        exact absurd h4 (by decide)
      · rw [h3] at h4
        exact absurd h4 (by decide)
    · rw [(linked_taken h.free).others 3 fun hm => h3 (mem_taken hm).2.2]
      exact .inr (hb.third.resolve_left fun h => h3 h.1)

/-! ## Runs -/

/-- A write that is served, whatever it names, is stored in the cluster that the number of its directory stands for. -/
theorem stored_placed (hd : s.disk.Grounded) (hb : s.disk.Barred) (h : write π s r = some (0, s')) :
    ∃ t j c, Stored s r.placed j c t ∧ t.disk = s'.disk ∧ s.disk.Opens r.placed := by
  have hs : (s.disk.slot (place r.parentClusterNumber) 0).Live := by
    by_contra hn
    obtain ⟨code, t, ht, hc, -⟩ := write_refuses_iff (π := π).2 (.unused hn)
    rw [show perform π s (.write r) = write π s r from rfl, h] at ht
    cases ht
    exact hc rfl
  obtain ⟨t, ht, hdisk⟩ := write_placed_disk h
  have hparent := placed_parent r
  have ho : s.disk.Opens r.placed :=
    hb.opens hd (by rw [hparent]; exact hs) (by rw [hparent]; exact place_lt _)
  have hw := ho.write_spec (π := π)
  rw [ht] at hw
  cases hw with
  | stored h => exact ⟨t, _, _, h, hdisk, ho⟩
  | refused h _ => exact absurd rfl h.code

/-- A write, whatever it names, leaves the live directories in the table and sound. -/
theorem write_grounded {code : Int} (hd : s.disk.Grounded) (hb : s.disk.Barred) (h : write π s r = some (code, s')) :
    s'.disk.Grounded ∧ s'.disk.Barred := by
  by_cases hc : code = 0
  · subst hc
    obtain ⟨t, j, c, hst, hdisk, ho⟩ := stored_placed hd hb h
    rw [← hdisk, hst.disk]
    exact ⟨hst.toAccepted.grounded hd ho, hst.toAccepted.barred hb ho⟩
  · rw [perform_error (q := .write r) h hc]
    exact ⟨hd, hb⟩

theorem Formatted.barred (h : Formatted π d s) : s.disk.Barred where
  boot hlive := by
    have hbyte : (s.disk.slot 0 0).userAttribute = cell (s.disk.cluster 0) (0 * 32 + 12) :=
      userAttribute_unpacked _ (by omega)
    have hboot : cell s.disk.bootSector 12 = cell (s.disk.cluster 0) 12 := by
      rw [bootSector_eq, cell_of_lt _ (by omega), Vector.getElem_ofFn]
    rw [h.boot] at hboot
    exact fsSignature_ne (by omega) (hboot.trans (hbyte.symm.trans hlive))
  third := by
    refine .inl ⟨?_, ?_⟩
    · rw [h.fat, cell_formattedFat]; rfl
    · rw [h.fat, cell_formattedFat]; rfl

/-- After any writes on a new disk, whatever clusters they name, the live directories are sound. -/
theorem run_grounded {s₀ : Machine} (h₀ : Formatted π d s₀)
    (h : ReflTransGen (Step π fun _ q => ∃ r, q = .write r) s₀ s) : s.disk.Grounded := by
  refine (run_invariant (I := fun s => s.disk.Grounded ∧ s.disk.Barred)
    ⟨h₀.wellFormed.toSound.grounded, h₀.barred⟩ ?_ h).1
  rintro s s' q code ⟨hd, hb⟩ ⟨r, rfl⟩ hq
  exact write_grounded hd hb hq

end BebasOs.Fat32
