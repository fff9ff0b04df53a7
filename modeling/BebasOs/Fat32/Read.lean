/-
`read` of a live file: whatever the directory holds, the loads follow the chain of the file through
the table in memory, one more load than needed when the size is a multiple of the cluster, and the
first bytes delivered are those of the file. So a read undoes a write.
-/
import BebasOs.Fat32.Reachable

namespace BebasOs.Fat32

open Bytes Links Search Disk

variable {π : Platform} {s s' t : Machine} {r q : FAT32DriverRequest} {d : Disk} {i k : ℕ} {l : List ℕ}

/-! ## Delivering loads -/

/-- The loads of a chain, from cluster number `j` of the file on. -/
def chainLoads : ℕ → List ℕ → List Load
  | _, [] => []
  | j, c :: cs => ⟨j * 2048, UInt32.ofNat c⟩ :: chainLoads (j + 1) cs

theorem le_offset_chainLoads {x : Load} : ∀ {l : List ℕ} {j : ℕ}, x ∈ chainLoads j l → j * 2048 ≤ x.offset
  | c :: cs, j, h => by
    rw [chainLoads, List.mem_cons] at h
    rcases h with rfl | h
    · exact Nat.le_refl _
    · exact Nat.le_trans (Nat.mul_le_mul_right 2048 (Nat.le_succ j)) (le_offset_chainLoads h)

theorem deliver_append (d : Disk) (xs ys : List Load) (buf : ℕ → UInt8) :
    deliver d (xs ++ ys) buf = deliver d ys (deliver d xs buf) := List.foldl_append

/-- A byte outside of every load stays. -/
theorem deliver_outside {xs : List Load} {a : ℕ} (h : ∀ x ∈ xs, a < x.offset ∨ x.offset + 2048 ≤ a) (d : Disk)
    (buf : ℕ → UInt8) : deliver d xs buf a = buf a := by
  induction xs generalizing buf with
  | nil => rfl
  | cons x xs ih =>
    have hx := h x List.mem_cons_self
    have hrest := ih (fun y hy => h y (List.mem_cons_of_mem x hy)) (blit buf x.offset (d.readClusters x.cluster))
    refine hrest.trans ?_
    unfold blit
    exact if_neg (by omega)

theorem deliver_before {xs : List Load} {a : ℕ} (h : ∀ x ∈ xs, a < x.offset) (d : Disk) (buf : ℕ → UInt8) :
    deliver d xs buf a = buf a :=
  deliver_outside (fun x hx => .inl (h x hx)) d buf

theorem blit_of_lt (buf : ℕ → UInt8) (data : ClusterBuffer) {o b : ℕ} (hb : b < 2048) :
    blit buf o data (o + b) = cell data b := by
  unfold blit
  rw [if_pos (by omega), Nat.add_sub_cancel_left]

theorem toList_eq_map_cell (b : ClusterBuffer) : b.toList = (List.range 2048).map fun i => cell b i := by
  refine List.ext_getElem (by simp) fun i h1 h2 => ?_
  have hi : i < 2048 := by simpa using h1
  rw [List.getElem_map, List.getElem_range, cell_of_lt b hi, Vector.getElem_toList]

/-- The loads of a chain deliver the bytes of its clusters, one after another. -/
theorem deliver_chain (d : Disk) (hr : ∀ c ∈ l, c < 512) (j : ℕ) (buf : ℕ → UInt8) :
    ((List.range (l.length * 2048)).map fun b => deliver d (chainLoads j l) buf (j * 2048 + b)) =
      l.flatMap fun c => (d.cluster c).toList := by
  induction l generalizing j buf with
  | nil => simp
  | cons c cs ih =>
    have hr' : ∀ x ∈ cs, x < 512 := fun x hx => hr x (List.mem_cons_of_mem c hx)
    have hload : d.readClusters (UInt32.ofNat c) = d.cluster c := by
      rw [readClusters_eq, place_ofNat (hr c List.mem_cons_self)]
    have hstep (a : ℕ) : deliver d (chainLoads j (c :: cs)) buf a =
        deliver d (chainLoads (j + 1) cs) (blit buf (j * 2048) (d.cluster c)) a := by
      rw [chainLoads, ← List.singleton_append, deliver_append, ← hload]
      rfl
    -- the loads of the rest of the chain go behind the first cluster
    have hhead : ((List.range 2048).map fun b => deliver d (chainLoads j (c :: cs)) buf (j * 2048 + b)) =
        (d.cluster c).toList := by
      rw [toList_eq_map_cell]
      refine List.map_congr_left fun b hb => ?_
      have hb := List.mem_range.1 hb
      rw [hstep, deliver_before fun x hx => ?_, blit_of_lt _ _ hb]
      have := le_offset_chainLoads hx
      omega
    have htail : ((List.range (cs.length * 2048)).map fun b =>
        deliver d (chainLoads j (c :: cs)) buf (j * 2048 + (2048 + b))) = cs.flatMap fun c => (d.cluster c).toList := by
      rw [← ih hr' (j + 1) (blit buf (j * 2048) (d.cluster c))]
      refine List.map_congr_left fun b _ => ?_
      rw [hstep, show j * 2048 + (2048 + b) = (j + 1) * 2048 + b by omega]
    have hlen : (c :: cs).length * 2048 = 2048 + cs.length * 2048 := by rw [List.length_cons]; omega
    rw [hlen, List.range_add, List.map_append, hhead, List.map_map, List.flatMap_cons]
    exact congrArg _ htail

/-! ## The loop of read -/

/-- The loop follows the chain; what it loads after it lies behind the file. -/
theorem readLoop_chain {f : FAT32FileAllocationTable} {m : FAT32DriverState} {a : ℕ} (h : Chain (next f) a l)
    (hr : ∀ c ∈ l, c < 512) (hm : ∀ c ∈ l, cell m.fatTable c = cell f c) :
    ∀ n j, l.length ≤ n → ∃ rest, readLoop π m n j (UInt32.ofNat a) = chainLoads j l ++ rest ∧
      ∀ x ∈ rest, (j + l.length) * 2048 ≤ x.offset := by
  have later : ∀ (n j : ℕ) (c : UInt32), ∀ x ∈ readLoop π m n j c, j * 2048 ≤ x.offset := by
    intro n
    induction n with
    | zero => intro j c x hx; cases hx
    | succ n ih =>
      intro j c x hx
      rw [readLoop, List.mem_cons] at hx
      rcases hx with rfl | hx
      · exact Nat.le_refl _
      · exact Nat.le_trans (Nat.mul_le_mul_right 2048 (Nat.le_succ j)) (ih _ _ x hx)
  induction h with
  | @last a h =>
    intro n j hn
    obtain ⟨n, rfl⟩ : ∃ k, n = k + 1 := ⟨n - 1, by rw [List.length_singleton] at hn; omega⟩
    exact ⟨_, by rw [readLoop]; rfl, later n (j + 1) _⟩
  | @link a b l h hl ih =>
    intro n j hn
    obtain ⟨n, rfl⟩ : ∃ k, n = k + 1 := ⟨n - 1, by rw [List.length_cons] at hn; omega⟩
    rw [List.length_cons] at hn ⊢
    have ha := hr a List.mem_cons_self
    have hnext : mapAt π m (UInt32.ofNat a).toNat = UInt32.ofNat b := by
      rw [toNat_ofNat_cluster ha, ← UInt32.ofNat_toNat (x := mapAt π m a)]
      congr 1
      exact mapAt_of_next ha ((next_congr (hm a List.mem_cons_self)).trans h)
    obtain ⟨rest, h1, h2⟩ := ih (fun c hc => hr c (List.mem_cons_of_mem a hc))
      (fun c hc => hm c (List.mem_cons_of_mem a hc)) n (j + 1) (by omega)
    refine ⟨rest, ?_, fun x hx => ?_⟩
    · rw [readLoop, hnext, h1, chainLoads, List.cons_append]
    · rw [show j + (l.length + 1) = j + 1 + l.length by omega]; exact h2 x hx

/-! ## The answer -/

/-- The machine after the load of `read`. -/
def listed (s : Machine) (r : FAT32DriverRequest) : Machine :=
  ⟨⟨s.memory.fatTable, s.disk.table r.parent, s.memory.clusterBuf⟩, s.disk, s.issued⟩

theorem read_eq (hp : r.parent < 512) : read π s r = readLoaded π (listed s r) r := by
  unfold read loadParent
  rw [readClusters_eq, place_parent hp]
  rfl

/-- A read is refused for a file with attribute 1, and without a buffer. -/
def ReadRefused (e : FAT32DirectoryEntry) (r : FAT32DriverRequest) : Prop := e.attributeByte = 1 ∨ r.bufferSize = 0

instance (e : FAT32DirectoryEntry) (r : FAT32DriverRequest) : Decidable (ReadRefused e r) :=
  inferInstanceAs (Decidable (_ ∨ _))

section

variable {t : FAT32DirectoryTable} {e : FAT32DirectoryEntry}

theorem readLoaded_refused (ht : s.memory.dirTableBuf = t) (hf : findEntry t r.name r.ext = some i)
    (he : ReadRefused (cell t i) r) : readLoaded π s r = ⟨1, r.buf, [], s⟩ := by
  have he' : (cell t i).attributeByte = 1 ∨ r.bufferSize = 0 := he
  unfold readLoaded
  simp only [ht, hf, if_pos he']

theorem readLoaded_loads (ht : s.memory.dirTableBuf = t) (hf : findEntry t r.name r.ext = some i)
    (he : ¬ ReadRefused (cell t i) r) (hs : ¬ ((cell t i).filesize / 2048 + 1) * 2048 < (cell t i).filesize) :
    readLoaded π s r =
      ⟨0, deliver s.disk (readLoop π s.memory ((cell t i).filesize / 2048 + 1).toNat 0 (cell t i).cluster) r.buf,
        readLoop π s.memory ((cell t i).filesize / 2048 + 1).toNat 0 (cell t i).cluster, s⟩ := by
  have he' : ¬ ((cell t i).attributeByte = 1 ∨ r.bufferSize = 0) := he
  unfold readLoaded
  simp only [ht, hf, if_neg he', if_neg hs]

end

theorem count_toNat {n : UInt32} (h : n.toNat ≤ 509 * 2048) :
    (n / 2048 + 1).toNat = n.toNat / 2048 + 1 ∧ ¬ (n / 2048 + 1) * 2048 < n := by
  have h1 : (n / 2048 + 1).toNat = n.toNat / 2048 + 1 := by
    rw [UInt32.toNat_add, UInt32.toNat_div]
    simp only [UInt32.reduceToNat]
    omega
  refine ⟨h1, ?_⟩
  rw [UInt32.lt_iff_toNat_lt, UInt32.toNat_mul, h1]
  simp only [UInt32.reduceToNat]
  omega

/-- The table of files in memory is that of the disk wherever the one on the disk is taken. -/
def Coherent (s : Machine) : Prop :=
  ∀ c, cell s.disk.fat c ≠ fatEmptyEntry → cell s.memory.fatTable c = cell s.disk.fat c

theorem coherent_of_eq (h : s.memory.fatTable = s.disk.fat) : Coherent s := fun c _ => by rw [h]

/-- What a read of a live file answers when the table in memory is coherent: its code, and as many bytes
as the file has. -/
theorem read_file (hd : s.disk.Sound) (he : s.disk.LiveFile r.parent i) (hr : Resolves s.disk r i) (hm : Coherent s) :
    (read π s r).code = (if ReadRefused (s.disk.slot r.parent i) r then 1 else 0) ∧
      ((List.range (s.disk.slot r.parent i).filesize.toNat).map fun a => (read π s r).buf a) =
        if ReadRefused (s.disk.slot r.parent i) r then
          (List.range (s.disk.slot r.parent i).filesize.toNat).map r.buf
        else s.disk.fileBytes (s.disk.slot r.parent i) := by
  rw [read_eq (hd.liveDir_range he.dir).2]
  by_cases hre : ReadRefused (s.disk.slot r.parent i) r
  · rw [readLoaded_refused (t := s.disk.table r.parent) rfl hr hre, if_pos hre, if_pos hre]
    exact ⟨rfl, rfl⟩
  · obtain ⟨l, hl⟩ := hd.owns _ _ he.toLiveEntry
    have hlen : l.length = ((s.disk.slot r.parent i).filesize.toNat + 2047) / 2048 := by
      rw [hl.length, clusterCount, if_neg he.file]
    have hle := hl.length_le
    obtain ⟨h1, h2⟩ := count_toNat (n := (s.disk.slot r.parent i).filesize) (by omega)
    obtain ⟨rest, h3, h4⟩ := readLoop_chain (π := π) (m := (listed s r).memory) hl.chain
      (fun c hc => (hl.range c hc).2) (fun c hc => hm c (hl.used c hc))
      ((s.disk.slot r.parent i).filesize.toNat / 2048 + 1) 0 (by omega)
    rw [UInt32.ofNat_toNat] at h3
    have hdel := deliver_chain s.disk (fun c hc => (hl.range c hc).2) 0 r.buf
    rw [readLoaded_loads (t := s.disk.table r.parent) rfl hr hre h2, if_neg hre, if_neg hre]
    refine ⟨rfl, ?_⟩
    unfold fileBytes
    rw [chainOf_eq hl, ← hdel, ← List.map_take, List.take_range, Nat.min_eq_left (by omega)]
    refine List.map_congr_left fun a ha => ?_
    have ha := List.mem_range.1 ha
    show deliver s.disk (readLoop π (listed s r).memory ((s.disk.slot r.parent i).filesize / 2048 + 1).toNat 0
      (s.disk.slot r.parent i).cluster) r.buf a = _
    -- the load after the chain, if there is one, delivers behind the last byte of the file
    rw [h1, h3, deliver_append, deliver_before fun x hx => ?_, Nat.zero_mul, Nat.zero_add]
    have := h4 x hx
    omega

/-- Two machines that hold a file alike, wherever it lies, answer a read of it alike. -/
theorem read_alike (hd : s.disk.Sound) (hd' : t.disk.Sound) (hc : Coherent s) (hc' : Coherent t)
    (he : s.disk.LiveFile r.parent i) (he' : t.disk.LiveFile r.parent k) (hr : Resolves s.disk r i)
    (hr' : Resolves t.disk r k)
    (ha : (s.disk.slot r.parent i).attributeByte = (t.disk.slot r.parent k).attributeByte)
    (hz : (s.disk.slot r.parent i).filesize = (t.disk.slot r.parent k).filesize)
    (hb : s.disk.fileBytes (s.disk.slot r.parent i) = t.disk.fileBytes (t.disk.slot r.parent k)) :
    (read π s r).code = (read π t r).code ∧
      ∀ a < (s.disk.slot r.parent i).filesize.toNat, (read π s r).buf a = (read π t r).buf a := by
  have hre : ReadRefused (s.disk.slot r.parent i) r ↔ ReadRefused (t.disk.slot r.parent k) r := by
    unfold ReadRefused
    rw [ha]
  obtain ⟨h1, h2⟩ := read_file (π := π) hd he hr hc
  obtain ⟨h3, h4⟩ := read_file (π := π) hd' he' hr' hc'
  simp only [← hre, ← hz, ← hb] at h3 h4
  exact ⟨h1.trans h3.symm, fun a h => List.map_inj_left.1 (h2.trans h4.symm) a (List.mem_range.2 h)⟩

/-! ## Reading what was written -/

/-- The bytes of a read are those of the file. -/
theorem read_bytes (hd : s.disk.Sound) (he : s.disk.LiveFile r.parent i) (hr : Resolves s.disk r i) (hm : Coherent s)
    (ha : (s.disk.slot r.parent i).attributeByte ≠ 1) (hb : r.bufferSize ≠ 0) :
    (read π s r).code = 0 ∧
      ((List.range (s.disk.slot r.parent i).filesize.toNat).map fun a => (read π s r).buf a) =
        s.disk.fileBytes (s.disk.slot r.parent i) := by
  have hre : ¬ ReadRefused (s.disk.slot r.parent i) r := not_or.2 ⟨ha, hb⟩
  have h := read_file (π := π) hd he hr hm
  rwa [if_neg hre, if_neg hre] at h

/-- After a served write of a file, a read under its name delivers the bytes that were written. -/
theorem read_write (hd : s.disk.WellFormed) (hp : s.disk.LiveDir r.parent) (hf : s.disk.HasFreeSlot r.parent)
    (hb : r.bufferSize ≠ 0) (hw : write π s r = some (0, s')) (hq : q.parentClusterNumber = r.parentClusterNumber)
    (hn : q.name = r.name) (hx : q.ext = r.ext) (hs : q.bufferSize ≠ 0) :
    (read π s' q).code = 0 ∧ ∀ a < r.bufferSize.toNat, (read π s' q).buf a = r.buf a := by
  have hd := hd.toSound
  obtain ⟨j, c, h⟩ := stored_of_write hd.grounded hp hw
  have hj := h.slot_hi_of_free hf
  have hq : q.parent = r.parent := congrArg UInt32.toNat hq
  have hslot : s'.disk.slot q.parent j = newEntry r c := by rw [hq]; exact h.slot_new hd.grounded hp hj
  have hfile : s'.disk.LiveFile q.parent j := by rw [hq]; exact h.liveFile hd.grounded hp hj hb
  obtain ⟨h1, h2⟩ := read_bytes (π := π) (r := q) ((h.inserted hd.grounded hp hj).sound hd) hfile
    (h.resolves hd.grounded hp hj hq hn hx (newExt_file hb)) (coherent_of_eq (h.coherent hd.grounded hp))
    (by rw [hslot, newEntry_attribute, if_neg hb]; decide) hs
  rw [hslot, newEntry_filesize, h.bytes hd.grounded hp hb, bufferBytes] at h2
  exact ⟨h1, fun a ha => List.map_inj_left.1 h2 a (List.mem_range.2 ha)⟩

theorem read_write_fileA : ∃ s s', write zeroPlatform s fileA = some (0, s') ∧ (read zeroPlatform s' fileA).code = 0 ∧
    (read zeroPlatform s' fileA).buf 0 = 1 := by
  obtain ⟨s₀, s, -, hf, hs, -⟩ := exists_holdsA
  obtain ⟨h1, h2⟩ := read_write (r := fileA) hf.wellFormed s₀.disk.liveDir_root hf.hasFreeSlot
    (show fileA.bufferSize ≠ 0 by decide) hs rfl rfl rfl (show fileA.bufferSize ≠ 0 by decide)
  exact ⟨s₀, s, hs, h1, h2 0 (by decide)⟩

end BebasOs.Fat32
