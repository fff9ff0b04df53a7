/-
What a read makes of the size of the buffer. It is documented to limit the read, but `read` asks only whether it
is zero: whatever the file, all of its clusters are loaded, and one more for a size that is a multiple of the cluster.
-/
import BebasOs.Fat32.ReadChain

namespace BebasOs.Fat32

open Bytes Links Search Disk

variable {π : Platform} {s : Machine} {r : FAT32DriverRequest} {i : ℕ}

/-! ## Reads within a buffer -/

/-- A read of the file in slot `i` keeps to the size of the buffer: it answers 2, the code for a buffer that is too
small, and delivers nothing when the file is larger, and in no case loads a cluster behind the end of the buffer. -/
structure WithinBuffer (π : Platform) (s : Machine) (r : FAT32DriverRequest) (i : ℕ) : Prop where
  tooSmall : r.bufferSize.toNat < fileSize s r i → (read π s r).code = 2 ∧ (read π s r).buf = r.buf
  offsets : ∀ x ∈ (read π s r).loads, x.offset < r.bufferSize.toNat

/-- Every round of the loop loads one cluster further into the buffer. -/
theorem readLoop_offsets (π : Platform) (m : FAT32DriverState) (n j : ℕ) (c : UInt32) :
    (readLoop π m n j c).map Load.offset = (List.range' j n).map (· * 2048) := by
  induction n generalizing j c with
  | zero => rfl
  | succ n ih => rw [readLoop, List.map_cons, List.range'_succ, List.map_cons, ih]

/-- The last of `n + 1` rounds decides whether all of them start within the buffer. -/
theorem readLoop_offsets_lt_iff (π : Platform) (m : FAT32DriverState) (n b : ℕ) (c : UInt32) :
    (∀ x ∈ readLoop π m (n + 1) 0 c, x.offset < b) ↔ n * 2048 < b := by
  have hall : (∀ x ∈ readLoop π m (n + 1) 0 c, x.offset < b) ↔
      ∀ o ∈ (readLoop π m (n + 1) 0 c).map Load.offset, o < b := by
    simp
  rw [hall, readLoop_offsets, List.forall_mem_map]
  constructor
  · intro h
    exact h n (List.mem_range'_1.2 ⟨Nat.zero_le n, by omega⟩)
  · intro h j hj
    rw [List.mem_range'_1] at hj
    exact Nat.lt_of_le_of_lt (Nat.mul_le_mul_right 2048 (by omega)) h

/-- The buffer after a read is what its loads deliver. -/
theorem read_buf (π : Platform) (s : Machine) (q : FAT32DriverRequest) :
    (read π s q).buf = deliver s.disk (read π s q).loads q.buf := by
  unfold read readLoaded
  split
  · rfl
  · dsimp only
    split
    · rfl
    · split
      · rfl
      · rfl

/-- The request with a buffer that holds something else. -/
def withBuffer (q : FAT32DriverRequest) (buf : ℕ → UInt8) : FAT32DriverRequest := { q with buf := buf }

/-- What a read loads does not depend on what the buffer held. -/
theorem read_withBuffer (π : Platform) (s : Machine) (q : FAT32DriverRequest) (buf : ℕ → UInt8) :
    (read π s (withBuffer q buf)).loads = (read π s q).loads := by
  unfold read readLoaded withBuffer
  dsimp only [loadParent]
  split
  · rfl
  · split
    · rfl
    · split
      · rfl
      · rfl

theorem mem_readLoop {m : FAT32DriverState} {n : ℕ} {c : UInt32} {l : Load} (h : l ∈ readLoop π m n 0 c) :
    l.offset + 2048 ≤ n * 2048 := by
  have hmem : l.offset ∈ (readLoop π m n 0 c).map Load.offset := List.mem_map_of_mem h
  rw [readLoop_offsets] at hmem
  obtain ⟨j, hj, hoff⟩ := List.mem_map.1 hmem
  have := List.mem_range'_1.1 hj
  rw [← hoff]
  omega

/-- A read fills no more of its buffer than the size of its entry and one cluster. -/
theorem read_loads_le {q : FAT32DriverRequest} {l : Load} (hp : q.parent < 512) (hr : Resolves s.disk q i)
    (hl : l ∈ (read π s q).loads) : l.offset + 2048 ≤ ((s.disk.slot q.parent i).filesize.toNat / 2048 + 1) * 2048 := by
  rw [read_eq hp] at hl
  by_cases hre : ReadRefused (s.disk.slot q.parent i) q
  · rw [readLoaded_refused (t := s.disk.table q.parent) rfl hr hre] at hl
    cases hl
  by_cases hsize : ((s.disk.slot q.parent i).filesize / 2048 + 1) * 2048 < (s.disk.slot q.parent i).filesize
  · unfold readLoaded at hl
    have hf : findEntry (listed s q).memory.dirTableBuf q.name q.ext = some i := hr
    have hre' : ¬ ((cell (listed s q).memory.dirTableBuf i).attributeByte = 1 ∨ q.bufferSize = 0) := hre
    have hsize' : ((cell (listed s q).memory.dirTableBuf i).filesize / 2048 + 1) * 2048 <
        (cell (listed s q).memory.dirTableBuf i).filesize := hsize
    simp only [hf, if_neg hre', if_pos hsize'] at hl
    cases hl
  · rw [readLoaded_loads (t := s.disk.table q.parent) rfl hr hre hsize] at hl
    have hle := mem_readLoop hl
    have hcount : ((s.disk.slot q.parent i).filesize / 2048 + 1).toNat =
        (s.disk.slot q.parent i).filesize.toNat / 2048 + 1 := by
      have := (s.disk.slot q.parent i).filesize.toNat_lt
      rw [UInt32.toNat_add, UInt32.toNat_div]
      simp only [UInt32.reduceToNat]
      omega
    exact hle.trans_eq (congrArg (· * 2048) hcount)

/-- What a read of a live file answers and where it loads. -/
theorem read_answer (hd : s.disk.Sound) (he : s.disk.LiveFile r.parent i) (hr : Resolves s.disk r i)
    (hb : r.bufferSize ≠ 0) :
    ((s.disk.slot r.parent i).attributeByte = 1 ∧ (read π s r).code = 1 ∧ (read π s r).loads = []) ∨
    ((s.disk.slot r.parent i).attributeByte ≠ 1 ∧ (read π s r).code = 0 ∧ ∀ b,
      (∀ x ∈ (read π s r).loads, x.offset < b) ↔ fileSize s r i / 2048 * 2048 < b) := by
  rw [read_eq (hd.liveDir_range he.dir).2]
  by_cases ha : (s.disk.slot r.parent i).attributeByte = 1
  · rw [readLoaded_refused (t := s.disk.table r.parent) rfl hr (.inl ha)]
    exact .inl ⟨ha, rfl, rfl⟩
  · obtain ⟨l, hl⟩ := hd.owns _ _ he.toLiveEntry
    have hlen : l.length = (fileSize s r i + 2047) / 2048 := by
      rw [hl.length, clusterCount, if_neg he.file, fileSize]
    have hle := hl.length_le
    obtain ⟨h1, h2⟩ := count_toNat (n := (s.disk.slot r.parent i).filesize) (by
      show fileSize s r i ≤ _
      omega)
    rw [readLoaded_loads (t := s.disk.table r.parent) rfl hr (not_or.2 ⟨ha, hb⟩) h2]
    refine .inr ⟨ha, rfl, fun b => ?_⟩
    show (∀ x ∈ readLoop π (listed s r).memory ((s.disk.slot r.parent i).filesize / 2048 + 1).toNat 0
      (s.disk.slot r.parent i).cluster, x.offset < b) ↔ _
    rw [h1, readLoop_offsets_lt_iff]
    rfl

/-- A read keeps to its buffer exactly when the file fits into it and, unless the read is refused, does not end at
the end of the buffer and of a cluster at once. -/
theorem read_withinBuffer_iff (hd : s.disk.WellFormed) (he : s.disk.LiveFile r.parent i) (hr : Resolves s.disk r i)
    (hb : r.bufferSize ≠ 0) : WithinBuffer π s r i ↔ fileSize s r i ≤ r.bufferSize.toNat ∧
      ((s.disk.slot r.parent i).attributeByte = 1 ∨
        ¬ (fileSize s r i = r.bufferSize.toNat ∧ 2048 ∣ fileSize s r i)) := by
  rcases read_answer (π := π) hd.toSound he hr hb with ⟨ha, hcode, hloads⟩ | ⟨ha, hcode, hloads⟩
  · constructor
    · intro h
      refine ⟨Nat.le_of_not_lt fun hlt => ?_, .inl ha⟩
      have htwo := (h.tooSmall hlt).1
      rw [hcode] at htwo
      exact absurd htwo (by decide)
    · rintro ⟨hle, -⟩
      refine ⟨fun hlt => absurd hlt (Nat.not_lt.2 hle), fun x hx => ?_⟩
      rw [hloads] at hx
      cases hx
  · constructor
    · intro h
      have hle : fileSize s r i ≤ r.bufferSize.toNat := Nat.le_of_not_lt fun hlt => by
        have htwo := (h.tooSmall hlt).1
        rw [hcode] at htwo
        exact absurd htwo (by decide)
      refine ⟨hle, .inr ?_⟩
      rintro ⟨heq, hdvd⟩
      have hlast := (hloads _).1 h.offsets
      omega
    · rintro ⟨hle, hend⟩
      refine ⟨fun hlt => absurd hlt (Nat.not_lt.2 hle), (hloads _).2 ?_⟩
      have hend := hend.resolve_left ha
      omega

/-- A file of one byte, read into one byte. -/
theorem read_withinBuffer_iff_one : ∃ s : Machine, WithinBuffer zeroPlatform s (letterRequest 97 1) 2 := by
  obtain ⟨s, hd, he, hr, -, -, hsize⟩ := exists_file 1 (by decide) (by decide)
  refine ⟨s, (read_withinBuffer_iff hd he hr (by decide)).2 ⟨?_, .inr ?_⟩⟩
  · rw [hsize]
    decide
  · rw [hsize]
    decide

/-- A file of two bytes is read whole, whatever the buffer is said to hold. -/
theorem read_ignores_bufferSize : ¬ ∀ (s : Machine) (r : FAT32DriverRequest) (i : ℕ), s.disk.WellFormed →
    s.disk.LiveFile r.parent i → Resolves s.disk r i → r.bufferSize ≠ 0 → WithinBuffer zeroPlatform s r i := by
  obtain ⟨s, hd, he, hr, -, -, hsize⟩ := exists_file 2 (by decide) (by decide)
  -- the request differs from the one that wrote the file in the size of its buffer only
  have he' : s.disk.LiveFile (letterRequest 97 1).parent 2 := he
  have hr' : Resolves s.disk (letterRequest 97 1) 2 := hr
  have hsize' : fileSize s (letterRequest 97 1) 2 = 2 := hsize
  intro hall
  obtain ⟨hle, -⟩ := (read_withinBuffer_iff hd he' hr' (by decide)).1 (hall s _ 2 hd he' hr' (by decide))
  rw [hsize'] at hle
  exact absurd hle (by decide)

end BebasOs.Fat32
