/-
Crash safety of file writes. A file write issues its data first, then the table of files, then the
directory, and its data goes to free clusters only. Cut off anywhere before the last of these it has
changed no entry and the new file is not there; after it the file is there with all its bytes.
-/
import BebasOs.Fat32.Coherence

namespace BebasOs.Fat32

open Bytes Links Search Disk Relation

variable {π : Platform} {s s' : Machine} {r : FAT32DriverRequest} {d d' : Disk} {j c : ℕ}

/-! ## What is found after a crash -/

/-- The file a request writes is on the disk, in a slot that was free, with its size and its bytes. -/
structure FilePresent (d d' : Disk) (r : FAT32DriverRequest) (j : ℕ) : Prop where
  free : ¬ (d.slot r.parent j).Live
  table : d'.table r.parent = store (d.table r.parent) j (d'.slot r.parent j)
  file : d'.LiveFile r.parent j
  resolves : Resolves d' r j
  size : (d'.slot r.parent j).filesize = r.bufferSize
  bytes : d'.fileBytes (d'.slot r.parent j) = bufferBytes r

/-- The file a request writes is not on the disk, and its directory is as it was. -/
structure FileAbsent (d d' : Disk) (r : FAT32DriverRequest) : Prop where
  table : d'.table r.parent = d.table r.parent
  unmatched : findEntry (d'.table r.parent) r.name r.ext = none

/-- The disk `d'` is well formed and holds every entry and directory of `d`, with or without the file a
request writes. -/
structure Intact (d d' : Disk) (r : FAT32DriverRequest) : Prop where
  wellFormed : d'.WellFormed
  entry : ∀ q i, d.LiveEntry q i → d'.LiveEntry q i ∧ d'.slot q i = d.slot q i
  file : ∀ q i, d.LiveFile q i → d'.fileBytes (d.slot q i) = d.fileBytes (d.slot q i)
  directory : ∀ q, d.LiveDir q → q ≠ r.parent → d'.table q = d.table q
  new : FileAbsent d d' r ∨ ∃ j, FilePresent d d' r j

theorem Disk.Kept.intact (h : d.Kept d') (hb : d.SameBoot d') (hd : d.WellFormed) (hp : d.LiveDir r.parent)
    (hf : findEntry (d.table r.parent) r.name r.ext = none) : Intact d d' r where
  wellFormed := hb.wellFormed hd (h.sound hd.toSound)
  entry q i hq := ⟨(h.entry_kept hd.toSound hq).1, (h.entry_kept hd.toSound hq).2.1⟩
  file q i hq := (h.entry_kept hd.toSound hq.toLiveEntry).2.2
  directory q hq _ := h.table_eq hd.toSound hq
  new := .inl ⟨h.table_eq hd.toSound hp, by rw [h.table_eq hd.toSound hp]; exact hf⟩

theorem Stored.intact (h : Stored s r j c s') (hd : s.disk.WellFormed) (hp : s.disk.LiveDir r.parent) (hj : j < 64)
    (hb : r.bufferSize ≠ 0) : Intact s.disk s'.disk r := by
  have hs := hd.toSound
  have hi := h.inserted hs.grounded hp hj
  have hslot := h.slot_new hs.grounded hp hj
  refine ⟨(h.sameBoot hs.grounded hp).wellFormed hd (hi.sound hs), fun q i hq => ?_,
    fun q i hq => (hi.file_kept hs hq).2.2,
    fun q hq hne => hi.table_other hs.grounded hq hne, .inr ⟨j, hi.free, ?_, h.liveFile hs.grounded hp hj hb,
      h.resolves hs.grounded hp hj rfl rfl rfl (newExt_file hb), ?_, ?_⟩⟩
  · exact ⟨(hi.liveEntry_iff hs.grounded).2 (.inl hq), hi.slot_old hs.grounded hq⟩
  · rw [hslot]; exact hi.table
  · rw [hslot, newEntry_filesize]
  · rw [hslot]; exact h.bytes hs.grounded hp hb

/-! ## The cut points -/

/-- While only free clusters and their entries of the table of files change, every entry stays. -/
theorem kept_of_taken (ho : ∀ x, x ≠ 1 → x ∉ taken d r → d'.cluster x = d.cluster x)
    (hf : ∀ x, x ∉ taken d r → cell d'.fat x = cell d.fat x) : d.Kept d' ∧ d.SameBoot d' := by
  have hused {x : ℕ} (hx : cell d.fat x ≠ fatEmptyEntry) : x ∉ taken d r := fun hm => hx (mem_taken hm).2.2
  have hlow {x : ℕ} (hx : x < 3) : x ∉ taken d r := fun hm => by
    have := (mem_taken hm).1
    omega
  exact ⟨⟨fun x h1 h2 => ho x (by omega) (hused h2), fun x _ h2 => hf x (hused h2)⟩,
    ⟨ho 0 (by omega) (hlow (by omega)), fun x hx => hf x (hlow hx)⟩⟩

/-- The disk after some of the data writes. -/
theorem kept_data (d : Disk) (r : FAT32DriverRequest) (n : ℕ) :
    d.Kept (d.replay ((dataWrites r 0 (taken d r)).take n)) ∧
      d.SameBoot (d.replay ((dataWrites r 0 (taken d r)).take n)) := by
  have hother : ∀ x, x ∉ taken d r → (d.replay ((dataWrites r 0 (taken d r)).take n)).cluster x = d.cluster x := by
    refine fun x hx => cluster_replay_other (fun w hw => ?_) d
    obtain ⟨c, h1, h2⟩ := mem_dataWrites (List.mem_of_mem_take hw)
    rw [h2, place_ofNat (mem_taken h1).2.1]
    rintro rfl
    exact hx h1
  have h1 : 1 ∉ taken d r := fun hm => by
    have := (mem_taken hm).1
    omega
  exact kept_of_taken (fun x _ hx => hother x hx) fun x _ => by rw [fat_congr (hother 1 h1)]

/-- The disk after the data writes and the table of files. -/
theorem kept_linked (hc : first (isEmptyEntry d.fat) 3 512 = some c) :
    d.Kept (d.replay (dataWrites r 0 (taken d r) ++ [(fatClusterNumber, fatPacked (link d.fat (taken d r)))])) ∧
      d.SameBoot (d.replay (dataWrites r 0 (taken d r) ++
        [(fatClusterNumber, fatPacked (link d.fat (taken d r)))])) := by
  rw [replay_concat]
  refine kept_of_taken (r := r) (fun x h1 hx => ?_) fun x hx => ?_
  · rw [cluster_writeClusters_ne _ _ (by rw [place_fat]; exact h1),
      cluster_dataWrites_other (fun y hy => (mem_taken hy).2.1) hx]
  · rw [fat_of_cluster (t := link d.fat (taken d r)), (linked_taken hc).others x hx]
    rw [cluster_writeClusters, place_fat, if_pos ⟨rfl, by omega⟩]

/-- A sequence that ends in two writes is cut before, between or after them. -/
theorem take_append_pair {α : Type*} (xs : List α) (a b : α) (n : ℕ) :
    (xs ++ [a, b]).take n = xs.take n ∨ (xs ++ [a, b]).take n = xs ++ [a] ∨ (xs ++ [a, b]).take n = xs ++ [a, b] := by
  rw [List.take_append]
  rcases Nat.lt_or_ge xs.length n with h | h
  · rw [List.take_of_length_le (Nat.le_of_lt h)]
    obtain ⟨k, hk⟩ : ∃ k, n - xs.length = k + 1 := ⟨n - xs.length - 1, by omega⟩
    rw [hk, List.take_succ_cons]
    cases k with
    | zero => exact .inr (.inl rfl)
    | succ k => exact .inr (.inr (by rw [List.take_succ_cons, List.take_nil]))
  · rw [Nat.sub_eq_zero_of_le h, List.take_zero, List.append_nil]
    exact .inl rfl

/-- Wherever a served file write is cut, the entries are as before or with the new file. -/
theorem Stored.intact_take (h : Stored s r j c s') (hd : s.disk.WellFormed) (hp : s.disk.LiveDir r.parent) (hj : j < 64)
    (hb : r.bufferSize ≠ 0) (n : ℕ) : Intact s.disk (s.disk.replay ((requestWrites s.disk r j c).take n)) r := by
  rw [show requestWrites s.disk r j c = fileWrites s.disk r j c from if_neg hb]
  rcases take_append_pair (dataWrites r 0 (taken s.disk r))
    (fatClusterNumber, fatPacked (link s.disk.fat (taken s.disk r)))
    (r.parentClusterNumber, tablePacked (store (s.disk.table r.parent) j (fileEntry r c))) n with hn | hn | hn
  · obtain ⟨h1, h2⟩ := kept_data s.disk r n
    rw [fileWrites, hn]
    exact h1.intact h2 hd hp h.unmatched
  · obtain ⟨h1, h2⟩ := kept_linked (r := r) h.free
    rw [fileWrites, hn]
    exact h1.intact h2 hd hp h.unmatched
  · have hdisk := h.disk
    rw [show requestWrites s.disk r j c = fileWrites s.disk r j c from if_neg hb] at hdisk
    rw [fileWrites, hn, ← fileWrites, ← hdisk]
    exact h.intact hd hp hj hb

/-- Whatever prefix of its cluster writes a file write that answers 0 has issued, mounting the disk as it
then stands gives a well-formed file system with every entry that was there, and the new file is absent
or complete. -/
theorem write_crash (hd : s.disk.WellFormed) (hp : s.disk.LiveDir r.parent) (hf : s.disk.HasFreeSlot r.parent)
    (hb : r.bufferSize ≠ 0) (hw : write π s r = some (0, s')) :
    ∃ ws, s'.issued = s.issued ++ ws ∧ s'.disk = s.disk.replay ws ∧
      ∀ n, ∃ s₁, initializeFilesystemFat32 π (powerOn (s.disk.replay (ws.take n))) = some s₁ ∧
        s₁.disk = s.disk.replay (ws.take n) ∧ s₁.memory.fatTable = s₁.disk.fat ∧ Intact s.disk s₁.disk r := by
  obtain ⟨j, c, h⟩ := stored_of_write hd.toSound.grounded hp hw
  refine ⟨_, h.issued, h.disk, fun n => ?_⟩
  have hi := h.intact_take hd hp (h.slot_hi_of_free hf) hb n
  obtain ⟨m, h1, h2⟩ := initialize_mounted (π := π)
    (s := powerOn (s.disk.replay ((requestWrites s.disk r j c).take n))) hi.wellFormed.signature
  exact ⟨_, h1, rfl, h2, hi⟩

/-- The sample file, cut off after its data. -/
theorem write_crash_fileA : ∃ s ws s₁, write zeroPlatform s fileA = some (0, s₁) ∧ s₁.issued = s.issued ++ ws ∧
    ∃ s₂, initializeFilesystemFat32 zeroPlatform (powerOn (s.disk.replay (ws.take 1))) = some s₂ ∧
      Intact s.disk s₂.disk fileA := by
  obtain ⟨s, s₁, -, hf, hs, -⟩ := exists_holdsA
  obtain ⟨ws, h1, -, h2⟩ := write_crash (r := fileA) hf.wellFormed s.disk.liveDir_root hf.hasFreeSlot
    (show fileA.bufferSize ≠ 0 by decide) hs
  obtain ⟨s₂, h3, -, -, h4⟩ := h2 1
  exact ⟨s, ws, s₁, hs, h1, s₂, h3, h4⟩

end BebasOs.Fat32
