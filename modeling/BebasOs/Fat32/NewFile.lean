/-
What it takes to write a new file, and what is on the disk afterwards: the first free clusters linked
into one chain, the chunks of the buffer in them, one more entry in the directory, and nothing else.
-/
import BebasOs.Fat32.Reachable

namespace BebasOs.Fat32

open Bytes Links Search Disk

variable {π : Platform} {s : Machine} {r : FAT32DriverRequest} {d d' : Disk} {fs : List ℕ} {j c : ℕ}

/-! ## The table entries of a chain -/

theorem next_eq_none {t : FAT32FileAllocationTable} {c : ℕ} (h : next t c = none) : cell t c = fatEndOfFile := by
  unfold next at h
  split at h
  · assumption
  · cases h

theorem next_eq_some {t : FAT32FileAllocationTable} {b c : ℕ} (h : next t b = some c) : cell t b = UInt32.ofNat c := by
  unfold next at h
  split at h
  · cases h
  · cases h
    exact (UInt32.ofNat_toNat).symm

/-! ## The disk with the new file -/

/-- `d'` is `d` with the file of the request on the clusters `fs`, its entry in slot `j`. -/
structure NewFile (d d' : Disk) (r : FAT32DriverRequest) (fs : List ℕ) (j : ℕ) : Prop where
  link : ∀ i (hi : i + 1 < fs.length), cell d'.fat fs[i] = UInt32.ofNat fs[i + 1]
  last : ∀ i (hi : i < fs.length), i + 1 = fs.length → cell d'.fat fs[i] = fatEndOfFile
  fat : ∀ x, x ∉ fs → cell d'.fat x = cell d.fat x
  data : ∀ i (hi : i < fs.length), d'.cluster fs[i] = chunk r i
  name : (d'.slot r.parent j).name = r.name
  ext : (d'.slot r.parent j).ext = r.ext
  attributeByte : (d'.slot r.parent j).attributeByte = 0
  live : (d'.slot r.parent j).Live
  filesize : (d'.slot r.parent j).filesize = r.bufferSize
  start : ∃ hpos : 0 < fs.length, (d'.slot r.parent j).cluster.toNat = fs[0]
  slots : ∀ i, i ≠ j → d'.slot r.parent i = d.slot r.parent i
  others : ∀ x, x ≠ 1 → x ≠ r.parent → x ∉ fs → d'.cluster x = d.cluster x

/-- The slot that a served request gets is the first free one of its directory. -/
theorem Accepted.slot_first (h : Accepted s r j c) (hj : j < 64) :
    first (isFreeSlot (s.disk.table r.parent)) 0 64 = some j := by
  refine first_eq_some.2 ⟨Nat.zero_le j, hj, ?_, fun i _ hi => ?_⟩
  · show ((s.disk.slot r.parent j).userAttribute != uattrNotEmpty) = true
    exact bne_iff_ne.2 (h.slot_free hj)
  · show ((s.disk.slot r.parent i).userAttribute != uattrNotEmpty) = false
    exact bne_eq_false_iff_eq.2 (h.slot_before hi (by omega))

/-- A served file is on the disk, on the clusters it took. -/
theorem newFile_of_accepted (h : Accepted s r j c) (hd : s.disk.Grounded) (hp : s.disk.LiveDir r.parent)
    (hj : j < 64) (hb : r.bufferSize ≠ 0) :
    NewFile s.disk (s.disk.replay (requestWrites s.disk r j c)) r (taken s.disk r) j := by
  have hi := request_inserted h hd hp hj
  have hfat := fat_of_cluster (cluster_request_fat h hd hp)
  have hlinked := linked_taken (r := r) h.free
  have hslot := hi.slot_new hd
  have hdata := clusters_request_file h hd hp hb
  have hlen := taken_length h.room
  refine ⟨fun i hi' => ?_, fun i hi' hlast => ?_, fun x hx => hi.fat x hx, fun i hi' => ?_, ?_, ?_, ?_, ?_, ?_, ?_,
    fun i hne => ?_, fun x => hi.others x⟩
  · rw [hfat]
    exact next_eq_some ((hlinked.chain.next_getElem (by omega)).trans (List.getElem?_eq_getElem hi'))
  · rw [hfat]
    exact next_eq_none ((hlinked.chain.next_getElem hi').trans (List.getElem?_eq_none (by omega)))
  · have := congrArg (fun l => l[i]?) hdata
    simp only [List.getElem?_map, List.getElem?_eq_getElem hi', Option.map_some,
      List.getElem?_eq_getElem (show i < (List.range (needed r)).length by simp; omega), List.getElem_range] at this
    exact Option.some.inj this
  · rw [hslot, newEntry_name]
  · rw [hslot, newEntry_ext, newExt_file hb]
  · rw [hslot, newEntry_attribute, if_neg hb]
  · rw [hslot]
    exact newEntry_live r c
  · rw [hslot, newEntry_filesize]
  · obtain ⟨cs, hcs⟩ := taken_eq (r := r) h.free
    refine ⟨by rw [hlen]; exact needed_pos r, ?_⟩
    rw [hslot, newEntry_cluster r h.cluster_range.2.1]
    simp only [hcs, List.getElem_cons_zero]
  · rw [hi.slot_eq hd hp, if_neg fun he => hne he.2]

/-- A file under a new name, of any size, in a directory with a free slot, is written if and only if there
are `⌈bufferSize / 2048⌉` free clusters. It is then on the first of them, in increasing order, and its
entry is in the first free slot. -/
theorem write_file_exact (hd : s.disk.Grounded) (hp : s.disk.LiveDir r.parent) (hs : s.disk.HasFreeSlot r.parent)
    (hf : findEntry (s.disk.table r.parent) r.name r.ext = none) (hb : r.bufferSize ≠ 0) :
    ∃ code s', write π s r = some (code, s') ∧
      (code = 0 ↔ (r.bufferSize.toNat + 2047) / 2048 ≤ (freeClusters s.disk.fat).length) ∧
      (code = 0 → ∃ j, first (isFreeSlot (s.disk.table r.parent)) 0 64 = some j ∧
        NewFile s.disk s'.disk r ((freeClusters s.disk.fat).take ((r.bufferSize.toNat + 2047) / 2048)) j) := by
  rw [← needed_of_file hb]
  have hw := write_spec (π := π) hd hp
  generalize write π s r = out at hw
  cases hw with
  | stored h =>
    have hj := h.slot_hi_of_free hs
    refine ⟨0, _, rfl, iff_of_true rfl h.room, fun _ => ⟨_, h.slot_first hj, ?_⟩⟩
    rw [h.disk]
    exact newFile_of_accepted h.toAccepted hd hp hj hb
  | refused h hno =>
    refine ⟨_, _, rfl, iff_of_false h.code fun hroom => ?_, fun hcode => absurd hcode h.code⟩
    obtain ⟨j, c, hacc⟩ := exists_accepted hf hroom hs
    exact hno j c hacc
  | lost _ hfull _ =>
    obtain ⟨i, -, hi, hn⟩ := hs
    exact absurd (hfull i hi) hn

/-- The file `a` on a new disk: cluster 3, all alone. -/
theorem write_file_exact_fileA :
    ∃ s s' j, write zeroPlatform s fileA = some (0, s') ∧ NewFile s.disk s'.disk fileA [3] j := by
  obtain ⟨s₀, s, -, hf, hs, -⟩ := exists_holdsA
  obtain ⟨code, s', hw, -, hnew⟩ := write_file_exact (π := zeroPlatform) (r := fileA) hf.wellFormed.toSound.grounded
    s₀.disk.liveDir_root hf.hasFreeSlot (fileA_accepted hf).unmatched (by decide)
  obtain ⟨rfl, rfl⟩ : 0 = code ∧ s = s' := by simpa using hs.symm.trans hw
  obtain ⟨j, -, h⟩ := hnew rfl
  rw [hf.freeClusters] at h
  exact ⟨s₀, s, j, hs, h⟩

end BebasOs.Fat32
