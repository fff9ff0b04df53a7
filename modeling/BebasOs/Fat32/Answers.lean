/-
The code a request is answered with, told from the disk alone, and the number of free clusters that it leaves. The codes
are tried in the order of the tests of the source: no free cluster, the name, the slot and the clusters.
-/
import BebasOs.Fat32.Coherence
import BebasOs.Fat32.Duplicates
import BebasOs.Fat32.Refusal

namespace BebasOs.Fat32

open Bytes Links Search Disk

variable {π : Platform} {s s' : Machine} {r : FAT32DriverRequest} {d d' : Disk} {p i j c : ℕ} {code : Int}
  {e : FAT32DirectoryEntry} {l cs : List ℕ}

/-! ## Free clusters -/

theorem Disk.Inserted.freeClusters (h : d.Inserted d' p j e cs) :
    (freeClusters d'.fat).length + cs.length = (freeClusters d.fat).length := by
  have hdisj : (Fat32.freeClusters d'.fat).Disjoint cs := fun x hx hc =>
    h.owns.used x hc (mem_freeClusters.1 hx).2.2
  have hperm : (Fat32.freeClusters d'.fat ++ cs).Perm (Fat32.freeClusters d.fat) := by
    refine (List.perm_ext_iff_of_nodup (List.Nodup.append (freeClusters_nodup _) h.owns.chain.nodup hdisj)
      (freeClusters_nodup _)).2 fun x => ?_
    rw [List.mem_append, mem_freeClusters, mem_freeClusters]
    constructor
    · rintro (⟨h3, h512, hx⟩ | hx)
      · rw [h.fat x fun hc => h.owns.used x hc hx] at hx
        exact ⟨h3, h512, hx⟩
      · obtain ⟨h3, h512⟩ := h.owns.range x hx
        exact ⟨h3, h512, h.fresh x hx⟩
    · rintro ⟨h3, h512, hx⟩
      by_cases hc : x ∈ cs
      · exact .inr hc
      · rw [← h.fat x hc] at hx
        exact .inl ⟨h3, h512, hx⟩
  rw [← hperm.length_eq, List.length_append]

/-- A folder gives its cluster back. -/
theorem Freed.freeClusters (h : Freed s r i s') (hd : s.disk.Sound) (he : s.disk.LiveEntry r.parent i) :
    (freeClusters s'.disk.fat).length = (freeClusters s.disk.fat).length + 1 := by
  obtain ⟨hp, hp'⟩ := hd.liveDir_range he.dir
  have ho := hd.folder_owns he (folder_of_size hd he h.size)
  have hr := ho.range _ List.mem_cons_self
  have hnew : (s.disk.slot r.parent i).cluster.toNat ∉ Fat32.freeClusters s.disk.fat := fun hc =>
    ho.used _ List.mem_cons_self (mem_freeClusters.1 hc).2.2
  have hperm : (Fat32.freeClusters s'.disk.fat).Perm
      ((s.disk.slot r.parent i).cluster.toNat :: Fat32.freeClusters s.disk.fat) := by
    refine (List.perm_ext_iff_of_nodup (freeClusters_nodup _) (List.nodup_cons.2 ⟨hnew, freeClusters_nodup _⟩)).2
      fun x => ?_
    rw [List.mem_cons, mem_freeClusters, mem_freeClusters, h.fat_eq hp hp', cell_store _ _ _ hr.2]
    constructor
    · rintro ⟨h3, h512, hx⟩
      split at hx
      · exact .inl ‹_›
      · exact .inr ⟨h3, h512, hx⟩
    · rintro (rfl | ⟨h3, h512, hx⟩)
      · exact ⟨hr.1, hr.2, if_pos rfl⟩
      · refine ⟨h3, h512, ?_⟩
        split
        · rfl
        · exact hx
  rw [hperm.length_eq, List.length_cons]

/-! ## Writing -/

theorem writeFolder_code (h : writeFolder s r = some (code, s')) : code = -1 ∨ code = 0 := by
  unfold writeFolder at h
  split at h
  · cases h
    exact .inl rfl
  · rw [Option.bind_eq_bind, Option.bind_eq_some_iff] at h
    obtain ⟨s'', -, h⟩ := h
    cases h
    exact .inr rfl

theorem writeFile_code (h : writeFile π s r c = some (code, s')) : code = -1 ∨ code = 0 := by
  unfold writeFile at h
  split at h
  · cases h
  · simp only at h
    split at h
    · cases h
      exact .inl rfl
    · cases h
      exact .inr rfl

theorem Accepted.hasFreeSlot (h : Accepted s r j c) (hd : s.disk.Grounded) (hp : s.disk.LiveDir r.parent)
    (hb : r.bufferSize = 0) : s.disk.HasFreeSlot r.parent :=
  ⟨j, h.slot_lo hd hp, h.slot_hi_of_folder hb, h.slot_free (h.slot_hi_of_folder hb)⟩

/-- A file is asked for where there is a slot, so the answer is one of these. -/
theorem write_code (hd : s.disk.Grounded) (hp : s.disk.LiveDir r.parent)
    (hs : r.bufferSize ≠ 0 → s.disk.HasFreeSlot r.parent) (h : write π s r = some (code, s')) :
    (code = -1 ∧ freeClusters s.disk.fat = []) ∨
    (code = 1 ∧ freeClusters s.disk.fat ≠ [] ∧ findEntry (s.disk.table r.parent) r.name r.ext ≠ none) ∨
    (code = -1 ∧ freeClusters s.disk.fat ≠ [] ∧ findEntry (s.disk.table r.parent) r.name r.ext = none ∧
      (r.bufferSize = 0 ∧ ¬ s.disk.HasFreeSlot r.parent ∨ (freeClusters s.disk.fat).length < needed r)) ∨
    (code = 0 ∧ ∃ j c, Stored s r j c s') := by
  have hm := reloaded_fatTable s r
  have hu := reloaded_dirTableBuf s r
  have hself := (hd.shape _ hp).self
  rcases hc : first (isEmptyEntry s.disk.fat) 3 512 with _ | c
  · rw [write_eq (hd.opens hp).hi, writeLoaded_full hm hc] at h
    cases h
    exact .inl ⟨rfl, freeClusters_eq_nil.2 hc⟩
  have hfree : freeClusters s.disk.fat ≠ [] := fun hnil => by
    rw [freeClusters_eq_nil.1 hnil] at hc
    cases hc
  rcases hf : findEntry (s.disk.table r.parent) r.name r.ext with _ | i
  · by_cases hzero : code = 0
    · rw [hzero] at h
      exact .inr (.inr (.inr ⟨hzero, stored_of_write hd hp h⟩))
    · have hcode : code = -1 ∨ code = 0 := by
        rw [write_eq (hd.opens hp).hi, writeLoaded_unmatched hm hu hc hself hf] at h
        split at h
        · exact writeFolder_code h
        · exact writeFile_code h
      refine .inr (.inr (.inl ⟨hcode.resolve_right hzero, hfree, rfl, ?_⟩))
      by_contra hno
      obtain ⟨hslot, hroom⟩ := not_or.1 hno
      have hslot : s.disk.HasFreeSlot r.parent := by
        by_cases hb : r.bufferSize = 0
        · exact not_not.1 fun hn => hslot ⟨hb, hn⟩
        · exact hs hb
      obtain ⟨j, c, hacc⟩ := exists_accepted hf (Nat.le_of_not_lt hroom) hslot
      obtain ⟨s'', hw, -⟩ := hacc.write (π := π) hd hp
      rw [hw] at h
      cases h
      exact hzero rfl
  · rw [write_eq (hd.opens hp).hi, writeLoaded_matched hm hu hc hself hf] at h
    cases h
    exact .inr (.inl ⟨rfl, hfree, by simp⟩)

/-! ## Deleting -/

theorem delete_unmatched (hp : r.parent < 512) (hf : findEntry (s.disk.table r.parent) r.name r.ext = none) :
    delete π s r = some (1, reloaded s r) := by
  rw [delete_eq hp, deleteLoaded_unmatched (reloaded_dirTableBuf s r) hf]

theorem delete_root (hp : r.parent < 512) (hf : Resolves s.disk r i)
    (hc : (s.disk.slot r.parent i).cluster = rootClusterNumber) : delete π s r = some (-1, reloaded s r) := by
  rw [delete_eq hp, deleteLoaded_root (reloaded_dirTableBuf s r) hf hc]

theorem delete_hasEntry (hp : r.parent < 512) (hf : Resolves s.disk r i)
    (hc : (s.disk.slot r.parent i).cluster ≠ rootClusterNumber) (hs : (s.disk.slot r.parent i).filesize = 0)
    (hr : (s.disk.slot r.parent i).cluster.toNat < 512) (hk : s.disk.HasEntry (s.disk.slot r.parent i).cluster.toNat) :
    delete π s r = some (2, reloaded s r) := by
  obtain ⟨k, hfirst⟩ := Option.ne_none_iff_exists'.1 (mt (firstEntry_eq_none hr).1 (not_not_intro hk))
  rw [delete_eq hp, deleteLoaded_hasEntry (reloaded_dirTableBuf s r) hf hc hs hfirst]

end BebasOs.Fat32
