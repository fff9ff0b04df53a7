/-
Two writes under different names commute. The order decides which slot and which clusters each of them
gets, and nothing else: if one order serves both requests so does the other, each entry is found with
its type, its size and its bytes, and the files that were there read as before.
-/
import BebasOs.Fat32.Isolation
import BebasOs.Fat32.Read

namespace BebasOs.Fat32

open Bytes Links Search Disk Relation

variable {π : Platform} {s s' t : Machine} {q r r₁ r₂ : FAT32DriverRequest} {d : Disk} {i j k c : ℕ}

/-! ## Requests side by side -/

/-- A request under a name, for a folder without an extension, in a live directory with a free slot. -/
structure Placed (d : Disk) (r : FAT32DriverRequest) : Prop where
  live : d.LiveDir r.parent
  named : Named r
  ext : r.bufferSize = 0 → r.ext = Vector.replicate 3 0
  slot : d.HasFreeSlot r.parent

/-- Directory `p` has two free slots. -/
def Disk.HasTwoFreeSlots (d : Disk) (p : ℕ) : Prop :=
  ∃ i k, 2 ≤ i ∧ i < k ∧ k < 64 ∧ ¬ (d.slot p i).Live ∧ ¬ (d.slot p k).Live

/-- Two requests name the same entry. -/
structure SameEntry (q r : FAT32DriverRequest) : Prop where
  parent : q.parentClusterNumber = r.parentClusterNumber
  name : q.name = r.name
  ext : q.ext = r.ext

theorem SameEntry.symm (h : SameEntry q r) : SameEntry r q := ⟨h.parent.symm, h.name.symm, h.ext.symm⟩

theorem SameEntry.parent_eq (h : SameEntry q r) : q.parent = r.parent := congrArg UInt32.toNat h.parent

theorem SameEntry.resolves (h : SameEntry q r) (hr : Resolves d r i) : Resolves d q i := by
  unfold Resolves
  rw [h.parent_eq, h.name, h.ext]
  exact hr

theorem Placed.newExt (h : Placed d r) : newExt r = r.ext := by
  unfold Fat32.newExt
  split
  · exact (h.ext ‹_›).symm
  · rfl

theorem Formatted.hasTwoFreeSlots (h : Formatted π d s) : s.disk.HasTwoFreeSlots 2 := by
  refine ⟨2, 3, by omega, by omega, by omega, ?_, ?_⟩
  · rw [h.slot_of_ge (by omega)]; exact FAT32DirectoryEntry.not_live_default
  · rw [h.slot_of_ge (by omega)]; exact FAT32DirectoryEntry.not_live_default

/-! ## After the first write -/

namespace Stored

variable (h : Stored s r j c s') (hd : s.disk.Sound) (hr : Placed s.disk r)
include h hd hr

theorem inserted_of_placed : s.disk.Inserted s'.disk r.parent j (newEntry r c) (taken s.disk r) :=
  h.inserted hd.grounded hr.live (h.slot_hi_of_free hr.slot)

/-- The free clusters get fewer by those that were taken. -/
theorem freeClusters_length :
    (freeClusters s'.disk.fat).length + needed r = (freeClusters s.disk.fat).length := by
  have hi := h.inserted_of_placed hd hr
  have hperm : (freeClusters s'.disk.fat ++ taken s.disk r).Perm (freeClusters s.disk.fat) := by
    refine (List.perm_ext_iff_of_nodup ?_ (freeClusters_nodup _)).2 fun x => ?_
    · refine List.nodup_append'.2 ⟨freeClusters_nodup _, taken_nodup _ _, fun x hx hm => ?_⟩
      exact hi.owns.used x hm (mem_freeClusters.1 hx).2.2
    · rw [List.mem_append, mem_freeClusters, mem_freeClusters]
      by_cases hm : x ∈ taken s.disk r
      · exact iff_of_true (.inr hm) (mem_taken hm)
      · rw [hi.fat x hm]
        simp only [hm, or_false]
  rw [← hperm.length_eq, List.length_append, taken_length h.room]

/-- One of two free slots stays free. -/
theorem placed (hq : Placed s.disk q) (h2 : s.disk.HasTwoFreeSlots q.parent) : Placed s'.disk q := by
  have hi := h.inserted_of_placed hd hr
  have hslot := hi.slot_eq hd.grounded hq.live
  obtain ⟨i, k, h1, h2, h3, h4, h5⟩ := h2
  refine ⟨hi.liveDir_mono hd.grounded hq.live, hq.named, hq.ext, ?_⟩
  by_cases hi : q.parent = r.parent ∧ i = j
  · refine ⟨k, by omega, h3, ?_⟩
    rw [hslot, if_neg (by omega)]
    exact h5
  · refine ⟨i, h1, by omega, ?_⟩
    rw [hslot, if_neg hi]
    exact h4

/-- A look-up of another name answers as before. -/
theorem findEntry_other (hq : s.disk.LiveDir q.parent) (hn : Named q) (hne : ¬ SameEntry q r) :
    findEntry (s'.disk.table q.parent) q.name q.ext = findEntry (s.disk.table q.parent) q.name q.ext := by
  have hi := h.inserted_of_placed hd hr
  by_cases hp : q.parent = r.parent
  · have hdef : s.disk.slot r.parent j = default := (hd.shape _ hr.live).unused j hi.hi hi.free
    rw [hp, hi.table]
    refine findEntry_store_other hi.hi ?_ ?_
    · rw [Bool.eq_false_iff, ne_eq, FAT32DirectoryEntry.hasName_iff, newEntry_name, newEntry_ext, hr.newExt]
      rintro ⟨h1, h2⟩
      exact hne ⟨UInt32.toNat_inj.1 hp, h1.symm, h2.symm⟩
    · rw [show cell (s.disk.table r.parent) j = default from hdef, Bool.eq_false_iff, ne_eq,
        FAT32DirectoryEntry.hasName_iff]
      rintro ⟨h1, -⟩
      exact hn (h1.symm.trans (by decide))
  · rw [hi.table_other hd.grounded hq hp]

/-- A request that resolves to a live entry still does. -/
theorem resolves_old (he : s.disk.LiveEntry q.parent i) (hq : Resolves s.disk q i) : Resolves s'.disk q i := by
  have hi := h.inserted_of_placed hd hr
  unfold Resolves at hq ⊢
  by_cases hp : q.parent = r.parent
  · rw [hp] at he hq ⊢
    rw [hi.table]
    refine findEntry_store_found hq hi.hi ?_ ?_
    · rintro rfl
      exact hi.free he.live
    · rw [Bool.eq_false_iff, ne_eq, FAT32DirectoryEntry.hasName_iff, newEntry_name, newEntry_ext, hr.newExt]
      rintro ⟨h1, h2⟩
      rw [← h1, ← h2, h.unmatched] at hq
      cases hq
  · rw [hi.table_other hd.grounded he.dir hp]; exact hq

/-- With room for both requests, the second is served after the first. -/
theorem write_next (hq : Placed s.disk q) (h2 : s.disk.HasTwoFreeSlots q.parent) (hne : ¬ SameEntry q r)
    (hu : findEntry (s.disk.table q.parent) q.name q.ext = none)
    (hn : needed r + needed q ≤ (freeClusters s.disk.fat).length) :
    ∃ k c t, write π s' q = some (0, t) ∧ Stored s' q k c t ∧ Placed s'.disk q := by
  have hlen := h.freeClusters_length hd hr
  have hq' := h.placed hd hr hq h2
  obtain ⟨k, c, ha⟩ := exists_accepted ((h.findEntry_other hd hr hq.live hq.named hne).trans hu) (by omega) hq'.slot
  obtain ⟨t, hw, ht⟩ := ha.write (π := π) ((h.inserted_of_placed hd hr).sound hd).grounded hq'.live
  exact ⟨k, c, t, hw, ht, hq'⟩

end Stored

/-- On a new disk the second entry of the root gets the slot after the first. -/
theorem second_slot {s₀ s₁ : Machine} {c c' : ℕ} (hf : Formatted π d s₀) (st : Stored s₀ r 2 c s₁) (hr : r.parent = 2)
    (hq : q.parent = 2) (ha : Accepted s₁ q k c') (hk : k < 64) : k = 3 := by
  have hd := hf.wellFormed.toSound.grounded
  have hp : s₀.disk.LiveDir r.parent := by
    rw [hr]
    exact s₀.disk.liveDir_root
  have hi := st.inserted hd hp (by omega)
  have hq' : s₁.disk.LiveDir q.parent := by
    rw [hq]
    exact s₁.disk.liveDir_root
  have hlo := ha.slot_lo (hi.grounded hd) hq'
  have h2 : s₁.disk.LiveEntry r.parent 2 := st.liveEntry hd hp (by omega)
  have h3 : s₁.disk.slot 2 3 = default := st.slot_unused hf hr (Nat.le_refl 3)
  have hne : k ≠ 2 := by
    rintro rfl
    have hfree := ha.slot_free hk
    rw [hq] at hfree
    have hlive := h2.live
    rw [hr] at hlive
    exact hfree hlive
  have hle : ¬ 3 < k := by
    intro hgt
    have hlive := ha.slot_before hgt (by omega)
    rw [hq, h3] at hlive
    exact FAT32DirectoryEntry.not_live_default hlive
  omega

/-! ## Two entries on a new disk -/

/-- On a new disk the folder `b` has been made, and then the entry of a request for the root, in the slot after it. -/
structure Second (q : FAT32DriverRequest) (s₀ s₁ s₂ : Machine) (c : ℕ) : Prop where
  formatted : Formatted zeroPlatform zeroDisk s₀
  first : Stored s₀ folderB 2 3 s₁
  placed : Placed s₁.disk q
  second : Stored s₁ q 3 c s₂

theorem Formatted.placed_letter (h : Formatted π d s) {letter : UInt8} {size : UInt32} (h0 : letter ≠ 0) :
    Placed s.disk (letterRequest letter size) where
  live := s.disk.liveDir_root
  named he := h0 (congrArg (fun v : Vector UInt8 8 => v[0]) he)
  ext _ := rfl
  slot := h.hasFreeSlot

theorem Formatted.unmatched_letter (h : Formatted π d s) {letter : UInt8} {size : UInt32} (h0 : letter ≠ 0)
    (hdot : letter ≠ 46) (hr : letter ≠ 114) :
    findEntry (s.disk.table 2) (letterRequest letter size).name (letterRequest letter size).ext = none := by
  have hacc : Accepted s (letterRequest letter 0) 2 3 := h.accepted rfl (show 1 ≤ 509 by omega) (name_ne_rootName hr)
    (fun he => hdot (congrArg (fun v : Vector UInt8 8 => v[0]) he))
    fun he => h0 (congrArg (fun v : Vector UInt8 8 => v[0]) he)
  exact hacc.unmatched

theorem exists_second (letter : UInt8) (size : UInt32) (h0 : letter ≠ 0) (hdot : letter ≠ 46) (hr : letter ≠ 114)
    (hb : letter ≠ 98) (hn : needed (letterRequest letter size) ≤ 508) : ∃ s₀ s₁ s₂ c,
      createFat32 zeroPlatform (powerOn zeroDisk) = some s₀ ∧ write zeroPlatform s₀ folderB = some (0, s₁) ∧
        write zeroPlatform s₁ (letterRequest letter size) = some (0, s₂) ∧
        Second (letterRequest letter size) s₀ s₁ s₂ c := by
  obtain ⟨s₀, h₀, hf⟩ := createFat32_formatted zeroPlatform zeroDisk
  have hd := hf.wellFormed.toSound
  have hpb : Placed s₀.disk folderB := hf.placed_letter (by decide)
  obtain ⟨s₁, hw₁, st₁⟩ := (folderB_accepted hf).write (π := zeroPlatform) hd.grounded hpb.live
  have hpl : Placed s₀.disk (letterRequest letter size) := hf.placed_letter h0
  obtain ⟨k, c, s₂, hw₂, st₂, hq⟩ := st₁.write_next (π := zeroPlatform) hd hpb hpl hf.hasTwoFreeSlots
    (fun h => hb (congrArg (fun v : Vector UInt8 8 => v[0]) h.name)) (hf.unmatched_letter h0 hdot hr) (by
      rw [hf.freeClusters, List.length_range', show needed folderB = 1 from rfl]
      omega)
  obtain rfl := second_slot hf st₁ rfl rfl st₂.toAccepted (st₂.slot_hi_of_free hq.slot)
  exact ⟨s₀, s₁, s₂, c, h₀, hw₁, hw₂, hf, st₁, hq, st₂⟩

/-! ## What a machine holds -/

/-- A machine holds the entry of a request in slot `i`: with its name, type and size, and a file with its
bytes. -/
structure Holds (s : Machine) (r : FAT32DriverRequest) (i : ℕ) : Prop where
  entry : s.disk.LiveEntry r.parent i
  resolves : Resolves s.disk r i
  attributeByte : (s.disk.slot r.parent i).attributeByte = if r.bufferSize = 0 then attrSubdirectory else 0
  size : (s.disk.slot r.parent i).filesize = r.bufferSize
  bytes : r.bufferSize ≠ 0 → s.disk.fileBytes (s.disk.slot r.parent i) = bufferBytes r

theorem Holds.isFolder (h : Holds s r i) : (s.disk.slot r.parent i).IsFolder ↔ r.bufferSize = 0 := by
  unfold FAT32DirectoryEntry.IsFolder
  rw [h.attributeByte]
  split
  · exact iff_of_true rfl ‹_›
  · exact iff_of_false (by decide) ‹_›

theorem Holds.liveFile (h : Holds s r i) (hb : r.bufferSize ≠ 0) : s.disk.LiveFile r.parent i :=
  ⟨h.entry, mt h.isFolder.1 hb⟩

/-- The entry that was just stored. -/
theorem Stored.holds (h : Stored s r j c s') (hd : s.disk.Sound) (hr : Placed s.disk r) : Holds s' r j := by
  have hj := h.slot_hi_of_free hr.slot
  have hslot := h.slot_new hd.grounded hr.live hj
  refine ⟨h.liveEntry hd.grounded hr.live hj, h.resolves hd.grounded hr.live hj rfl rfl rfl hr.newExt, ?_,
    ?_, fun hb => ?_⟩
  · rw [hslot, newEntry_attribute]
  · rw [hslot, newEntry_filesize]
  · rw [hslot, h.bytes hd.grounded hr.live hb]

/-- An entry stays when another is stored. -/
theorem Holds.stored (hs : Holds s q i) (h : Stored s r j c s') (hd : s.disk.Sound) (hr : Placed s.disk r) :
    Holds s' q i := by
  have hi := h.inserted_of_placed hd hr
  have hslot := hi.slot_old hd.grounded hs.entry
  refine ⟨(hi.liveEntry_iff hd.grounded).2 (.inl hs.entry), h.resolves_old hd hr hs.entry hs.resolves, ?_,
    ?_, fun hb => ?_⟩
  · rw [hslot]; exact hs.attributeByte
  · rw [hslot]; exact hs.size
  · rw [hslot, (h.sameFile hd hr.live (hs.liveFile hb)).bytes]
    exact hs.bytes hb

/-! ## Both orders -/

/-- Two machines show the same entry to a request, in slot `i` of one and slot `k` of the other: of one
type and size, and, for a file, read alike. -/
structure SeenAlike (π : Platform) (s t : Machine) (q : FAT32DriverRequest) (i k : ℕ) : Prop where
  resolves : Resolves s.disk q i ∧ Resolves t.disk q k
  entries : s.disk.LiveEntry q.parent i ∧ t.disk.LiveEntry q.parent k
  type : (s.disk.slot q.parent i).IsFolder ↔ (t.disk.slot q.parent k).IsFolder
  size : (s.disk.slot q.parent i).filesize = (t.disk.slot q.parent k).filesize
  alike : ¬ (s.disk.slot q.parent i).IsFolder → (read π s q).code = (read π t q).code ∧
    ∀ a < (s.disk.slot q.parent i).filesize.toNat, (read π s q).buf a = (read π t q).buf a

/-- `t` is `s` after two requests: it holds both entries and the files of `s`. -/
structure Both (s t : Machine) (r₁ r₂ : FAT32DriverRequest) : Prop where
  sound : t.disk.Sound
  coherent : Coherent t
  first : ∃ i, Holds t r₁ i
  second : ∃ i, Holds t r₂ i
  file : ∀ q i, s.disk.LiveFile q.parent i → Resolves s.disk q i →
    SameFile s.disk t.disk q.parent i ∧ Resolves t.disk q i

theorem both_of_stored {j₁ c₁ j₂ c₂ : ℕ} (hd : s.disk.Sound) (h₁ : Placed s.disk r₁) (h₂ : Placed s'.disk r₂)
    (st₁ : Stored s r₁ j₁ c₁ s') (st₂ : Stored s' r₂ j₂ c₂ t) : Both s t r₁ r₂ := by
  have hd' := (st₁.inserted_of_placed hd h₁).sound hd
  refine ⟨(st₂.inserted_of_placed hd' h₂).sound hd', coherent_of_eq (st₂.coherent hd'.grounded h₂.live),
    ⟨j₁, (st₁.holds hd h₁).stored st₂ hd' h₂⟩, ⟨j₂, st₂.holds hd' h₂⟩, fun q i hf hq => ?_⟩
  have hsame := st₁.sameFile hd h₁.live hf
  refine ⟨hsame.trans (st₂.sameFile hd' h₂.live hsame.live), ?_⟩
  exact st₂.resolves_old hd' h₂ hsame.live.toLiveEntry (st₁.resolves_old hd h₁ hf.toLiveEntry hq)

theorem Holds.seenAlike (h : Holds s r i) (h' : Holds t r k) (hs : s.disk.Sound) (ht : t.disk.Sound) (hc : Coherent s)
    (hc' : Coherent t) (hq : SameEntry q r) : SeenAlike π s t q i k := by
  have ha : (s.disk.slot q.parent i).attributeByte = (t.disk.slot q.parent k).attributeByte := by
    rw [hq.parent_eq, h.attributeByte, h'.attributeByte]
  have hz : (s.disk.slot q.parent i).filesize = (t.disk.slot q.parent k).filesize := by
    rw [hq.parent_eq, h.size, h'.size]
  have hr := hq.resolves h.resolves
  have hr' := hq.resolves h'.resolves
  refine ⟨⟨hr, hr'⟩, ⟨by rw [hq.parent_eq]; exact h.entry, by rw [hq.parent_eq]; exact h'.entry⟩, ?_, hz, fun hf => ?_⟩
  · unfold FAT32DirectoryEntry.IsFolder
    rw [ha]
  · rw [hq.parent_eq, h.isFolder] at hf
    refine read_alike hs ht hc hc' ?_ ?_ hr hr' ha hz ?_
    · rw [hq.parent_eq]; exact h.liveFile hf
    · rw [hq.parent_eq]; exact h'.liveFile hf
    · rw [hq.parent_eq, h.bytes hf, h'.bytes hf]

/-- A file that is the same on both disks as before is seen alike. -/
theorem SameFile.seenAlike (h : SameFile d s.disk q.parent i) (h' : SameFile d t.disk q.parent i) (hs : s.disk.Sound)
    (ht : t.disk.Sound) (hc : Coherent s) (hc' : Coherent t) (hr : Resolves s.disk q i) (hr' : Resolves t.disk q i) :
    SeenAlike π s t q i i := by
  have hslot : s.disk.slot q.parent i = t.disk.slot q.parent i := h.slot.trans h'.slot.symm
  refine ⟨⟨hr, hr'⟩, ⟨h.live.toLiveEntry, h'.live.toLiveEntry⟩, by rw [hslot], by rw [hslot], fun _ => ?_⟩
  refine read_alike hs ht hc hc' h.live h'.live hr hr' (by rw [hslot]) (by rw [hslot]) ?_
  rw [h.slot, h'.slot, h.bytes, h'.bytes]

/-- Both orders lead to machines that show the same. -/
theorem Both.seenAlike (h : Both s s' r₁ r₂) (h' : Both s t r₂ r₁) :
    (∀ q, SameEntry q r₁ ∨ SameEntry q r₂ → ∃ i k, SeenAlike π s' t q i k) ∧
      ∀ q i, s.disk.LiveFile q.parent i → Resolves s.disk q i → SeenAlike π s' t q i i := by
  refine ⟨fun q hq => ?_, fun q i hf hr => ?_⟩
  · rcases hq with hq | hq
    · obtain ⟨i, hi⟩ := h.first
      obtain ⟨k, hk⟩ := h'.second
      exact ⟨i, k, hi.seenAlike hk h.sound h'.sound h.coherent h'.coherent hq⟩
    · obtain ⟨i, hi⟩ := h.second
      obtain ⟨k, hk⟩ := h'.first
      exact ⟨i, k, hi.seenAlike hk h.sound h'.sound h.coherent h'.coherent hq⟩
  · obtain ⟨h1, h2⟩ := h.file q i hf hr
    obtain ⟨h3, h4⟩ := h'.file q i hf hr
    exact h1.seenAlike h3 h.sound h'.sound h.coherent h'.coherent h2 h4

/-- Two writes of different entries, served in one order, are served in the other; each entry is then found
with the same type and size, and each file, new or old, reads the same. -/
theorem write_commute {s₁ s₁₂ : Machine} (hd : s.disk.WellFormed) (h₁ : Placed s.disk r₁) (h₂ : Placed s.disk r₂)
    (hs₁ : s.disk.HasTwoFreeSlots r₁.parent) (hs₂ : s.disk.HasTwoFreeSlots r₂.parent) (hne : ¬ SameEntry r₁ r₂)
    (hw₁ : write π s r₁ = some (0, s₁)) (hw₂ : write π s₁ r₂ = some (0, s₁₂)) :
    ∃ s₂ s₂₁, write π s r₂ = some (0, s₂) ∧ write π s₂ r₁ = some (0, s₂₁) ∧
      (∀ q, SameEntry q r₁ ∨ SameEntry q r₂ → ∃ i k, SeenAlike π s₁₂ s₂₁ q i k) ∧
      ∀ q i, s.disk.LiveFile q.parent i → Resolves s.disk q i → SeenAlike π s₁₂ s₂₁ q i i := by
  have hd := hd.toSound
  have hne' : ¬ SameEntry r₂ r₁ := fun h => hne h.symm
  obtain ⟨j₁, c₁, st₁⟩ := stored_of_write hd.grounded h₁.live hw₁
  have hd₁ := (st₁.inserted_of_placed hd h₁).sound hd
  have h₂' := st₁.placed hd h₁ h₂ hs₂
  obtain ⟨j₂, c₂, st₁₂⟩ := stored_of_write hd₁.grounded h₂'.live hw₂
  -- there is room for both, whichever comes first
  have hroom : needed r₁ + needed r₂ ≤ (freeClusters s.disk.fat).length := by
    have hlen := st₁.freeClusters_length hd h₁
    have := st₁₂.room
    omega
  have hu : findEntry (s.disk.table r₂.parent) r₂.name r₂.ext = none :=
    (st₁.findEntry_other hd h₁ h₂.live h₂.named hne').symm.trans st₁₂.unmatched
  obtain ⟨k₂, e₂, a₂⟩ := exists_accepted hu (by omega) h₂.slot
  obtain ⟨s₂, hw₃, st₂⟩ := a₂.write (π := π) hd.grounded h₂.live
  obtain ⟨k₁, e₁, s₂₁, hw₄, st₂₁, h₁'⟩ := st₂.write_next (π := π) hd h₂ h₁ hs₁ hne st₁.unmatched (by omega)
  exact ⟨s₂, s₂₁, hw₃, hw₄, (both_of_stored hd h₁ h₂' st₁ st₁₂).seenAlike (both_of_stored hd h₂ h₁' st₂ st₂₁)⟩

theorem write_commute_fileA : ∃ s s₁ s₁₂ s₂ s₂₁, write zeroPlatform s fileA = some (0, s₁) ∧
    write zeroPlatform s₁ folderB = some (0, s₁₂) ∧ write zeroPlatform s folderB = some (0, s₂) ∧
    write zeroPlatform s₂ fileA = some (0, s₂₁) ∧ ∃ i k, SeenAlike zeroPlatform s₁₂ s₂₁ fileA i k := by
  obtain ⟨s, s₁, -, hf, hs, -⟩ := exists_holdsA
  have hd := hf.wellFormed.toSound
  have h₁ : Placed s.disk fileA := ⟨s.disk.liveDir_root, by decide, fun _ => rfl, hf.hasFreeSlot⟩
  have h₂ : Placed s.disk folderB := ⟨s.disk.liveDir_root, by decide, fun _ => rfl, hf.hasFreeSlot⟩
  have htwo : s.disk.HasTwoFreeSlots 2 := hf.hasTwoFreeSlots
  have hne : ¬ SameEntry fileA folderB := fun h => absurd h.name (by decide)
  obtain ⟨j, c, st⟩ := stored_of_write hd.grounded h₁.live hs
  obtain ⟨k, e, s₁₂, hw, -⟩ := st.write_next (π := zeroPlatform) hd h₁ h₂ htwo (fun h => hne h.symm)
    (folderB_accepted hf).unmatched (by rw [hf.freeClusters, List.length_range']; decide)
  obtain ⟨s₂, s₂₁, h3, h4, h5, -⟩ := write_commute hf.wellFormed h₁ h₂ htwo htwo hne hs hw
  exact ⟨s, s₁, s₁₂, s₂, s₂₁, hs, hw, h3, h4, h5 fileA (.inl ⟨rfl, rfl, rfl⟩)⟩

end BebasOs.Fat32
