/-
Files in full directories. The slot search of the file branch of `write` has no bound, unlike that of
the folder branch, and in a full directory it goes on into the cluster buffer: the request may then be
answered with 0 and no entry made.
-/
import BebasOs.Fat32.Refusal
import BebasOs.Fat32.Commute

namespace BebasOs.Fat32

open Bytes Links Search Disk

variable {π : Platform} {s s' : Machine} {r : FAT32DriverRequest} {d : Disk} {i j c k n : ℕ}

/-! ## The slots that are looked at -/

/-- The slots of the directory table that a write of a file uses. -/
inductive UsesSlot (s : Machine) (r : FAT32DriverRequest) (i : ℕ) : Prop
  /-- Slot 0 has the mark of a directory. -/
  | mark (hc : freeClusters s.disk.fat ≠ []) (hi : i = 0)
  /-- The name is compared with slot after slot. -/
  | compared (hc : freeClusters s.disk.fat ≠ []) (h0 : (s.disk.slot r.parent 0).Live) (hi : i < 64)
      (h : ∀ k < i, (s.disk.slot r.parent k).hasName r.name r.ext = false)
  /-- The search for a free slot goes on past the slots in use; the last one it comes to is stored to. -/
  | searched (hc : freeClusters s.disk.fat ≠ []) (h0 : (s.disk.slot r.parent 0).Live)
      (hf : findEntry (s.disk.table r.parent) r.name r.ext = none) (hi : i < 128)
      (h : ∀ k < i, seenAttribute s r k = uattrNotEmpty)

/-- A slot of the request's directory holds a live entry with its name and extension. -/
def Entered (d : Disk) (r : FAT32DriverRequest) : Prop :=
  ∃ i < 64, (d.slot r.parent i).Live ∧ (d.slot r.parent i).name = r.name ∧ (d.slot r.parent i).ext = r.ext

/-- A write of a file that answers 0 has entered it, it uses the 64 slots of the directory only, and when
they are all in use it is refused. -/
structure KeepsToSlots (π : Platform) (s : Machine) (r : FAT32DriverRequest) : Prop where
  entered : ∀ s', write π s r = some (0, s') → Entered s'.disk r
  bounds : ∀ i, UsesSlot s r i → i < 64
  full : (∀ i < 64, (s.disk.slot r.parent i).Live) → Refuses π s (.write r)

/-- The directory has a free slot, or the name is taken, or there is no free cluster. -/
inductive EndsEarly (d : Disk) (r : FAT32DriverRequest) : Prop
  | freeSlot (h : d.HasFreeSlot r.parent)
  | taken (i : ℕ) (h : Resolves d r i)
  | noCluster (h : freeClusters d.fat = [])

theorem seenAttribute_eq (hp : r.parent < 512) (j : ℕ) : seenAttribute s r j = slotAttribute (loaded s r) j := by
  unfold seenAttribute
  rw [reload_eq (by omega)]

theorem hasFreeSlot_or_full (hd : d.Grounded) (hp : d.LiveDir r.parent) :
    d.HasFreeSlot r.parent ∨ ∀ i < 64, (d.slot r.parent i).Live := by
  by_cases h : d.HasFreeSlot r.parent
  · exact .inl h
  · refine .inr fun i hi => ?_
    by_contra hn
    have hshape := hd.shape _ hp
    rcases Nat.lt_or_ge i 2 with h2 | h2
    · obtain rfl | rfl : i = 0 ∨ i = 1 := by omega
      · exact hn hshape.self
      · exact hn hshape.parent
    · exact h ⟨i, h2, hi, hn⟩

/-! ## When a write keeps to the directory -/

/-- A write into a directory with a free slot enters the file there. -/
theorem entered_of_freeSlot (hd : s.disk.Grounded) (hp : s.disk.LiveDir r.parent) (hb : r.bufferSize ≠ 0)
    (hf : s.disk.HasFreeSlot r.parent) (hw : write π s r = some (0, s')) : Entered s'.disk r := by
  obtain ⟨j, c, h⟩ := stored_of_write hd hp hw
  have hj := h.slot_hi_of_free hf
  refine ⟨j, hj, (h.liveEntry hd hp hj).live, ?_⟩
  rw [h.slot_new hd hp hj]
  exact ⟨newEntry_name r c, (newEntry_ext r c).trans (newExt_file hb)⟩

theorem not_served_of_refuses (h : Refuses π s (.write r)) (hw : write π s r = some (0, s')) : False := by
  obtain ⟨code, t, ht, hc, -⟩ := h
  rw [show perform π s (.write r) = write π s r from rfl, hw] at ht
  cases ht
  exact hc rfl

/-- The slots stay below 64 exactly where the search is not reached or finds a slot. -/
theorem usesSlot_lt_iff (hd : s.disk.Grounded) (hp : s.disk.LiveDir r.parent) :
    (∀ i, UsesSlot s r i → i < 64) ↔ EndsEarly s.disk r := by
  have hp' := (hd.range _ hp).2
  constructor
  · intro h
    by_contra hend
    have hfull : ∀ i < 64, (s.disk.slot r.parent i).Live :=
      (hasFreeSlot_or_full hd hp).resolve_left fun hs => hend (.freeSlot hs)
    have hf : findEntry (s.disk.table r.parent) r.name r.ext = none :=
      Option.eq_none_iff_forall_ne_some.2 fun i hi => hend (.taken i hi)
    refine absurd (h 64 (.searched (fun hc => hend (.noCluster hc)) (hd.shape _ hp).self hf (by omega) fun k hk => ?_))
      (Nat.lt_irrefl 64)
    rw [seenAttribute_eq hp', slotAttribute_loaded hk]
    exact hfull k hk
  · rintro h i (⟨-, rfl⟩ | ⟨-, -, hi, -⟩ | ⟨hc, -, hf, -, hseen⟩)
    · omega
    · exact hi
    · cases h with
      | freeSlot h =>
        obtain ⟨k, -, hk, hn⟩ := h
        by_contra hge
        have := hseen k (by omega)
        rw [seenAttribute_eq hp', slotAttribute_loaded hk] at this
        exact hn this
      | taken j h =>
        rw [Resolves, hf] at h
        cases h
      | noCluster h => exact absurd h hc

/-- A file write keeps to the slots of its directory if and only if the directory has a free slot, or the
request ends before it looks for one: because the name is taken or no cluster is free. -/
theorem keepsToSlots_iff (hd : s.disk.WellFormed) (hp : s.disk.LiveDir r.parent) (hb : r.bufferSize ≠ 0) :
    KeepsToSlots π s r ↔ EndsEarly s.disk r := by
  have hg := hd.toSound.grounded
  have hplace := place_parent (hg.range _ hp).2
  constructor
  · exact fun h => (usesSlot_lt_iff hg hp).1 h.bounds
  · intro h
    have hbounds := (usesSlot_lt_iff hg hp).2 h
    cases h with
    | freeSlot h =>
      refine ⟨fun s' => entered_of_freeSlot hg hp hb h, hbounds, fun hfull => ?_⟩
      obtain ⟨k, -, hk, hn⟩ := h
      exact absurd (hfull k hk) hn
    | taken i h =>
      have hr : Refuses π s (.write r) := write_refuses_iff.2 (.taken (by
        rw [hplace, h]
        exact Option.some_ne_none i))
      exact ⟨fun s' hw => (not_served_of_refuses hr hw).elim, hbounds, fun _ => hr⟩
    | noCluster h =>
      have hr : Refuses π s (.write r) := write_refuses_iff.2 (.noCluster h)
      exact ⟨fun s' hw => (not_served_of_refuses hr hw).elim, hbounds, fun _ => hr⟩

/-- The file `a` on a new disk. -/
theorem keepsToSlots_fileA : ∃ s : Machine, s.disk.WellFormed ∧ KeepsToSlots zeroPlatform s fileA := by
  obtain ⟨s, -, hf⟩ := createFat32_formatted zeroPlatform zeroDisk
  exact ⟨s, hf.wellFormed, (keepsToSlots_iff (r := fileA) hf.wellFormed s.disk.liveDir_root (by decide)).2
    (.freeSlot hf.hasFreeSlot)⟩

/-! ## A full directory -/

/-- The sample files that fill the root: one byte each, with the letters from 128 on. -/
def filler (n : ℕ) : FAT32DriverRequest := letterRequest (UInt8.ofNat (128 + n)) 1

/-- The root of `d` has the first `n` of them, in its first slots. -/
structure Filling (d : Disk) (n : ℕ) : Prop where
  wellFormed : d.WellFormed
  live : ∀ i < 64, (d.slot 2 i).Live ↔ i < n + 2
  names : ∀ i < n + 2, i < 64 → (d.slot 2 i).name = rootName zeroPlatform ∨ (d.slot 2 i).name = dotDot ∨
    ∃ m < n, (d.slot 2 i).name = (filler m).name
  room : (freeClusters d.fat).length + n = 509

theorem Formatted.filling (h : Formatted zeroPlatform d s) : Filling s.disk 0 where
  wellFormed := h.wellFormed
  live i _ := by
    rcases Nat.lt_or_ge i 2 with hi | hi
    · obtain rfl | rfl : i = 0 ∨ i = 1 := by omega
      · rw [h.slot_zero]
        exact iff_of_true rfl (by omega)
      · rw [h.slot_one]
        exact iff_of_true rfl (by omega)
    · rw [h.slot_of_ge hi]
      exact iff_of_false FAT32DirectoryEntry.not_live_default (by omega)
  names i hi _ := by
    obtain rfl | rfl : i = 0 ∨ i = 1 := by omega
    · rw [h.slot_zero]
      exact .inl rfl
    · rw [h.slot_one]
      exact .inr (.inl rfl)
  room := by rw [h.freeClusters, List.length_range']

theorem letter_name_ne {a b : UInt8} (h : a ≠ b) (m k : UInt32) : (letterRequest a m).name ≠ (letterRequest b k).name :=
  fun he => h (congrArg (fun v : Vector UInt8 8 => v[0]) he)

theorem filler_letter_toNat (hn : n < 64) : (UInt8.ofNat (128 + n)).toNat = 128 + n := by
  rw [UInt8.toNat_ofNat']
  omega

theorem filler_letter_ne (hn : n < 64) {b : UInt8} (hb : b.toNat < 128 + n) : UInt8.ofNat (128 + n) ≠ b := fun he => by
  have := filler_letter_toNat hn
  rw [he] at this
  omega

/-- A letter that is not in the root yet names no entry of it. -/
theorem Filling.unmatched (h : Filling d n) {letter : UInt8} (m : UInt32) (hr : letter ≠ 114)
    (hd : letter ≠ 46) (hz : letter ≠ 0) (hl : ∀ k < n, letter ≠ UInt8.ofNat (128 + k)) :
    findEntry (d.table 2) (letterRequest letter m).name (letterRequest letter m).ext = none := by
  refine first_eq_none.2 fun i _ hi => ?_
  rw [Bool.eq_false_iff, ne_eq, FAT32DirectoryEntry.hasName_iff]
  rintro ⟨hname, -⟩
  have hletter {v : Vector UInt8 8} (hv : (d.slot 2 i).name = v) : letter = v[0] :=
    congrArg (fun v : Vector UInt8 8 => v[0]) (hname.symm.trans hv)
  by_cases hin : i < n + 2
  · rcases h.names i hin hi with hv | hv | ⟨k, hk, hv⟩
    · exact hr ((hletter hv).trans (rootName_getElem _))
    · exact hd (hletter hv)
    · exact hl k hk (hletter hv)
  · have hunused : d.slot 2 i = default :=
      (h.wellFormed.shape 2 d.liveDir_root).unused i hi fun hlive => hin ((h.live i hi).1 hlive)
    exact hz (hletter (v := Vector.replicate 8 0) (by rw [hunused]; decide))

theorem Filling.hasFreeSlot (h : Filling d n) (hn : n < 62) : d.HasFreeSlot 2 :=
  ⟨n + 2, by omega, by omega, fun hl => Nat.lt_irrefl _ ((h.live (n + 2) (by omega)).1 hl)⟩

/-- The next slot in use is the one a write finds. -/
theorem Filling.slot_eq (h : Filling s.disk n) (hn : n < 62) (hp : r.parent = 2) (ha : Accepted s r j c) (hj : j < 64) :
    j = n + 2 := by
  have hfree := ha.slot_free hj
  rw [hp, h.live j hj] at hfree
  by_contra hne
  have hbefore := ha.slot_before (i := n + 2) (by omega) (by omega)
  rw [hp, h.live (n + 2) (by omega)] at hbefore
  omega

theorem needed_filler (n : ℕ) : needed (filler n) = 1 := by
  have hsize : (filler n).bufferSize = 1 := rfl
  rw [needed_of_file (by rw [hsize]; decide), hsize]
  rfl

theorem Filling.filler_accepted (h : Filling s.disk n) (hn : n < 62) : ∃ c, Accepted s (filler n) (n + 2) c := by
  have hslot : s.disk.HasFreeSlot (filler n).parent := h.hasFreeSlot hn
  have hnone : findEntry (s.disk.table 2) (filler n).name (filler n).ext = none :=
    h.unmatched 1 (filler_letter_ne (by omega) (by simp; omega)) (filler_letter_ne (by omega) (by simp; omega))
      (filler_letter_ne (by omega) (by simp)) fun k hk =>
        filler_letter_ne (by omega) (by rw [filler_letter_toNat (by omega)]; omega)
  obtain ⟨j, c, hacc⟩ := exists_accepted (s := s) (r := filler n) hnone
    (by rw [needed_filler]; have := h.room; omega) hslot
  obtain rfl := h.slot_eq hn rfl hacc (hacc.slot_hi_of_free hslot)
  exact ⟨c, hacc⟩

/-- One more file. -/
theorem Stored.filling (hst : Stored s (filler n) (n + 2) c s') (h : Filling s.disk n) (hn : n < 62) :
    Filling s'.disk (n + 1) := by
  have hd := h.wellFormed.toSound
  have hp : s.disk.LiveDir (filler n).parent := s.disk.liveDir_root
  have hi := hst.inserted hd.grounded hp (by omega)
  have hslots (i : ℕ) : s'.disk.slot 2 i = if i = n + 2 then newEntry (filler n) c else s.disk.slot 2 i := by
    have hroot : s'.disk.slot 2 i = if 2 = 2 ∧ i = n + 2 then newEntry (filler n) c else s.disk.slot 2 i :=
      hi.slot_eq hd.grounded hp i
    simpa using hroot
  refine ⟨(hst.sameBoot hd.grounded hp).wellFormed h.wellFormed (hi.sound hd), fun i hi => ?_, fun i hi hi' => ?_, ?_⟩
  · rw [hslots]
    split
    · exact iff_of_true (newEntry_live _ _) (by omega)
    · rw [h.live i hi]
      omega
  · rw [hslots]
    split
    · exact .inr (.inr ⟨n, Nat.lt_succ_self n, newEntry_name _ _⟩)
    · rcases h.names i (by omega) hi' with hv | hv | ⟨k, hk, hv⟩
      · exact .inl hv
      · exact .inr (.inl hv)
      · exact .inr (.inr ⟨k, Nat.lt_succ_of_lt hk, hv⟩)
  · have hplaced : Placed s.disk (filler n) := ⟨hp, letter_name_ne (filler_letter_ne (b := 0) (by omega) (by simp)) 1 0,
      fun h0 => absurd (show (1 : UInt32) = 0 from h0) (by decide), h.hasFreeSlot hn⟩
    have hcount := hst.freeClusters_length hd hplaced
    rw [needed_filler] at hcount
    have hroom := h.room
    omega

/-- The root of a new disk, filled by 62 writes. -/
theorem exists_filling : ∀ n ≤ 62, ∃ s : Machine, Filling s.disk n
  | 0, _ => by
    obtain ⟨s, -, hf⟩ := createFat32_formatted zeroPlatform zeroDisk
    exact ⟨s, hf.filling⟩
  | n + 1, hn => by
    obtain ⟨s, hs⟩ := exists_filling n (by omega)
    obtain ⟨c, hacc⟩ := hs.filler_accepted (by omega)
    obtain ⟨s', -, hst⟩ := hacc.write (π := zeroPlatform) hs.wellFormed.toSound.grounded s.disk.liveDir_root
    exact ⟨s', hst.filling hs (by omega)⟩

/-- A file more, on a machine whose cluster buffer is zero: the search takes slot 64, in that buffer. -/
theorem Filling.accepted (h : Filling d 62) : ∃ c, Accepted (powerOn d) fileA 64 c := by
  have hfree : ∃ c, first (isEmptyEntry d.fat) 3 512 = some c := by
    refine Option.ne_none_iff_exists'.1 fun hc => ?_
    have hroom := h.room
    rw [freeClusters_eq_nil.2 hc] at hroom
    exact absurd hroom (by decide)
  obtain ⟨c, hc⟩ := hfree
  have hzero : slotAttribute (loaded (powerOn d) fileA) 64 = 0 := by
    unfold slotAttribute
    rw [if_neg (by omega)]
    show cell zeroCluster 12 = 0
    rw [cell_of_lt _ (by omega)]
    exact zeroCluster_getElem _
  refine ⟨c, h.unmatched 1 (by decide) (by decide) (by decide) (fun k hk he => ?_), hc, ?_, ?_⟩
  · exact filler_letter_ne (b := 97) (by omega) (by simp; omega) he.symm
  · have hroom := h.room
    rw [show needed fileA = 1 by decide]
    show 1 ≤ (freeClusters d.fat).length
    omega
  · refine first_eq_some.2 ⟨by omega, by decide, ?_, fun k _ hk => ?_⟩
    · rw [hzero]
      decide
    · rw [slotAttribute_loaded hk]
      exact bne_eq_false_iff_eq.2 ((h.live k hk).2 hk)

/-- The root is full, a file more is answered with 0, and it is nowhere in the root. -/
theorem write_past_full_root : ¬ ∀ (s : Machine) (r : FAT32DriverRequest), s.disk.WellFormed → s.disk.LiveDir r.parent →
    r.bufferSize ≠ 0 → KeepsToSlots zeroPlatform s r := by
  obtain ⟨s, h⟩ := exists_filling 62 (Nat.le_refl 62)
  obtain ⟨c, hacc⟩ := h.accepted
  have hg := h.wellFormed.toSound.grounded
  obtain ⟨s', hw, -⟩ := hacc.write (π := zeroPlatform) hg s.disk.liveDir_root
  intro hall
  have hkeeps := hall (powerOn s.disk) fileA h.wellFormed s.disk.liveDir_root (by decide)
  exact not_served_of_refuses (hkeeps.full fun i hi => (h.live i hi).2 hi) hw

end BebasOs.Fat32
