/-
The two names each directory has of itself. Slot 0 carries the name the directory is listed under and slot 1 the name
`..`, both are searched before the entries, and so they mean the directory itself and the one above it wherever a
request looks a name up.
-/
import BebasOs.Fat32.Volume

namespace BebasOs.Fat32

open Bytes Links Search Disk FileTree

theorem FAT32DirectoryEntry.hasName_eq_key {e : FAT32DirectoryEntry} {k : Key} :
    e.hasName k.1 k.2 = true ↔ e.key = k := by
  rw [FAT32DirectoryEntry.hasName_iff]
  exact (Prod.ext_iff (x := e.key) (y := k)).symm

theorem isFolder_dotDotEntry {e : FAT32DirectoryEntry} (h : e.IsFolder) : (dotDotEntry e).IsFolder := h

theorem dotDotEntry_key {e : FAT32DirectoryEntry} (h : e.ext = Vector.replicate 3 0) : (dotDotEntry e).key = upKey := by
  rw [upKey, ← h, ← dotDotEntry_name e]
  rfl

namespace Disk

variable {π : Platform} {d d' : Disk} {p q i j : ℕ} {e : FAT32DirectoryEntry} {l cs : List ℕ} {k : Key}
  {ks ls : List Key}

/-- What the special slots of the live directories are called, and that no entry is called so. -/
structure Keyed (π : Platform) (d : Disk) : Prop where
  folder : ∀ p, d.LiveDir p → ∀ i < 2, (d.slot p i).IsFolder
  root : (d.slot 2 0).key = ownKey π []
  own : ∀ p i, d.LiveEntry p i → (d.slot p i).IsFolder →
    (d.slot (d.slot p i).cluster.toNat 0).key = (d.slot p i).key
  ext : ∀ p, d.LiveDir p → (d.slot p 0).ext = Vector.replicate 3 0
  up : ∀ p, d.LiveDir p → (d.slot p 1).key = upKey
  distinct : ∀ p i, d.LiveEntry p i → ∀ i' < 2, (d.slot p i).key ≠ (d.slot p i').key
  /-- A file is never one that `read` takes for a folder. -/
  plain : ∀ p i, d.LiveFile p i → (d.slot p i).attributeByte ≠ 1

namespace Keyed

theorem inserted (hk : d.Keyed π) (hd : d.Grounded) (h : d.Inserted d' p j e cs)
    (hx : e.IsFolder → e.ext = Vector.replicate 3 0) (ha : ¬ e.IsFolder → e.attributeByte ≠ 1)
    (hne : ∀ i < 2, e.key ≠ (d.slot p i).key) : d'.Keyed π := by
  have old {q : ℕ} (hq : d.LiveDir q) {i : ℕ} (hi : i < 2) : d'.slot q i = d.slot q i := h.slot_special hd hq hi
  have dir {q i : ℕ} (he : d.LiveEntry q i) (hf : (d.slot q i).IsFolder) : d.LiveDir (d.slot q i).cluster.toNat :=
    he.dir.tail ⟨i, he.lo, he.hi, he.live, hf, rfl⟩
  refine ⟨fun q hq i hi => ?_, ?_, fun q i hq hf => ?_, fun q hq => ?_, fun q hq => ?_, fun q i hq i' hi' => ?_,
    fun q i hq => ?_⟩
  · rcases (h.liveDir_iff hd).1 hq with hq | ⟨hf, rfl⟩
    · rw [old hq hi]
      exact hk.folder q hq i hi
    · obtain rfl | rfl : i = 0 ∨ i = 1 := by omega
      · rw [h.slot_folder_zero hf]
        exact hf
      · rw [h.slot_folder_one hf]
        exact isFolder_dotDotEntry (hk.folder p h.dir 0 (by omega))
  · rw [old d.liveDir_root (by omega)]
    exact hk.root
  · rcases (h.liveEntry_iff hd).1 hq with hq | ⟨rfl, rfl⟩
    · rw [h.slot_old hd hq] at hf ⊢
      rw [old (dir hq hf) (by omega)]
      exact hk.own q i hq hf
    · rw [h.slot_new hd] at hf ⊢
      rw [h.slot_folder_zero hf]
  · rcases (h.liveDir_iff hd).1 hq with hq | ⟨hf, rfl⟩
    · rw [old hq (by omega)]
      exact hk.ext q hq
    · rw [h.slot_folder_zero hf]
      exact hx hf
  · rcases (h.liveDir_iff hd).1 hq with hq | ⟨hf, rfl⟩
    · rw [old hq (by omega)]
      exact hk.up q hq
    · rw [h.slot_folder_one hf]
      exact dotDotEntry_key (hk.ext p h.dir)
  · rcases (h.liveEntry_iff hd).1 hq with hq | ⟨rfl, rfl⟩
    · rw [h.slot_old hd hq, old hq.dir hi']
      exact hk.distinct q i hq i' hi'
    · rw [h.slot_new hd, old h.dir hi']
      exact hne i' hi'
  · rcases (h.liveEntry_iff hd).1 hq.toLiveEntry with he | ⟨rfl, rfl⟩
    · have hfile := hq.file
      rw [h.slot_old hd he] at hfile ⊢
      exact hk.plain q i ⟨he, hfile⟩
    · have hfile := hq.file
      rw [h.slot_new hd] at hfile ⊢
      exact ha hfile

theorem removed (hk : d.Keyed π) (hd : d.Sound) (h : d.Removed d' p j l) : d'.Keyed π := by
  have hlo := h.entry.lo
  have live {q : ℕ} (hq : d'.LiveDir q) : d.LiveDir q := ((h.liveDir_iff hd).1 hq).1
  have old {q : ℕ} (hq : d'.LiveDir q) {i : ℕ} (hi : i < 2) : d'.slot q i = d.slot q i := by
    obtain ⟨h1, h2⟩ := (h.liveDir_iff hd).1 hq
    rw [h.slot_eq hd h1 fun hf he => h2 ⟨hf, he⟩, if_neg (by omega)]
  have entry {q i : ℕ} (hq : d'.LiveEntry q i) : d.LiveEntry q i ∧ d'.slot q i = d.slot q i := by
    obtain ⟨h1, h2⟩ := (h.liveEntry_iff hd).1 hq
    exact ⟨h1, h.slot_old hd h1 h2⟩
  refine ⟨fun q hq i hi => ?_, ?_, fun q i hq hf => ?_, fun q hq => ?_, fun q hq => ?_, fun q i hq i' hi' => ?_,
    fun q i hq => ?_⟩
  · rw [old hq hi]
    exact hk.folder q (live hq) i hi
  · rw [old d'.liveDir_root (by omega)]
    exact hk.root
  · rw [old (hq.dir.tail ⟨i, hq.lo, hq.hi, hq.live, hf, rfl⟩) (by omega)]
    obtain ⟨he, hslot⟩ := entry hq
    rw [hslot] at hf ⊢
    exact hk.own q i he hf
  · rw [old hq (by omega)]
    exact hk.ext q (live hq)
  · rw [old hq (by omega)]
    exact hk.up q (live hq)
  · rw [(entry hq).2, old hq.dir hi']
    exact hk.distinct q i (entry hq).1 i' hi'
  · obtain ⟨he, hslot⟩ := entry hq.toLiveEntry
    have hfile := hq.file
    rw [hslot] at hfile ⊢
    exact hk.plain q i ⟨he, hfile⟩

/-- Slot 0 has the name at the end of the path. -/
theorem own_key (hk : d.Keyed π) (hp : d.dirAt ks = some p) : (d.slot p 0).key = ownKey π ks := by
  match ks with
  | [] =>
    rw [← Option.some.inj hp]
    exact hk.root
  | k :: ks =>
    obtain ⟨q, i, hq, hi, hf, rfl⟩ := exists_of_dirAt_cons hp
    obtain ⟨he, hkey⟩ := find_some hi (liveDir_of_dirAt hq)
    exact (hk.own q i he hf).trans hkey

end Keyed

/-- Slot 1 leads to the path without its end. -/
theorem Tree.dirAt_up (ht : d.Tree) (hd : d.Sound) (hp : d.dirAt ks = some p) : d.dirAt ks.tail = some (d.up p) := by
  match ks with
  | [] =>
    rw [← Option.some.inj hp, up, ht.root]
    rfl
  | k :: ks =>
    obtain ⟨q, i, hq, hi, hf, hc⟩ := exists_of_dirAt_cons hp
    obtain ⟨he, -⟩ := find_some hi (liveDir_of_dirAt hq)
    rw [List.tail_cons, hq, ht.up_of_lists hd he.dir ⟨i, he.lo, he.hi, he.live, hf, hc⟩]

/-! ## Looking a name up -/

/-- Where a look-up of a name in the directory `p` ends on the disk, and where on the volume. -/
inductive Leads (π : Platform) (d : Disk) (ks : List Key) (p : ℕ) (k : Key) : Option ℕ → Option (List Key) → Prop
  | own (h : k = ownKey π ks) : Leads π d ks p k (some 0) (some ks)
  | up (h : k = upKey) : Leads π d ks p k (some 1) (some ks.tail)
  | entry {i : ℕ} (hown : k ≠ ownKey π ks) (he : d.LiveEntry p i) (hk : (d.slot p i).key = k) :
      Leads π d ks p k (some i) (some (k :: ks))
  | nothing : Leads π d ks p k none none

/-- A name is found on the disk where it leads somewhere on the volume. -/
theorem Leads.none_iff {o : Option ℕ} {o' : Option (List Key)} (h : Leads π d ks p k o o') : o = none ↔ o' = none := by
  cases h with
  | nothing => exact iff_of_true rfl rfl
  | own | up | entry => simp

theorem Keyed.leads (hk : d.Keyed π) (hd : d.Sound) (hp : d.dirAt ks = some p) (hn : k.1 ≠ Vector.replicate 8 0) :
    Leads π d ks p k (findEntry (d.table p) k.1 k.2) ((volumeOf d).resolve π ks k) := by
  have hlive := liveDir_of_dirAt hp
  have h0 : (d.slot p 0).key = ownKey π ks := hk.own_key hp
  have h1 : (d.slot p 1).key = upKey := hk.up p hlive
  have htest (i : ℕ) : (cell (d.table p) i).hasName k.1 k.2 = true ↔ (d.slot p i).key = k :=
    FAT32DirectoryEntry.hasName_eq_key
  by_cases hown : k = ownKey π ks
  · have hf : findEntry (d.table p) k.1 k.2 = some 0 :=
      first_eq_some.2 ⟨Nat.le_refl 0, by omega, (htest 0).2 (h0.trans hown.symm), fun x _ hx => absurd hx (by omega)⟩
    rw [hf, Volume.resolve, if_pos hown]
    exact .own hown
  have hno0 : (cell (d.table p) 0).hasName k.1 k.2 = false :=
    Bool.eq_false_iff.2 fun hc => hown (((htest 0).1 hc).symm.trans h0)
  by_cases hup : k = upKey
  · have hf : findEntry (d.table p) k.1 k.2 = some 1 := by
      refine first_eq_some.2 ⟨by omega, by omega, (htest 1).2 (h1.trans hup.symm), fun x _ hx => ?_⟩
      obtain rfl : x = 0 := by omega
      exact hno0
    rw [hf, Volume.resolve, if_neg hown, if_pos hup]
    exact .up hup
  -- neither special slot has the name, and unused slots have none
  have hfind : findEntry (d.table p) k.1 k.2 = d.find p k := by
    unfold findEntry Disk.find
    rw [first_skip (show 0 ≤ 2 by omega) fun x _ hx => ?_]
    · refine first_congr fun x _ hx => ?_
      rw [Bool.eq_iff_iff, htest, decide_eq_true_iff]
      refine ⟨fun h => ⟨?_, h⟩, fun h => h.2⟩
      by_contra hfree
      rw [show d.slot p x = default from (hd.shape p hlive).unused x hx hfree] at h
      exact hn ((congrArg Prod.fst h).symm.trans (by decide))
    · obtain rfl | rfl : x = 0 ∨ x = 1 := by omega
      · exact hno0
      · exact Bool.eq_false_iff.2 fun hc => hup (((htest 1).1 hc).symm.trans h1)
  rw [hfind, Volume.resolve, if_neg hown, if_neg hup]
  have hnode : (volumeOf d).tree.node (k :: ks) = (d.entryIn (some p) k).map d.nodeOf := by
    rw [← hp]
    rfl
  rcases hf : d.find p k with _ | i
  · rw [hnode, entryIn_eq_none.2 hf]
    exact .nothing
  · obtain ⟨he, hkey⟩ := find_some hf hlive
    rw [hnode, entryIn_eq_some.2 ⟨i, hf, rfl⟩]
    exact .entry hown he hkey

end Disk

end BebasOs.Fat32
