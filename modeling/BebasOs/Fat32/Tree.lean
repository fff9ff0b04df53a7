/-
The directory tree as the special slots record it: slot 0 of a live directory holds its own cluster,
slot 1 the cluster of the directory that lists it, and neither they nor folder entries have a size.
Every change to a sound disk keeps it, and following slot 1 climbs to the root.
-/
import BebasOs.Fat32.Change

namespace BebasOs.Fat32

open Bytes Links Relation

namespace Disk

variable {d d' : Disk} {p q i j : ℕ} {e : FAT32DirectoryEntry} {l cs : List ℕ}

/-- What the special slots and the folder entries of the live directories hold. -/
structure Tree (d : Disk) : Prop where
  self : ∀ p, d.LiveDir p → (d.slot p 0).cluster.toNat = p
  name : ∀ p, d.LiveDir p → (d.slot p 1).name = dotDot
  lister : ∀ p, d.LiveDir p → p ≠ 2 →
    d.LiveDir (d.slot p 1).cluster.toNat ∧ d.Lists (d.slot p 1).cluster.toNat p
  root : (d.slot 2 1).cluster.toNat = 2
  special : ∀ p, d.LiveDir p → ∀ i < 2, (d.slot p i).filesize = 0
  folder : ∀ p i, d.LiveEntry p i → (d.slot p i).IsFolder → (d.slot p i).filesize = 0

/-- The weaker part of it that protects files, in slot `i` of directory `p`: a special slot holds the cluster of a live
directory, and only files have a size. -/
structure SizedAt (d : Disk) (p i : ℕ) : Prop where
  special : i < 2 → (d.slot p i).filesize = 0 ∧ d.LiveDir (d.slot p i).cluster.toNat
  folder : d.LiveEntry p i → (d.slot p i).IsFolder → (d.slot p i).filesize = 0

/-- The cluster in slot 1 of a directory. -/
def up (d : Disk) (p : ℕ) : ℕ := (d.slot p 1).cluster.toNat

namespace Tree

theorem up_liveDir (ht : d.Tree) (hp : d.LiveDir p) : d.LiveDir (d.up p) := by
  unfold up
  by_cases h : p = 2
  · rw [h, ht.root]; exact d.liveDir_root
  · exact (ht.lister p hp h).1

theorem sizedAt (ht : d.Tree) (hp : d.LiveDir p) (i : ℕ) : d.SizedAt p i where
  special hi := by
    refine ⟨ht.special p hp i hi, ?_⟩
    obtain rfl | rfl : i = 0 ∨ i = 1 := by omega
    · rw [ht.self p hp]; exact hp
    · exact ht.up_liveDir hp
  folder := ht.folder p i

/-- A directory is listed by the one its slot 1 holds, and by no other. -/
theorem up_of_lists (hd : d.Sound) (ht : d.Tree) (hq : d.LiveDir q) (hl : d.Lists q p) : d.up p = q := by
  have hp : p ≠ 2 := by
    rintro rfl
    exact hd.root_not_listed hq hl
  obtain ⟨hu, i, h1, h2, h3, h4, h5⟩ := ht.lister p (hq.tail hl) hp
  obtain ⟨j, h1', h2', h3', h4', h5'⟩ := hl
  exact (hd.listed_once ⟨hu, h1, h2, h3⟩ ⟨hq, h1', h2', h3'⟩ h4 h4' (UInt32.toNat_inj.1 (h5.trans h5'.symm))).1

/-- Following slot 1 from a live directory reaches the root through exactly its ancestors. -/
theorem climb (hd : d.Sound) (ht : d.Tree) (hp : d.LiveDir p) :
    ∃ n, d.up^[n] p = 2 ∧ ∀ a, (∃ k ≤ n, d.up^[k] p = a) ↔ d.LiveDir a ∧ ReflTransGen d.Lists a p :=
  Reach.climb (fun _ _ ha hab => ht.up_of_lists hd ha hab) (fun _ ha => hd.root_not_listed ha) hp

/-! ## The changes keep the tree -/

theorem inserted (hd : d.Sound) (ht : d.Tree) (h : d.Inserted d' p j e cs) : d'.Tree := by
  have old {q : ℕ} (hq : d.LiveDir q) {i : ℕ} (hi : i < 2) : d'.slot q i = d.slot q i :=
    h.slot_special hd.grounded hq hi
  have hcl : (dotDotEntry (d.slot p 0)).cluster.toNat = p := by rw [dotDotEntry_cluster]; exact ht.self p h.dir
  refine ⟨fun q hq => ?_, fun q hq => ?_, fun q hq hq2 => ?_, ?_, fun q hq i hi => ?_, fun q i hq hf => ?_⟩
  · rcases (h.liveDir_iff hd.grounded).1 hq with hq | ⟨hf, rfl⟩
    · rw [old hq (by omega)]; exact ht.self q hq
    · rw [h.slot_folder_zero hf]
  · rcases (h.liveDir_iff hd.grounded).1 hq with hq | ⟨hf, rfl⟩
    · rw [old hq (by omega)]; exact ht.name q hq
    · rw [h.slot_folder_one hf, dotDotEntry_name]
  · rcases (h.liveDir_iff hd.grounded).1 hq with hq | ⟨hf, rfl⟩
    · rw [old hq (by omega)]
      obtain ⟨h1, h2⟩ := ht.lister q hq hq2
      exact ⟨h.liveDir_mono hd.grounded h1, (h.lists_iff hd.grounded h1 q).2 (.inl h2)⟩
    · rw [h.slot_folder_one hf, hcl]
      exact ⟨h.liveDir_mono hd.grounded h.dir, (h.lists_iff hd.grounded h.dir _).2 (.inr ⟨rfl, hf, rfl⟩)⟩
  · rw [old d.liveDir_root (by omega)]; exact ht.root
  · rcases (h.liveDir_iff hd.grounded).1 hq with hq | ⟨hf, rfl⟩
    · rw [old hq hi]; exact ht.special q hq i hi
    · obtain rfl | rfl : i = 0 ∨ i = 1 := by omega
      · rw [h.slot_folder_zero hf]; exact (h.folder hf).1
      · rw [h.slot_folder_one hf, dotDotEntry_filesize]; exact ht.special p h.dir 0 (by omega)
  · rcases (h.liveEntry_iff hd.grounded).1 hq with hq | ⟨rfl, rfl⟩
    · rw [h.slot_old hd.grounded hq] at hf ⊢; exact ht.folder q i hq hf
    · rw [h.slot_new hd.grounded] at hf ⊢; exact (h.folder hf).1

theorem removed (hd : d.Sound) (ht : d.Tree) (h : d.Removed d' p j l) : d'.Tree := by
  have hlo := h.entry.lo
  have old {q : ℕ} (hq : d'.LiveDir q) {i : ℕ} (hi : i < 2) : d'.slot q i = d.slot q i := by
    obtain ⟨h1, h2⟩ := (h.liveDir_iff hd).1 hq
    rw [h.slot_eq hd h1 fun hf he => h2 ⟨hf, he⟩, if_neg (by omega)]
  have live {q : ℕ} (hq : d'.LiveDir q) : d.LiveDir q := ((h.liveDir_iff hd).1 hq).1
  refine ⟨fun q hq => ?_, fun q hq => ?_, fun q hq hq2 => ?_, ?_, fun q hq i hi => ?_, fun q i hq hf => ?_⟩
  · rw [old hq (by omega)]; exact ht.self q (live hq)
  · rw [old hq (by omega)]; exact ht.name q (live hq)
  · obtain ⟨h1, h2⟩ := (h.liveDir_iff hd).1 hq
    rw [old hq (by omega)]
    obtain ⟨h3, h4⟩ := ht.lister q h1 hq2
    -- the directory above has an entry, so it is not the one taken out
    have hne : (d.slot p j).IsFolder → (d.slot q 1).cluster.toNat ≠ (d.slot p j).cluster.toNat := by
      intro hf he
      obtain ⟨i, h5, h6, h7, -, -⟩ := h4
      exact h.empty hf ⟨i, h5, h6, by rw [← he]; exact h7⟩
    exact ⟨(h.liveDir_iff hd).2 ⟨h3, fun hc => hne hc.1 hc.2⟩, (h.lists_iff hd h3 hne q).2 ⟨h4, h2⟩⟩
  · rw [old d'.liveDir_root (by omega)]; exact ht.root
  · rw [old hq hi]; exact ht.special q (live hq) i hi
  · obtain ⟨h1, h2⟩ := (h.liveEntry_iff hd).1 hq
    rw [h.slot_old hd h1 h2] at hf ⊢; exact ht.folder q i h1 hf

theorem kept (hd : d.Sound) (ht : d.Tree) (h : d.Kept d') : d'.Tree := by
  have live {q : ℕ} : d'.LiveDir q ↔ d.LiveDir q := h.liveDir_iff hd
  refine ⟨fun q hq => ?_, fun q hq => ?_, fun q hq hq2 => ?_, ?_, fun q hq i hi => ?_, fun q i hq hf => ?_⟩
  · rw [h.slot_eq hd (live.1 hq)]; exact ht.self q (live.1 hq)
  · rw [h.slot_eq hd (live.1 hq)]; exact ht.name q (live.1 hq)
  · rw [h.slot_eq hd (live.1 hq)]
    obtain ⟨h1, k, h2, h3, h4, h5, h6⟩ := ht.lister q (live.1 hq) hq2
    refine ⟨live.2 h1, k, h2, h3, ?_⟩
    rw [h.slot_eq hd h1]
    exact ⟨h4, h5, h6⟩
  · rw [h.slot_eq hd d.liveDir_root]; exact ht.root
  · rw [h.slot_eq hd (live.1 hq)]; exact ht.special q (live.1 hq) i hi
  · have hq' := (h.liveEntry_iff hd).1 hq
    rw [h.slot_eq hd hq'.dir] at hf ⊢; exact ht.folder q i hq' hf

end Tree

end Disk

end BebasOs.Fat32
