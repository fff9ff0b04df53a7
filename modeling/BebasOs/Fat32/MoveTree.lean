/-
What moves do to the directory tree. A move rewrites the two tables that list the entry and never the
special slots of a folder it moves: moves of files, and moves within a directory, keep the tree, while
every move of a folder to another directory leaves it with a slot 1 that names the old one, or puts it
below itself.
-/
import BebasOs.Fat32.Commute
import BebasOs.Fat32.Move
import BebasOs.Shell.Prompt

namespace BebasOs.Fat32

open Bytes Search Disk Relation

variable {π : Platform} {s s' : Machine} {d d₀ d' : Disk} {a b c i j p q : ℕ} {e : FAT32DirectoryEntry} {cs : List ℕ}

/-! ## The tree -/

/-- The directories of the disk of `s` form a tree that their slots 1 climb: slot 1 of a directory holds the
cluster of each directory that lists it, climbing from a directory gets to the root after at least one
step, no directory that is live here or was on `d₀` is its own ancestor, and the loop of the prompt ends. -/
structure TreeKept (d₀ : Disk) (s : Machine) : Prop where
  up : ∀ q p, s.disk.LiveDir q → s.disk.Lists q p → s.disk.up p = q
  climbs : ∀ p, s.disk.LiveDir p → ∃ n, s.disk.up^[n + 1] p = 2
  acyclic : ∀ p, s.disk.LiveDir p ∨ d₀.LiveDir p → ¬ TransGen s.disk.Lists p p
  prompt : ∀ (c : UInt32) buff, s.disk.LiveDir c.toNat → ∃ fuel tables, Shell.climbLoop fuel s buff c = some tables

/-- What moves can keep: each special slot of a directory holds its cluster, the root is listed by no
directory, and slot 1 names the one directory that lists it. -/
structure Nested (d : Disk) : Prop extends d.Grounded where
  self : ∀ p, d.LiveDir p → (d.slot p 0).cluster.toNat = p
  lister : ∀ q p, d.LiveDir q → d.Lists q p → d.up p = q
  notListed : ∀ q, d.LiveDir q → ¬ d.Lists q 2
  root : d.up 2 = 2

namespace Nested

theorem up_liveDir (hn : Nested d) (hp : d.LiveDir p) : d.LiveDir (d.up p) := by
  rcases ReflTransGen.cases_tail hp with rfl | ⟨q, hq, hl⟩
  · rw [hn.root]
    exact d.liveDir_root
  · rw [hn.lister q p hq hl]
    exact hq

theorem home_eq (hn : Nested d) (hp : d.LiveDir p) : home d p = p := by
  have := hn.range p hp
  unfold home
  rw [place_of_lt (by rw [hn.self p hp]; omega), hn.self p hp]

theorem acyclic (hn : Nested d) (hp : d.LiveDir p) : ¬ TransGen d.Lists p p :=
  Reach.acyclic (fun q p hq hl => hn.lister q p hq hl) hn.notListed hp

theorem climbs (hn : Nested d) (hp : d.LiveDir p) : ∃ n, d.up^[n + 1] p = 2 := by
  obtain ⟨n, h, -⟩ := Reach.climb (fun q p hq hl => hn.lister q p hq hl) hn.notListed hp
  refine ⟨n, ?_⟩
  rw [Function.iterate_succ_apply', h]
  exact hn.root

theorem treeKept (hn : Nested s.disk) (hd : ∀ p, d₀.LiveDir p → s.disk.LiveDir p) : TreeKept d₀ s where
  up := hn.lister
  climbs _ := hn.climbs
  acyclic p hp := by
    rcases hp with hp | hp
    · exact hn.acyclic hp
    · exact hn.acyclic (hd p hp)
  prompt c buff hc := by
    obtain ⟨n, h⟩ := hn.climbs hc
    obtain ⟨tables, ht⟩ := Shell.climbLoop_ends s.disk (fun p hp => ⟨(hn.range p hp).2, hn.self p hp⟩)
      (fun p hp => hn.up_liveDir hp) rfl hc h buff
    exact ⟨n + 1, tables, ht⟩

end Nested

theorem Disk.Tree.nested (hd : d.Sound) (ht : d.Tree) : Nested d where
  toGrounded := hd.grounded
  self := ht.self
  lister _ _ hq hl := ht.up_of_lists hd hq hl
  notListed _ hq := hd.root_not_listed hq
  root := ht.root

/-! ## Writes -/

/-- A new entry goes below its parent, and a new folder's slot 1 names it. -/
theorem Nested.inserted (hn : Nested d) (h : d.Inserted d' p j e cs) : Nested d' where
  toGrounded := h.grounded hn.toGrounded
  self q hq := by
    rcases (h.liveDir_iff hn.toGrounded).1 hq with hq | ⟨hf, rfl⟩
    · rw [h.slot_special hn.toGrounded hq (by omega)]
      exact hn.self q hq
    · rw [h.slot_folder_zero hf]
  lister q c hq hl := by
    unfold up
    obtain ⟨hq, hl | ⟨rfl, hf, rfl⟩⟩ := h.lists_cases hn.toGrounded hq hl
    · rw [h.slot_special hn.toGrounded (hq.tail hl) (by omega)]
      exact hn.lister q c hq hl
    · rw [h.slot_folder_one hf, dotDotEntry_cluster]
      exact hn.self q hq
  notListed q hq hl := by
    obtain ⟨hq, hl | ⟨rfl, hf, hc⟩⟩ := h.lists_cases hn.toGrounded hq hl
    · exact hn.notListed q hq hl
    · have := h.owns.range _ h.owns.first_mem
      omega
  root := by
    unfold up
    rw [h.slot_special hn.toGrounded d.liveDir_root (by omega)]
    exact hn.root

/-! ## Moves -/

/-- `d'` is `d` with the entry in slot `i` of directory `a` in the free slot `j` of directory `b`. Within one
directory it stays in slot `i` as well. -/
structure Relocated (d d' : Disk) (a i b j : ℕ) : Prop where
  entry : d.LiveEntry a i
  dir : d.LiveDir b
  lo : 2 ≤ j
  hi : j < 64
  free : ¬ (d.slot b j).Live
  slot : ∀ q k, d'.slot q k =
    if q = b ∧ k = j then d.slot a i else if a ≠ b ∧ q = a ∧ k = i then default else d.slot q k
  fat : d'.fat = d.fat

/-- A move into a directory with room puts the entry into a free slot of it. -/
theorem Nested.relocated {srcIdx : UInt32} (hn : Nested s.disk) (he : s.disk.LiveEntry a srcIdx.toNat)
    (hb : s.disk.LiveDir b) (hroom : s.disk.HasFreeSlot b)
    (h : moveEntry s (s.disk.table a) (s.disk.table b) srcIdx = some s') :
    ∃ j, Relocated s.disk s'.disk a srcIdx.toNat b j := by
  have hra := hn.range a he.dir
  have hrb := hn.range b hb
  obtain ⟨j, s'', hj, hj', hfree, hmove, hdisk⟩ := moveEntry_free (a := a) (hn.shape b hb) he.lo he.hi hroom
  obtain rfl : s' = s'' := Option.some.inj (h.symm.trans hmove)
  have hcl := cluster_movedDisk_home (d := s.disk) (by omega) (by omega) (hn.home_eq he.dir) (hn.home_eq hb)
    (store (s.disk.table a) srcIdx.toNat default) (store (s.disk.table b) j (s.disk.slot a srcIdx.toNat))
  rw [← hdisk] at hcl
  refine ⟨j, he, hb, hj, hj', hfree, fun q k => ?_, fat_congr ?_⟩
  · have hq := hcl q
    -- the destination is written last: within one directory its table is the one that stays
    by_cases hqb : q = b
    · subst q
      rw [if_pos rfl] at hq
      rw [slot_of_packed hq, cell_store _ _ _ hj']
      by_cases hk : k = j
      · rw [if_pos hk, if_pos ⟨rfl, hk⟩]
      · rw [if_neg hk, if_neg (fun h => hk h.2), if_neg (fun h => h.1 h.2.1.symm)]
        rfl
    · rw [if_neg hqb] at hq
      rw [if_neg (fun h => hqb h.1)]
      by_cases hqa : q = a
      · subst q
        rw [if_pos rfl] at hq
        rw [slot_of_packed hq, cell_store _ _ _ he.hi]
        simp only [ne_eq, hqb, not_false_eq_true, true_and]
        rfl
      · rw [if_neg hqa] at hq
        rw [slot_of_cluster hq, if_neg (fun h => hqa h.2.1)]
  · rw [hcl 1, if_neg (by omega), if_neg (by omega)]

namespace Relocated

variable (h : Relocated d d' a i b j)
include h

/-- The special slots stay. -/
theorem slot_special {k : ℕ} (hk : k < 2) (q : ℕ) : d'.slot q k = d.slot q k := by
  have := h.entry.lo
  have := h.lo
  rw [h.slot, if_neg (by omega), if_neg (by omega)]

theorem up_eq (q : ℕ) : d'.up q = d.up q := by
  unfold up
  rw [h.slot_special (by omega)]

/-- An entry stays in its slot, but for the one that moves to another directory. -/
theorem slot_kept {k : ℕ} (hl : (d.slot q k).Live) (hne : a ≠ b → q = a → k ≠ i) : d'.slot q k = d.slot q k := by
  rw [h.slot, if_neg, if_neg]
  · rintro ⟨hab, hq, hk⟩
    exact hne hab hq hk
  · rintro ⟨rfl, rfl⟩
    exact h.free hl

/-- Only the directory the entry leaves may list less than before, and only what the entry names. -/
theorem lists_mono (hl : d.Lists q c) (hne : q = a → c ≠ (d.slot a i).cluster.toNat) : d'.Lists q c := by
  obtain ⟨k, h1, h2, h3, h4, h5⟩ := hl
  refine ⟨k, h1, h2, ?_⟩
  rw [h.slot_kept h3]
  · exact ⟨h3, h4, h5⟩
  · rintro - rfl rfl
    exact hne rfl h5.symm

/-- The destination lists a folder that comes to it. -/
theorem lists_moved (hf : (d.slot a i).IsFolder) : d'.Lists b (d.slot a i).cluster.toNat := by
  refine ⟨j, h.lo, h.hi, ?_⟩
  rw [h.slot, if_pos ⟨rfl, rfl⟩]
  exact ⟨h.entry.live, hf, rfl⟩

/-- Where a file moves, or an entry within its directory, the directories list what they did. -/
theorem lists_iff (hs : (d.slot a i).IsFolder → a = b) (q c : ℕ) : d'.Lists q c ↔ d.Lists q c := by
  constructor
  · rintro ⟨k, h1, h2, h3, h4, h5⟩
    rw [h.slot] at h3 h4 h5
    split_ifs at h3 h4 h5 with hkj hki
    · refine ⟨i, h.entry.lo, h.entry.hi, ?_⟩
      rw [hkj.1, ← hs h4]
      exact ⟨h3, h4, h5⟩
    · exact absurd h3 FAT32DirectoryEntry.not_live_default
    · exact ⟨k, h1, h2, h3, h4, h5⟩
  · rintro ⟨k, h1, h2, h3, h4, h5⟩
    refine ⟨k, h1, h2, ?_⟩
    rw [h.slot_kept h3]
    · exact ⟨h3, h4, h5⟩
    · rintro hab rfl rfl
      exact hab (hs h4)

theorem liveDir_iff (hs : (d.slot a i).IsFolder → a = b) (q : ℕ) : d'.LiveDir q ↔ d.LiveDir q :=
  Reach.congr_on fun q _ c => h.lists_iff hs q c

theorem shape (hn : Nested d) (hq : d.LiveDir q) : DirShape (d'.table q) where
  self := by
    show (d'.slot q 0).Live
    rw [h.slot_special (by omega)]
    exact (hn.shape q hq).self
  parent := by
    show (d'.slot q 1).Live
    rw [h.slot_special (by omega)]
    exact (hn.shape q hq).parent
  unused k hk hl := by
    have hslot : d'.slot q k = _ := h.slot q k
    change ¬ (d'.slot q k).Live at hl
    change d'.slot q k = default
    rw [hslot] at hl ⊢
    split_ifs at hl ⊢
    · exact absurd h.entry.live hl
    · rfl
    · exact (hn.shape q hq).unused k hk hl

/-- Where a file moves, or an entry within its directory, the tree is kept. -/
theorem nested (hn : Nested d) (hs : (d.slot a i).IsFolder → a = b) : Nested d' where
  fat1 := by rw [h.fat]; exact hn.fat1
  fat2 := by rw [h.fat]; exact hn.fat2
  shape q hq := h.shape hn ((h.liveDir_iff hs q).1 hq)
  range q hq := hn.range q ((h.liveDir_iff hs q).1 hq)
  used q hq := by
    rw [h.fat]
    exact hn.used q ((h.liveDir_iff hs q).1 hq)
  self q hq := by
    rw [h.slot_special (by omega)]
    exact hn.self q ((h.liveDir_iff hs q).1 hq)
  lister q c hq hl := by
    rw [h.up_eq]
    exact hn.lister q c ((h.liveDir_iff hs q).1 hq) ((h.lists_iff hs q c).1 hl)
  notListed q hq hl := hn.notListed q ((h.liveDir_iff hs q).1 hq) ((h.lists_iff hs q 2).1 hl)
  root := by
    rw [h.up_eq]
    exact hn.root

/-- A folder that moves to another directory is put below itself, or is listed by a directory that its
slot 1 does not name. -/
theorem not_treeKept (hn : Nested d) (hs' : s'.disk = d') (hf : (d.slot a i).IsFolder) (hne : a ≠ b) :
    ¬ TreeKept d s' := by
  intro ht
  have hlists : d.Lists a (d.slot a i).cluster.toNat := ⟨i, h.entry.lo, h.entry.hi, h.entry.live, hf, rfl⟩
  have hlive := h.entry.dir.tail hlists
  by_cases hbelow : ReflTransGen d.Lists (d.slot a i).cluster.toNat b
  · -- the way down to the destination does not use the entry, or there was a cycle before
    have hpath : ReflTransGen d'.Lists (d.slot a i).cluster.toNat b := by
      refine Reach.mono_on (fun q hq c hl => h.lists_mono hl ?_) hbelow
      rintro rfl
      exact absurd (TransGen.head' hlists hq) (hn.acyclic h.entry.dir)
    have hcycle := TransGen.tail' hpath (h.lists_moved hf)
    rw [← hs'] at hcycle
    exact ht.acyclic _ (.inr hlive) hcycle
  · have hb : d'.LiveDir b := Reach.cut_mono (fun q _ c hc hl => h.lists_mono hl fun _ => hc) h.dir hbelow
    have hmoved := h.lists_moved hf
    have hup := hn.lister _ _ h.entry.dir hlists
    rw [← hs'] at hb hmoved
    have hup' := ht.up _ _ hb hmoved
    rw [hs', h.up_eq] at hup'
    exact hne (hup.symm.trans hup')

end Relocated

/-! ## Runs of writes and moves -/

/-- A write to a live directory, of a file to one with a free slot, or a move that goes through, of a live
entry into a live directory with a free slot. A folder stays within its directory. -/
inductive TreeStep (π : Platform) (s : Machine) : Machine → Prop
  | write {r : FAT32DriverRequest} {code : Int} {s' : Machine} (hr : (Request.write r).Fits s.disk)
      (h : write π s r = some (code, s')) : TreeStep π s s'
  | move {a b : ℕ} {srcIdx : UInt32} {s' : Machine} (he : s.disk.LiveEntry a srcIdx.toNat) (hb : s.disk.LiveDir b)
      (hroom : s.disk.HasFreeSlot b) (hs : (s.disk.slot a srcIdx.toNat).IsFolder → a = b)
      (h : moveEntry s (s.disk.table a) (s.disk.table b) srcIdx = some s') : TreeStep π s s'

/-- A step keeps the tree, and loses no directory. -/
theorem TreeStep.nested (h : TreeStep π s s') (hn : Nested s.disk) :
    Nested s'.disk ∧ ∀ p, s.disk.LiveDir p → s'.disk.LiveDir p := by
  cases h with
  | @write r code s' hr h =>
    have hw : WriteSpec s r (Fat32.write π s r) := write_spec hn.toGrounded hr.live
    rw [h] at hw
    cases hw with
    | @stored j c s' h =>
      -- with a free slot the search of a file write does not leave the directory
      have hj : j < 64 := by
        by_cases hb : r.bufferSize = 0
        · exact h.slot_hi_of_folder hb
        · exact h.slot_hi_of_free (hr.room r rfl hb)
      have hi := h.inserted hn.toGrounded hr.live hj
      exact ⟨hn.inserted hi, fun p => hi.liveDir_mono hn.toGrounded⟩
    | refused h _ =>
      rw [h.disk]
      exact ⟨hn, fun _ hp => hp⟩
  | move he hb hroom hs h =>
    obtain ⟨j, hj⟩ := hn.relocated he hb hroom h
    exact ⟨hj.nested hn hs, fun p => (hj.liveDir_iff hs p).2⟩

theorem treeRun_nested (h : ReflTransGen (TreeStep π) s s') (hn : Nested s.disk) :
    Nested s'.disk ∧ ∀ p, s.disk.LiveDir p → s'.disk.LiveDir p := by
  induction h with
  | refl => exact ⟨hn, fun _ hp => hp⟩
  | tail _ hstep ih =>
    obtain ⟨hn', hmono⟩ := hstep.nested ih.1
    exact ⟨hn', fun p hp => hmono p (ih.2 p hp)⟩

variable {s₀ s₁ : Machine}

/-! ## A sample disk -/

/-- The sample disk with the folder `b`, in cluster 3, and another entry in slot 3 of the root. -/
structure HoldsSecond (q : FAT32DriverRequest) (s : Machine) (c : ℕ) : Prop where
  nested : Nested s.disk
  dir : s.disk.LiveDir 3
  listed : s.disk.Lists 2 3
  room : s.disk.HasFreeSlot 3
  entry : s.disk.LiveEntry 2 3
  slot : s.disk.slot 2 3 = newEntry q c
  cluster : (s.disk.slot 2 3).cluster.toNat ≠ 3

theorem Second.holdsSecond {q : FAT32DriverRequest} {s₂ : Machine} (h : Second q s₀ s₁ s₂ c) (hq : q.parent = 2) :
    HoldsSecond q s₂ c := by
  have hd := h.formatted.wellFormed.toSound
  have hp : s₀.disk.LiveDir folderB.parent := s₀.disk.liveDir_root
  have hb : (newEntry folderB 3).IsFolder := (newEntry_isFolder folderB 3).2 rfl
  have hcl : (newEntry folderB 3).cluster.toNat = 3 := newEntry_cluster _ (by omega)
  have hi₁ := h.first.inserted hd.grounded hp (by omega)
  have hn₁ := (h.formatted.tree.nested hd).inserted hi₁
  have hi₂ := h.second.inserted hn₁.toGrounded h.placed.live (by omega)
  have h3 := h.first.liveDir_folder hd.grounded hp rfl
  have hslot := hi₂.slot_new hn₁.toGrounded
  have hentry := h.second.liveEntry hn₁.toGrounded h.placed.live (by omega)
  rw [hq] at hslot hentry
  refine ⟨hn₁.inserted hi₂, hi₂.liveDir_mono hn₁.toGrounded h3, ?_, ⟨2, by omega, by omega, ?_⟩, hentry, hslot, ?_⟩
  · have hl : s₁.disk.Lists 2 3 := (hi₁.lists_iff hd.grounded hp 3).2 (.inr ⟨rfl, hb, hcl.symm⟩)
    exact (hi₂.lists_iff hn₁.toGrounded s₁.disk.liveDir_root 3).2 (.inl hl)
  · have hempty := hi₁.slot_folder hb (Nat.le_refl 2)
    rw [hcl] at hempty
    rw [hi₂.slot_eq hn₁.toGrounded h3, if_neg (by omega), hempty]
    exact FAT32DirectoryEntry.not_live_default
  · -- the cluster of `b` was taken when the other entry got its own
    rw [hslot, newEntry_cluster _ h.second.cluster_range.2.1]
    rintro rfl
    exact hn₁.used 3 h3 h.second.cluster_range.2.2

/-- The entry can be moved into the folder. -/
theorem HoldsSecond.moved {q : FAT32DriverRequest} (h : HoldsSecond q s c) : ∃ s' j,
    moveEntry s (s.disk.table 2) (s.disk.table 3) 3 = some s' ∧ Relocated s.disk s'.disk 2 3 3 j := by
  have he : s.disk.LiveEntry 2 (3 : UInt32).toNat := h.entry
  obtain ⟨-, s', -, -, -, hmove, -⟩ := moveEntry_free (a := 2) (h.nested.shape 3 h.dir) he.lo he.hi h.room
  obtain ⟨j, hj⟩ := h.nested.relocated he h.dir h.room hmove
  exact ⟨s', j, hmove, hj⟩

/-! ## The tree in a run -/

/-- In every run on a new disk in which folders only move within their directory, the tree is kept, for all
the directories there have been; and the next move keeps it exactly when it moves a file or stays within
one directory. -/
theorem run_treeKept (h₀ : createFat32 π (powerOn d) = some s₀) (h₁ : ReflTransGen (TreeStep π) s₀ s₁)
    (h : ReflTransGen (TreeStep π) s₁ s) :
    TreeKept s₁.disk s ∧ ∀ a b srcIdx s', s.disk.LiveEntry a srcIdx.toNat → s.disk.LiveDir b → s.disk.HasFreeSlot b →
      moveEntry s (s.disk.table a) (s.disk.table b) srcIdx = some s' →
      (TreeKept s.disk s' ↔ ((s.disk.slot a srcIdx.toNat).IsFolder → a = b)) := by
  have hf := formatted_of_create h₀
  have hn₁ := (treeRun_nested h₁ (hf.tree.nested hf.wellFormed.toSound)).1
  obtain ⟨hn, hmono⟩ := treeRun_nested h hn₁
  refine ⟨hn.treeKept hmono, fun a b srcIdx s' he hb hroom hmove => ?_⟩
  obtain ⟨j, hj⟩ := hn.relocated he hb hroom hmove
  constructor
  · intro ht hfolder
    by_contra hne
    exact hj.not_treeKept hn rfl hfolder hne ht
  · intro hs
    exact (hj.nested hn hs).treeKept fun p hp => (hj.liveDir_iff hs p).2 hp

/-- The file `a` is moved from the root into the folder `b`. -/
theorem run_treeKept_fileA : ∃ s₀ s₁ s₂ s₃ j, createFat32 zeroPlatform (powerOn zeroDisk) = some s₀ ∧
    write zeroPlatform s₀ folderB = some (0, s₁) ∧ write zeroPlatform s₁ fileA = some (0, s₂) ∧
    moveEntry s₂ (s₂.disk.table 2) (s₂.disk.table 3) 3 = some s₃ ∧ s₃.disk.slot 3 j = s₂.disk.slot 2 3 ∧
    TreeKept s₂.disk s₃ := by
  obtain ⟨s₀, s₁, s₂, c, h₀, hw₁, hw₂, hq⟩ := exists_second 97 1 (by decide) (by decide) (by decide) (by decide)
    (by decide)
  have h := hq.holdsSecond rfl
  obtain ⟨s₃, j, hmove, hj⟩ := h.moved
  have hfile : ¬ (s₂.disk.slot 2 3).IsFolder := by
    rw [h.slot, newEntry_isFolder]
    decide
  have hwrites : ReflTransGen (TreeStep zeroPlatform) s₀ s₂ := by
    refine .head (.write (hq.formatted.fits rfl) hw₁) (.single (.write ⟨hq.placed.live, fun r hr _ => ?_⟩ hw₂))
    cases hr
    exact hq.placed.slot
  have hmoves : TreeStep zeroPlatform s₂ s₃ := .move h.entry h.dir h.room (fun hf => absurd hf hfile) hmove
  refine ⟨s₀, s₁, s₂, s₃, j, h₀, hw₁, hw₂, hmove, ?_, (run_treeKept h₀ hwrites (.single hmoves)).1⟩
  rw [hj.slot, if_pos ⟨rfl, rfl⟩]

/-- Moved from the root into the folder `b`, the folder `c` is listed by `b`, and its slot 1 still names the
root. -/
theorem folderC_moved : ∃ s₀ s₁ s₂ s₃, createFat32 zeroPlatform (powerOn zeroDisk) = some s₀ ∧
    Request.Fits (.write folderB) s₀.disk ∧ write zeroPlatform s₀ folderB = some (0, s₁) ∧
    Request.Fits (.write folderC) s₁.disk ∧ write zeroPlatform s₁ folderC = some (0, s₂) ∧
    s₂.disk.LiveEntry 2 3 ∧ s₂.disk.LiveDir 3 ∧ s₂.disk.HasFreeSlot 3 ∧
    moveEntry s₂ (s₂.disk.table 2) (s₂.disk.table 3) 3 = some s₃ ∧
    s₃.disk.LiveDir 3 ∧ s₃.disk.Lists 3 (s₂.disk.slot 2 3).cluster.toNat ∧
    s₃.disk.up (s₂.disk.slot 2 3).cluster.toNat = 2 := by
  obtain ⟨s₀, s₁, s₂, c, h₀, hw₁, hw₂, hq⟩ := exists_second 99 0 (by decide) (by decide) (by decide) (by decide)
    (by decide)
  have h : HoldsSecond folderC s₂ c := hq.holdsSecond rfl
  obtain ⟨s₃, j, hmove, hj⟩ := h.moved
  have hfolder : (s₂.disk.slot 2 3).IsFolder := by
    rw [h.slot]
    exact (newEntry_isFolder folderC c).2 rfl
  refine ⟨s₀, s₁, s₂, s₃, h₀, hq.formatted.fits rfl, hw₁, ⟨hq.placed.live, fun r hr _ => ?_⟩, hw₂, h.entry,
    h.dir, h.room,
    hmove, ?_, hj.lists_moved hfolder, ?_⟩
  · cases hr
    exact hq.placed.slot
  · exact s₃.disk.liveDir_root.tail (hj.lists_mono h.listed fun _ => Ne.symm h.cluster)
  · rw [hj.up_eq]
    exact h.nested.lister 2 _ s₂.disk.liveDir_root ⟨3, by omega, by omega, h.entry.live, hfolder, rfl⟩

end BebasOs.Fat32
