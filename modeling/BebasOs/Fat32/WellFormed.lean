/-
Well-formed disks: the live directories reached from cluster 2, the live entries they list, the
clusters each entry owns, and how adding, removing or leaving an entry changes them. Every request
that changes the disk is one of these three, so each invariant of the file system is proved from
them and never from the code of a request.
-/
import BebasOs.Lib.Chain
import BebasOs.Lib.Reach
import BebasOs.Fat32.Driver

namespace BebasOs.Fat32

open Bytes Links Relation

/-! ## Definitions -/

/-- The cluster after `c` in its chain. -/
def next (t : FAT32FileAllocationTable) (c : ℕ) : Option ℕ :=
  if cell t c = fatEndOfFile then none else some (cell t c).toNat

/-- The number of clusters an entry needs: one for a folder, `⌈filesize / 2048⌉` for a file. -/
def clusterCount (e : FAT32DirectoryEntry) : ℕ := if e.IsFolder then 1 else (e.filesize.toNat + 2047) / 2048

/-- The clusters `l` are the chain of `e`: from its first cluster on, inside 3..511, none of them
empty, up to the end-of-file mark, and as many as it needs. -/
structure Owns (t : FAT32FileAllocationTable) (e : FAT32DirectoryEntry) (l : List ℕ) : Prop where
  chain : Chain (next t) e.cluster.toNat l
  length : l.length = clusterCount e
  range : ∀ c ∈ l, 3 ≤ c ∧ c < 512
  used : ∀ c ∈ l, cell t c ≠ fatEmptyEntry

/-- A directory table whose special slots 0 and 1 are in use and whose unused slots are zero. -/
structure DirShape (t : FAT32DirectoryTable) : Prop where
  self : (cell t 0).Live
  parent : (cell t 1).Live
  unused : ∀ i < 64, ¬ (cell t i).Live → cell t i = default

namespace Disk

/-- Directory `p` lists the folder in cluster `c`. -/
def Lists (d : Disk) (p c : ℕ) : Prop :=
  ∃ i, 2 ≤ i ∧ i < 64 ∧ (d.slot p i).Live ∧ (d.slot p i).IsFolder ∧ (d.slot p i).cluster.toNat = c

/-- A live directory: cluster 2, or the cluster of a folder listed by a live directory. -/
def LiveDir (d : Disk) (p : ℕ) : Prop := ReflTransGen d.Lists 2 p

/-- A live entry: a slot in use from 2 on of a live directory. -/
structure LiveEntry (d : Disk) (p i : ℕ) : Prop where
  dir : d.LiveDir p
  lo : 2 ≤ i
  hi : i < 64
  live : (d.slot p i).Live

/-- A live entry that is a file. -/
structure LiveFile (d : Disk) (p i : ℕ) : Prop extends d.LiveEntry p i where
  file : ¬ (d.slot p i).IsFolder

/-- The tables of a well-formed disk. The boot sector and `FAT[0]` are left to `WellFormed`. -/
structure Sound (d : Disk) : Prop where
  fat1 : cell d.fat 1 ≠ fatEmptyEntry
  fat2 : cell d.fat 2 ≠ fatEmptyEntry
  shape : ∀ p, d.LiveDir p → DirShape (d.table p)
  size : ∀ p i, d.LiveFile p i → 1 ≤ (d.slot p i).filesize.toNat
  owns : ∀ p i, d.LiveEntry p i → ∃ l, Owns d.fat (d.slot p i) l
  disjoint : ∀ p i q j l m, d.LiveEntry p i → d.LiveEntry q j → (p, i) ≠ (q, j) →
    Owns d.fat (d.slot p i) l → Owns d.fat (d.slot q j) m → l.Disjoint m

/-- The part of it that does not depend on the chains: the live directories lie in the table, their clusters
are taken, and so are those of the table of files and of the root. -/
structure Grounded (d : Disk) : Prop where
  fat1 : cell d.fat 1 ≠ fatEmptyEntry
  fat2 : cell d.fat 2 ≠ fatEmptyEntry
  shape : ∀ p, d.LiveDir p → DirShape (d.table p)
  range : ∀ p, d.LiveDir p → 2 ≤ p ∧ p < 512
  used : ∀ p, d.LiveDir p → cell d.fat p ≠ fatEmptyEntry

/-- A well-formed disk. -/
structure WellFormed (d : Disk) : Prop extends d.Sound where
  signature : d.bootSector = fsSignature
  fat0 : cell d.fat 0 ≠ fatEmptyEntry

/-- The clusters met from the first cluster of an entry on, through the table on the disk. -/
def chainOf (d : Disk) (e : FAT32DirectoryEntry) : List ℕ := follow (next d.fat) 512 e.cluster.toNat

/-- The bytes of an entry: those of its chain, up to its size. -/
def fileBytes (d : Disk) (e : FAT32DirectoryEntry) : List UInt8 :=
  ((d.chainOf e).flatMap fun c => (d.cluster c).toList).take e.filesize.toNat

/-- Directory `p` has a free slot. -/
def HasFreeSlot (d : Disk) (p : ℕ) : Prop := ∃ i, 2 ≤ i ∧ i < 64 ∧ ¬ (d.slot p i).Live

/-- Directory `p` has an entry besides its special slots. -/
def HasEntry (d : Disk) (p : ℕ) : Prop := ∃ i, 2 ≤ i ∧ i < 64 ∧ (d.slot p i).Live

end Disk

/-! ## Chains of entries -/

theorem next_congr {t t' : FAT32FileAllocationTable} {c : ℕ} (h : cell t' c = cell t c) :
    next t' c = next t c := by unfold next; rw [h]

namespace Owns

variable {t t' : FAT32FileAllocationTable} {e : FAT32DirectoryEntry} {l m : List ℕ}

theorem unique (h : Owns t e l) (h' : Owns t e m) : l = m := h.chain.unique h'.chain

theorem first_mem (h : Owns t e l) : e.cluster.toNat ∈ l := h.chain.head_mem

/-- The clusters of an entry only depend on their own table entries. -/
theorem congr (h : Owns t e l) (ht : ∀ c ∈ l, cell t' c = cell t c) : Owns t' e l where
  chain := h.chain.congr fun c hc => next_congr (ht c hc)
  length := h.length
  range := h.range
  used c hc := by rw [ht c hc]; exact h.used c hc

theorem folder_eq (h : Owns t e l) (hf : e.IsFolder) : l = [e.cluster.toNat] := by
  have hl := h.length
  rw [clusterCount, if_pos hf] at hl
  obtain ⟨a, rfl⟩ := List.length_eq_one_iff.1 hl
  rw [List.mem_singleton.1 h.first_mem]

theorem length_le (h : Owns t e l) : l.length ≤ 509 := by
  have hs : l ⊆ List.range' 3 509 := fun c hc => by
    have := h.range c hc
    rw [List.mem_range'_1]; omega
  simpa using (h.chain.nodup.subperm hs).length_le

theorem follow_eq (h : Owns t e l) : follow (next t) 512 e.cluster.toNat = l :=
  h.chain.follow_eq (by have := h.length_le; omega)

end Owns

namespace Disk

variable {d d' : Disk} {p q i j : ℕ} {e : FAT32DirectoryEntry} {l : List ℕ}

theorem chainOf_eq (h : Owns d.fat e l) : d.chainOf e = l := h.follow_eq

/-- The bytes of an entry only depend on its own clusters. -/
theorem fileBytes_congr (h : Owns d.fat e l) (ht : ∀ c ∈ l, cell d'.fat c = cell d.fat c)
    (hc : ∀ c ∈ l, d'.cluster c = d.cluster c) : d'.fileBytes e = d.fileBytes e := by
  have hb : (l.flatMap fun c => (d'.cluster c).toList) = l.flatMap fun c => (d.cluster c).toList :=
    List.flatMap_congr fun c hm => by rw [hc c hm]
  unfold fileBytes
  rw [chainOf_eq h, chainOf_eq (h.congr ht), hb]

/-! ## Live directories of a sound disk -/

theorem liveDir_root (d : Disk) : d.LiveDir 2 := .refl

theorem LiveDir.tail (h : d.LiveDir p) (hl : d.Lists p q) : d.LiveDir q := ReflTransGen.tail h hl

/-- A live directory other than the root is the cluster of a live folder entry. -/
theorem LiveDir.listed (h : d.LiveDir p) (hp : p ≠ 2) :
    ∃ q i, d.LiveEntry q i ∧ (d.slot q i).IsFolder ∧ (d.slot q i).cluster.toNat = p := by
  rcases ReflTransGen.cases_tail h with h | ⟨q, hq, i, h1, h2, h3, h4, h5⟩
  · exact absurd h hp
  · exact ⟨q, i, ⟨hq, h1, h2, h3⟩, h4, h5⟩

namespace Sound

theorem folder_owns (hd : d.Sound) (h : d.LiveEntry p i) (hf : (d.slot p i).IsFolder) :
    Owns d.fat (d.slot p i) [(d.slot p i).cluster.toNat] := by
  obtain ⟨l, hl⟩ := hd.owns p i h
  have := hl.folder_eq hf
  rwa [this] at hl

theorem liveDir_range (hd : d.Sound) (h : d.LiveDir p) : 2 ≤ p ∧ p < 512 := by
  by_cases hp : p = 2
  · omega
  · obtain ⟨q, i, hq, hf, rfl⟩ := h.listed hp
    have := (hd.folder_owns hq hf).range _ List.mem_cons_self
    omega

/-- The cluster of a live directory is taken. -/
theorem liveDir_used (hd : d.Sound) (h : d.LiveDir p) : cell d.fat p ≠ fatEmptyEntry := by
  by_cases hp : p = 2
  · rw [hp]; exact hd.fat2
  · obtain ⟨q, i, hq, hf, rfl⟩ := h.listed hp
    exact (hd.folder_owns hq hf).used _ List.mem_cons_self

theorem grounded (hd : d.Sound) : d.Grounded where
  fat1 := hd.fat1
  fat2 := hd.fat2
  shape := hd.shape
  range _ := hd.liveDir_range
  used _ := hd.liveDir_used

/-- Two live entries that share a cluster are one. -/
theorem eq_of_shared (hd : d.Sound) (hp : d.LiveEntry p i) (hq : d.LiveEntry q j) {l m : List ℕ} {c : ℕ}
    (hl : Owns d.fat (d.slot p i) l) (hm : Owns d.fat (d.slot q j) m) (hcl : c ∈ l) (hcm : c ∈ m) :
    p = q ∧ i = j := by
  by_contra h
  exact hd.disjoint p i q j l m hp hq (by simpa using h) hl hm hcl hcm

/-- A folder is listed once. -/
theorem listed_once (hd : d.Sound) (hp : d.LiveEntry p i) (hq : d.LiveEntry q j) (hf : (d.slot p i).IsFolder)
    (hf' : (d.slot q j).IsFolder) (hc : (d.slot p i).cluster = (d.slot q j).cluster) : p = q ∧ i = j :=
  hd.eq_of_shared hp hq (hd.folder_owns hp hf) (hd.folder_owns hq hf') List.mem_cons_self
    (by rw [hc]; exact List.mem_cons_self)

/-- The root is not listed. -/
theorem root_not_listed (hd : d.Sound) (hp : d.LiveDir p) : ¬ d.Lists p 2 := by
  rintro ⟨i, h1, h2, h3, h4, h5⟩
  have := (hd.folder_owns ⟨hp, h1, h2, h3⟩ h4).range _ List.mem_cons_self
  omega

/-- The cluster of a live directory is in no chain but that of its own entry: a chain that meets it
is that of a folder. -/
theorem folder_of_dir_mem (hd : d.Sound) (hq : d.LiveDir q) (hp : d.LiveEntry p i)
    (hl : Owns d.fat (d.slot p i) l) (hm : q ∈ l) :
    (d.slot p i).IsFolder ∧ (d.slot p i).cluster.toNat = q := by
  have hq2 : q ≠ 2 := by have := hl.range q hm; omega
  obtain ⟨p', i', hp', hf, rfl⟩ := hq.listed hq2
  obtain ⟨rfl, rfl⟩ := hd.eq_of_shared hp' hp (hd.folder_owns hp' hf) hl List.mem_cons_self hm
  exact ⟨hf, rfl⟩

end Sound

end Disk

/-! ## Directory tables -/

theorem live_dotDotEntry {e : FAT32DirectoryEntry} (h : e.Live) : (dotDotEntry e).Live := h

theorem dotDotEntry_name (e : FAT32DirectoryEntry) : (dotDotEntry e).name = dotDot := rfl

theorem dotDotEntry_cluster (e : FAT32DirectoryEntry) : (dotDotEntry e).cluster = e.cluster := rfl

theorem dotDotEntry_filesize (e : FAT32DirectoryEntry) : (dotDotEntry e).filesize = e.filesize := rfl

namespace DirShape

variable {t : FAT32DirectoryTable} {e : FAT32DirectoryEntry} {j : ℕ}

theorem store (h : DirShape t) (hj : 2 ≤ j) (hj' : j < 64) (he : e.Live ∨ e = default) :
    DirShape (store t j e) where
  self := by rw [cell_store_ne _ _ (by omega)]; exact h.self
  parent := by rw [cell_store_ne _ _ (by omega)]; exact h.parent
  unused i hi hn := by
    rw [cell_store _ _ _ hj'] at hn ⊢
    split at hn
    · rw [if_pos ‹_›]; exact he.resolve_left hn
    · rw [if_neg ‹_›]; exact h.unused i hi hn

theorem newDirectory {self parent : FAT32DirectoryEntry} (hs : self.Live) (hp : parent.Live) :
    DirShape (newDirectory self parent) where
  self := by
    unfold Fat32.newDirectory
    rw [cell_store_ne _ _ (by omega), cell_store_self _ _ (by omega)]; exact hs
  parent := by
    unfold Fat32.newDirectory
    rw [cell_store_self _ _ (by omega)]; exact hp
  unused i hi hn := by
    unfold Fat32.newDirectory at hn ⊢
    rw [cell_store _ _ _ (by omega), cell_store _ _ _ (by omega)] at hn ⊢
    split_ifs at hn ⊢
    · exact absurd hp hn
    · exact absurd hs hn
    · exact cell_zeroTable i

end DirShape

theorem cell_newDirectory_zero (self parent : FAT32DirectoryEntry) : cell (newDirectory self parent) 0 = self := by
  unfold newDirectory
  rw [cell_store_ne _ _ (by omega), cell_store_self _ _ (by omega)]

theorem cell_newDirectory_one (self parent : FAT32DirectoryEntry) : cell (newDirectory self parent) 1 = parent := by
  unfold newDirectory
  rw [cell_store_self _ _ (by omega)]

theorem cell_newDirectory_of_ge {self parent : FAT32DirectoryEntry} {i : ℕ} (hi : 2 ≤ i) :
    cell (newDirectory self parent) i = default := by
  unfold newDirectory
  rw [cell_store_ne _ _ (by omega), cell_store_ne _ _ (by omega), cell_zeroTable]

end BebasOs.Fat32
