/-
The three changes a request makes to a well-formed disk: an entry is put into a free slot with
clusters that were free, an entry is taken out of its slot, or no entry changes while free clusters
are written. After each of them the live directories and entries are known exactly, the disk is
sound again, and the entries that stay keep their slot, their clusters and their bytes.
-/
import BebasOs.Fat32.WellFormed

namespace BebasOs.Fat32

open Bytes Links Relation

namespace Disk

variable {d d' : Disk} {p q i j : ℕ} {e : FAT32DirectoryEntry} {l cs : List ℕ}

/-- `d'` is `d` with the entry `e`, owning the clusters `cs`, in the free slot `j` of directory `p`. -/
structure Inserted (d d' : Disk) (p j : ℕ) (e : FAT32DirectoryEntry) (cs : List ℕ) : Prop where
  dir : d.LiveDir p
  lo : 2 ≤ j
  hi : j < 64
  free : ¬ (d.slot p j).Live
  live : e.Live
  table : d'.table p = store (d.table p) j e
  others : ∀ x, x ≠ 1 → x ≠ p → x ∉ cs → d'.cluster x = d.cluster x
  fat : ∀ c, c ∉ cs → cell d'.fat c = cell d.fat c
  owns : Owns d'.fat e cs
  fresh : ∀ c ∈ cs, cell d.fat c = fatEmptyEntry
  file : ¬ e.IsFolder → 1 ≤ e.filesize.toNat
  folder : e.IsFolder → e.filesize = 0 ∧
    d'.table e.cluster.toNat = newDirectory e (dotDotEntry (d.slot p 0))

/-- `d'` is `d` without the entry in slot `j` of directory `p`, which owned the clusters `l` and, if it
was a folder, had no entries. -/
structure Removed (d d' : Disk) (p j : ℕ) (l : List ℕ) : Prop where
  entry : d.LiveEntry p j
  owns : Owns d.fat (d.slot p j) l
  empty : (d.slot p j).IsFolder → ¬ d.HasEntry (d.slot p j).cluster.toNat
  table : d'.table p = store (d.table p) j default
  others : ∀ x, x ≠ 1 → x ≠ p → x ∉ l → d'.cluster x = d.cluster x
  fat : ∀ c, c ∉ l → cell d'.fat c = cell d.fat c

/-- `d'` is `d` up to cluster 0, its table entry, and clusters that were free. -/
structure Kept (d d' : Disk) : Prop where
  others : ∀ x, 2 ≤ x → cell d.fat x ≠ fatEmptyEntry → d'.cluster x = d.cluster x
  fat : ∀ c, 1 ≤ c → cell d.fat c ≠ fatEmptyEntry → cell d'.fat c = cell d.fat c

/-- Cluster 0 and the first three table entries of `d'` are those of `d`. -/
structure SameBoot (d d' : Disk) : Prop where
  cluster : d'.cluster 0 = d.cluster 0
  fat : ∀ x < 3, cell d'.fat x = cell d.fat x

theorem SameBoot.wellFormed (h : d.SameBoot d') (hd : d.WellFormed) (hs : d'.Sound) : d'.WellFormed where
  toSound := hs
  signature := by rw [bootSector_congr h.cluster]; exact hd.signature
  fat0 := by rw [h.fat 0 (by omega)]; exact hd.fat0

/-! ## From entries to soundness -/

/-- A disk is sound when each of its entries is an old one on clusters whose table entries stayed, or
the one new entry, in slot `j` of directory `p`, on clusters that were free. -/
theorem Sound.of_entries (hd : d.Sound) (h1 : cell d'.fat 1 ≠ fatEmptyEntry) (h2 : cell d'.fat 2 ≠ fatEmptyEntry)
    (hs : ∀ q, d'.LiveDir q → DirShape (d'.table q))
    (he : ∀ q i, d'.LiveEntry q i →
      (d.LiveEntry q i ∧ d'.slot q i = d.slot q i ∧
        ∀ l, Owns d.fat (d.slot q i) l → ∀ c ∈ l, cell d'.fat c = cell d.fat c) ∨
      ((q, i) = (p, j) ∧ (¬ (d'.slot q i).IsFolder → 1 ≤ (d'.slot q i).filesize.toNat) ∧
        ∃ cs, Owns d'.fat (d'.slot q i) cs ∧ ∀ c ∈ cs, cell d.fat c = fatEmptyEntry)) : d'.Sound := by
  refine ⟨h1, h2, hs, fun q i h => ?_, fun q i h => ?_, fun q i q' i' l m h h' hne hl hm => ?_⟩
  · rcases he q i h.toLiveEntry with ⟨h3, h4, -⟩ | ⟨-, h3, -⟩
    · rw [h4]; exact hd.size q i ⟨h3, by rw [← h4]; exact h.file⟩
    · exact h3 h.file
  · rcases he q i h with ⟨h3, h4, h5⟩ | ⟨-, -, cs, h3, -⟩
    · obtain ⟨l, hl⟩ := hd.owns q i h3
      exact ⟨l, by rw [h4]; exact hl.congr (h5 l hl)⟩
    · exact ⟨cs, h3⟩
  · -- an old chain is the chain it was, and its clusters were taken
    have old {q i l} (h3 : d.LiveEntry q i) (h4 : d'.slot q i = d.slot q i)
        (h5 : ∀ l, Owns d.fat (d.slot q i) l → ∀ c ∈ l, cell d'.fat c = cell d.fat c)
        (hl : Owns d'.fat (d'.slot q i) l) : Owns d.fat (d.slot q i) l := by
      obtain ⟨l', hl'⟩ := hd.owns q i h3
      rw [h4] at hl
      rwa [hl.unique (hl'.congr (h5 l' hl'))]
    rcases he q i h with ⟨h3, h4, h5⟩ | ⟨h3, -, cs, hcs, h5⟩ <;>
      rcases he q' i' h' with ⟨h3', h4', h5'⟩ | ⟨h3', -, cs', hcs', h5'⟩
    · exact hd.disjoint q i q' i' l m h3 h3' hne (old h3 h4 h5 hl) (old h3' h4' h5' hm)
    · intro c hc hc'
      exact (old h3 h4 h5 hl).used c hc (h5' c (by rw [hcs'.unique hm]; exact hc'))
    · intro c hc hc'
      exact (old h3' h4' h5' hm).used c hc' (h5 c (by rw [hcs.unique hl]; exact hc))
    · exact absurd (h3.trans h3'.symm) hne

/-! ## Putting an entry in -/

namespace Inserted

theorem not_mem_of_used (h : d.Inserted d' p j e cs) {c : ℕ} (hc : cell d.fat c ≠ fatEmptyEntry) : c ∉ cs :=
  fun hm => hc (h.fresh c hm)

theorem fat_of_used (h : d.Inserted d' p j e cs) {c : ℕ} (hc : cell d.fat c ≠ fatEmptyEntry) :
    cell d'.fat c = cell d.fat c := h.fat c (h.not_mem_of_used hc)

theorem cluster_eq (h : d.Inserted d' p j e cs) {x : ℕ} (h1 : x ≠ 1) (hp : x ≠ p)
    (hx : cell d.fat x ≠ fatEmptyEntry) : d'.cluster x = d.cluster x :=
  h.others x h1 hp (h.not_mem_of_used hx)

/-- The other directories are not written. -/
theorem table_other (hd : d.Grounded) (h : d.Inserted d' p j e cs) (hq : d.LiveDir q) (hne : q ≠ p) :
    d'.table q = d.table q := by
  have := hd.range q hq
  exact table_congr (h.cluster_eq (by omega) hne (hd.used q hq))

theorem slot_eq (hd : d.Grounded) (h : d.Inserted d' p j e cs) (hq : d.LiveDir q) (i : ℕ) :
    d'.slot q i = if q = p ∧ i = j then e else d.slot q i := by
  unfold slot
  by_cases hp : q = p
  · subst hp
    rw [h.table, cell_store _ _ _ h.hi]
    simp
  · rw [h.table_other hd hq hp, if_neg (by tauto)]

theorem slot_new (hd : d.Grounded) (h : d.Inserted d' p j e cs) : d'.slot p j = e := by
  rw [h.slot_eq hd h.dir, if_pos ⟨rfl, rfl⟩]

theorem slot_old (hd : d.Grounded) (h : d.Inserted d' p j e cs) (hq : d.LiveEntry q i) :
    d'.slot q i = d.slot q i := by
  rw [h.slot_eq hd hq.dir, if_neg]
  rintro ⟨rfl, rfl⟩
  exact h.free hq.live

/-- The special slots of the directories stay. -/
theorem slot_special (hd : d.Grounded) (h : d.Inserted d' p j e cs) (hq : d.LiveDir q) (hi : i < 2) :
    d'.slot q i = d.slot q i := by
  have := h.lo
  rw [h.slot_eq hd hq, if_neg (by omega)]

theorem slot_folder_zero (h : d.Inserted d' p j e cs) (hf : e.IsFolder) : d'.slot e.cluster.toNat 0 = e := by
  unfold slot; rw [(h.folder hf).2]; exact cell_newDirectory_zero e _

theorem slot_folder_one (h : d.Inserted d' p j e cs) (hf : e.IsFolder) :
    d'.slot e.cluster.toNat 1 = dotDotEntry (d.slot p 0) := by
  unfold slot; rw [(h.folder hf).2]; exact cell_newDirectory_one e _

theorem slot_folder (h : d.Inserted d' p j e cs) (hf : e.IsFolder) (hi : 2 ≤ i) :
    d'.slot e.cluster.toNat i = default := by
  unfold slot; rw [(h.folder hf).2]; exact cell_newDirectory_of_ge hi

/-- A new folder lists nothing. -/
theorem not_lists_folder (h : d.Inserted d' p j e cs) (hf : e.IsFolder) (c : ℕ) : ¬ d'.Lists e.cluster.toNat c := by
  rintro ⟨i, h1, -, h3, -⟩
  rw [h.slot_folder hf h1] at h3
  exact FAT32DirectoryEntry.not_live_default h3

theorem lists_iff (hd : d.Grounded) (h : d.Inserted d' p j e cs) (hq : d.LiveDir q) (c : ℕ) :
    d'.Lists q c ↔ d.Lists q c ∨ q = p ∧ e.IsFolder ∧ c = e.cluster.toNat := by
  constructor
  · rintro ⟨i, h1, h2, h3, h4, h5⟩
    rw [h.slot_eq hd hq] at h3 h4 h5
    split at h3
    · rename_i hi
      rw [if_pos hi] at h4 h5
      exact .inr ⟨hi.1, h4, h5.symm⟩
    · rename_i hi
      rw [if_neg hi] at h4 h5
      exact .inl ⟨i, h1, h2, h3, h4, h5⟩
  · rintro (⟨i, h1, h2, h3, h4, h5⟩ | ⟨rfl, h4, rfl⟩)
    · refine ⟨i, h1, h2, ?_⟩
      rw [h.slot_old hd ⟨hq, h1, h2, h3⟩]
      exact ⟨h3, h4, h5⟩
    · refine ⟨j, h.lo, h.hi, ?_⟩
      rw [h.slot_new hd]
      exact ⟨h.live, h4, rfl⟩

theorem liveDir_iff (hd : d.Grounded) (h : d.Inserted d' p j e cs) :
    d'.LiveDir q ↔ d.LiveDir q ∨ e.IsFolder ∧ q = e.cluster.toNat := by
  by_cases hf : e.IsFolder
  · have := Reach.insert_leaf (s := d'.Lists) (n := e.cluster.toNat) h.dir
      (fun a ha b => by rw [h.lists_iff hd ha]; simp only [hf, true_and]) ?_ (a := q)
    · simp only [hf, true_and]
      exact this
    · exact h.not_lists_folder hf
  · have := Reach.congr_on (r := d.Lists) (s := d'.Lists) (x := 2)
      (fun a ha b => by rw [h.lists_iff hd ha]; simp only [hf, false_and, and_false, or_false]) (a := q)
    simp only [hf, false_and, or_false]
    exact this.symm

theorem liveDir_mono (hd : d.Grounded) (h : d.Inserted d' p j e cs) (hq : d.LiveDir q) : d'.LiveDir q :=
  (h.liveDir_iff hd).2 (.inl hq)

/-- What a directory lists, it listed before, or it is the new folder in its parent. -/
theorem lists_cases (hd : d.Grounded) (h : d.Inserted d' p j e cs) (hq : d'.LiveDir q) {c : ℕ} (hl : d'.Lists q c) :
    d.LiveDir q ∧ (d.Lists q c ∨ q = p ∧ e.IsFolder ∧ c = e.cluster.toNat) := by
  rcases (h.liveDir_iff hd).1 hq with hq | ⟨hf, rfl⟩
  · exact ⟨hq, (h.lists_iff hd hq c).1 hl⟩
  · exact absurd hl (h.not_lists_folder hf c)

theorem liveEntry_iff (hd : d.Grounded) (h : d.Inserted d' p j e cs) :
    d'.LiveEntry q i ↔ d.LiveEntry q i ∨ q = p ∧ i = j := by
  constructor
  · rintro ⟨h1, h2, h3, h4⟩
    rcases (h.liveDir_iff hd).1 h1 with hq | ⟨hf, rfl⟩
    · rw [h.slot_eq hd hq] at h4
      split at h4
      · exact .inr ‹_›
      · exact .inl ⟨hq, h2, h3, h4⟩
    · rw [h.slot_folder hf h2] at h4
      exact absurd h4 FAT32DirectoryEntry.not_live_default
  · rintro (hq | ⟨rfl, rfl⟩)
    · exact ⟨h.liveDir_mono hd hq.dir, hq.lo, hq.hi, by rw [h.slot_old hd hq]; exact hq.live⟩
    · exact ⟨h.liveDir_mono hd h.dir, h.lo, h.hi, by rw [h.slot_new hd]; exact h.live⟩

theorem fat_of_mem (h : d.Inserted d' p j e cs) {e' : FAT32DirectoryEntry} (hl : Owns d.fat e' l) :
    ∀ c ∈ l, cell d'.fat c = cell d.fat c := fun c hc => h.fat_of_used (hl.used c hc)

theorem shape (hd : d.Grounded) (h : d.Inserted d' p j e cs) (hq : d'.LiveDir q) : DirShape (d'.table q) := by
  rcases (h.liveDir_iff hd).1 hq with hq | ⟨hf, rfl⟩
  · by_cases hp : q = p
    · subst hp
      rw [h.table]; exact (hd.shape q hq).store h.lo h.hi (.inl h.live)
    · rw [h.table_other hd hq hp]; exact hd.shape q hq
  · rw [(h.folder hf).2]; exact .newDirectory h.live (live_dotDotEntry (hd.shape p h.dir).self)

theorem grounded (hd : d.Grounded) (h : d.Inserted d' p j e cs) : d'.Grounded where
  fat1 := by rw [h.fat_of_used hd.fat1]; exact hd.fat1
  fat2 := by rw [h.fat_of_used hd.fat2]; exact hd.fat2
  shape _ := h.shape hd
  range q hq := by
    rcases (h.liveDir_iff hd).1 hq with hq | ⟨-, rfl⟩
    · exact hd.range q hq
    · have := h.owns.range _ h.owns.first_mem
      omega
  used q hq := by
    rcases (h.liveDir_iff hd).1 hq with hq | ⟨-, rfl⟩
    · rw [h.fat_of_used (hd.used q hq)]; exact hd.used q hq
    · exact h.owns.used _ h.owns.first_mem

theorem sound (hd : d.Sound) (h : d.Inserted d' p j e cs) : d'.Sound := by
  have hg := h.grounded hd.grounded
  refine hd.of_entries (p := p) (j := j) hg.fat1 hg.fat2 hg.shape fun q i hq => ?_
  rcases (h.liveEntry_iff hd.grounded).1 hq with hq | ⟨rfl, rfl⟩
  · exact .inl ⟨hq, h.slot_old hd.grounded hq, fun l hl => h.fat_of_mem hl⟩
  · rw [h.slot_new hd.grounded]
    exact .inr ⟨rfl, h.file, cs, h.owns, h.fresh⟩

/-- The clusters of an old file keep their bytes. -/
theorem cluster_of_mem (hd : d.Sound) (h : d.Inserted d' p j e cs) (hq : d.LiveFile q i)
    (hl : Owns d.fat (d.slot q i) l) : ∀ c ∈ l, d'.cluster c = d.cluster c := by
  intro c hc
  have hr := hl.range c hc
  refine h.cluster_eq (by omega) ?_ (hl.used c hc)
  rintro rfl
  exact hq.file (hd.folder_of_dir_mem h.dir hq.toLiveEntry hl hc).1

/-- An old file keeps its entry and its bytes. -/
theorem file_kept (hd : d.Sound) (h : d.Inserted d' p j e cs) (hq : d.LiveFile q i) :
    d'.LiveFile q i ∧ d'.slot q i = d.slot q i ∧ d'.fileBytes (d.slot q i) = d.fileBytes (d.slot q i) := by
  obtain ⟨l, hl⟩ := hd.owns q i hq.toLiveEntry
  have hs := h.slot_old hd.grounded hq.toLiveEntry
  refine ⟨⟨(h.liveEntry_iff hd.grounded).2 (.inl hq.toLiveEntry), by rw [hs]; exact hq.file⟩, hs, ?_⟩
  exact fileBytes_congr hl (h.fat_of_mem hl) (h.cluster_of_mem hd hq hl)

end Inserted

/-! ## Taking an entry out -/

namespace Removed

theorem slot_eq (hd : d.Sound) (h : d.Removed d' p j l) (hq : d.LiveDir q)
    (hf : (d.slot p j).IsFolder → q ≠ (d.slot p j).cluster.toNat) (i : ℕ) :
    d'.slot q i = if q = p ∧ i = j then default else d.slot q i := by
  unfold slot
  by_cases hp : q = p
  · subst hp
    rw [h.table, cell_store _ _ _ h.entry.hi]
    simp
  · have := hd.liveDir_range hq
    have hm : q ∉ l := fun hm => by
      obtain ⟨h1, h2⟩ := hd.folder_of_dir_mem hq h.entry h.owns hm
      exact hf h1 h2.symm
    rw [table_congr (h.others q (by omega) hp hm), if_neg (by tauto)]

theorem lists_iff (hd : d.Sound) (h : d.Removed d' p j l) (hq : d.LiveDir q)
    (hf : (d.slot p j).IsFolder → q ≠ (d.slot p j).cluster.toNat) (c : ℕ) :
    d'.Lists q c ↔ d.Lists q c ∧ ¬ ((d.slot p j).IsFolder ∧ c = (d.slot p j).cluster.toNat) := by
  constructor
  · rintro ⟨i, h1, h2, h3, h4, h5⟩
    rw [h.slot_eq hd hq hf] at h3 h4 h5
    split at h3
    · exact absurd h3 FAT32DirectoryEntry.not_live_default
    · rename_i hi
      rw [if_neg hi] at h4 h5
      refine ⟨⟨i, h1, h2, h3, h4, h5⟩, fun hc => hi ?_⟩
      exact hd.listed_once ⟨hq, h1, h2, h3⟩ h.entry h4 hc.1 (UInt32.toNat_inj.1 (h5.trans hc.2))
  · rintro ⟨⟨i, h1, h2, h3, h4, h5⟩, hc⟩
    refine ⟨i, h1, h2, ?_⟩
    rw [h.slot_eq hd hq hf, if_neg]
    · exact ⟨h3, h4, h5⟩
    · rintro ⟨rfl, rfl⟩
      exact hc ⟨h4, h5.symm⟩

theorem liveDir_iff (hd : d.Sound) (h : d.Removed d' p j l) :
    d'.LiveDir q ↔ d.LiveDir q ∧ ¬ ((d.slot p j).IsFolder ∧ q = (d.slot p j).cluster.toNat) := by
  by_cases hf : (d.slot p j).IsFolder
  · have hne : 2 ≠ (d.slot p j).cluster.toNat := fun hc => by
      have := (hd.folder_owns h.entry hf).range _ List.mem_cons_self
      omega
    have := Reach.delete_leaf (r := d.Lists) (s := d'.Lists) hne
      (fun _ b ⟨i, h1, h2, h3, _⟩ => h.empty hf ⟨i, h1, h2, h3⟩)
      (fun a ha hn b => by
        rw [h.lists_iff hd ha fun _ => hn]; simp only [hf, true_and, ne_eq]) (a := q)
    simp only [hf, true_and]
    exact this
  · have := Reach.congr_on (r := d.Lists) (s := d'.Lists) (x := 2)
      (fun a ha b => by
        rw [h.lists_iff hd ha fun hc => absurd hc hf]
        simp only [hf, false_and, not_false_eq_true, and_true]) (a := q)
    simp only [hf, false_and, not_false_eq_true, and_true]
    exact this.symm

theorem liveEntry_iff (hd : d.Sound) (h : d.Removed d' p j l) :
    d'.LiveEntry q i ↔ d.LiveEntry q i ∧ (q, i) ≠ (p, j) := by
  constructor
  · rintro ⟨h1, h2, h3, h4⟩
    obtain ⟨hq, hf⟩ := (h.liveDir_iff hd).1 h1
    rw [h.slot_eq hd hq fun hc he => hf ⟨hc, he⟩] at h4
    split at h4
    · exact absurd h4 FAT32DirectoryEntry.not_live_default
    · rename_i hi
      exact ⟨⟨hq, h2, h3, h4⟩, by simpa using hi⟩
  · rintro ⟨⟨hq, h2, h3, h4⟩, hne⟩
    have hf : ¬ ((d.slot p j).IsFolder ∧ q = (d.slot p j).cluster.toNat) := by
      rintro ⟨hf, rfl⟩
      exact h.empty hf ⟨i, h2, h3, h4⟩
    refine ⟨(h.liveDir_iff hd).2 ⟨hq, hf⟩, h2, h3, ?_⟩
    rw [h.slot_eq hd hq fun hc he => hf ⟨hc, he⟩, if_neg (by simpa using hne)]
    exact h4

theorem slot_old (hd : d.Sound) (h : d.Removed d' p j l) (hq : d.LiveEntry q i) (hne : (q, i) ≠ (p, j)) :
    d'.slot q i = d.slot q i := by
  rw [h.slot_eq hd hq.dir, if_neg (by simpa using hne)]
  rintro hf rfl
  exact h.empty hf ⟨i, hq.lo, hq.hi, hq.live⟩

theorem fat_of_mem (hd : d.Sound) (h : d.Removed d' p j l) (hq : d.LiveEntry q i) (hne : (q, i) ≠ (p, j))
    {m : List ℕ} (hm : Owns d.fat (d.slot q i) m) : ∀ c ∈ m, cell d'.fat c = cell d.fat c :=
  fun c hc => h.fat c fun hl => hd.disjoint q i p j m l hq h.entry hne hm h.owns hc hl

theorem fat_of_lt (h : d.Removed d' p j l) {c : ℕ} (hc : c < 3) : cell d'.fat c = cell d.fat c :=
  h.fat c fun hm => absurd (h.owns.range c hm) (by omega)

theorem sound (hd : d.Sound) (h : d.Removed d' p j l) : d'.Sound := by
  refine hd.of_entries (p := p) (j := j) (by rw [h.fat_of_lt (by omega)]; exact hd.fat1)
    (by rw [h.fat_of_lt (by omega)]; exact hd.fat2) (fun q hq => ?_) fun q i hq => ?_
  · obtain ⟨hq, hf⟩ := (h.liveDir_iff hd).1 hq
    by_cases hp : q = p
    · subst hp
      rw [h.table]; exact (hd.shape q hq).store h.entry.lo h.entry.hi (.inr rfl)
    · have hm : q ∉ l := fun hm => by
        obtain ⟨h1, h2⟩ := hd.folder_of_dir_mem hq h.entry h.owns hm
        exact hf ⟨h1, h2.symm⟩
      have := hd.liveDir_range hq
      rw [table_congr (h.others q (by omega) hp hm)]; exact hd.shape q hq
  · obtain ⟨hq, hne⟩ := (h.liveEntry_iff hd).1 hq
    exact .inl ⟨hq, h.slot_old hd hq hne, fun m hm => h.fat_of_mem hd hq hne hm⟩

theorem cluster_zero (hd : d.Sound) (h : d.Removed d' p j l) : d'.cluster 0 = d.cluster 0 := by
  have := hd.liveDir_range h.entry.dir
  exact h.others 0 (by omega) (by omega) fun hm => absurd (h.owns.range 0 hm) (by omega)

theorem sameBoot (hd : d.Sound) (h : d.Removed d' p j l) : d.SameBoot d' :=
  ⟨h.cluster_zero hd, fun _ hx => h.fat_of_lt hx⟩

/-- A file that stays keeps its entry and its bytes. -/
theorem file_kept (hd : d.Sound) (h : d.Removed d' p j l) (hq : d.LiveFile q i) (hne : (q, i) ≠ (p, j)) :
    d'.LiveFile q i ∧ d'.slot q i = d.slot q i ∧ d'.fileBytes (d.slot q i) = d.fileBytes (d.slot q i) := by
  obtain ⟨m, hm⟩ := hd.owns q i hq.toLiveEntry
  have hs := h.slot_old hd hq.toLiveEntry hne
  refine ⟨⟨(h.liveEntry_iff hd).2 ⟨hq.toLiveEntry, hne⟩, by rw [hs]; exact hq.file⟩, hs, ?_⟩
  refine fileBytes_congr hm (h.fat_of_mem hd hq.toLiveEntry hne hm) fun c hc => ?_
  have hr := hm.range c hc
  refine h.others c (by omega) ?_ fun hl => hd.disjoint q i p j m l hq.toLiveEntry h.entry hne hm h.owns hc hl
  rintro rfl
  exact hq.file (hd.folder_of_dir_mem h.entry.dir hq.toLiveEntry hm hc).1

end Removed

/-! ## Leaving the entries alone -/

/-- Where the table of each live directory is as it was, the same directories are live. -/
theorem liveDir_congr (h : ∀ p, d.LiveDir p → d'.table p = d.table p) : d'.LiveDir q ↔ d.LiveDir q := by
  refine (Reach.congr_on (r := d.Lists) (s := d'.Lists) fun p hp c => ?_).symm
  unfold Lists slot
  rw [h p hp]

namespace Kept

theorem table_eq (hd : d.Sound) (h : d.Kept d') (hq : d.LiveDir q) : d'.table q = d.table q :=
  table_congr (h.others q (hd.liveDir_range hq).1 (hd.liveDir_used hq))

theorem slot_eq (hd : d.Sound) (h : d.Kept d') (hq : d.LiveDir q) (i : ℕ) : d'.slot q i = d.slot q i := by
  unfold slot; rw [h.table_eq hd hq]

theorem liveDir_iff (hd : d.Sound) (h : d.Kept d') : d'.LiveDir q ↔ d.LiveDir q :=
  liveDir_congr fun _ hp => h.table_eq hd hp

theorem liveEntry_iff (hd : d.Sound) (h : d.Kept d') : d'.LiveEntry q i ↔ d.LiveEntry q i := by
  constructor
  · rintro ⟨h1, h2, h3, h4⟩
    have hq := (h.liveDir_iff hd).1 h1
    exact ⟨hq, h2, h3, by rw [← h.slot_eq hd hq]; exact h4⟩
  · rintro ⟨h1, h2, h3, h4⟩
    exact ⟨(h.liveDir_iff hd).2 h1, h2, h3, by rw [h.slot_eq hd h1]; exact h4⟩

theorem fat_of_mem (h : d.Kept d') {m : List ℕ} (hm : Owns d.fat e m) :
    ∀ c ∈ m, cell d'.fat c = cell d.fat c := fun c hc =>
  h.fat c (by have := hm.range c hc; omega) (hm.used c hc)

theorem sound (hd : d.Sound) (h : d.Kept d') : d'.Sound := by
  refine hd.of_entries (p := 0) (j := 0) (by rw [h.fat 1 (by omega) hd.fat1]; exact hd.fat1)
    (by rw [h.fat 2 (by omega) hd.fat2]; exact hd.fat2) (fun q hq => ?_) fun q i hq => ?_
  · have hq := (h.liveDir_iff hd).1 hq
    rw [h.table_eq hd hq]; exact hd.shape q hq
  · have hq := (h.liveEntry_iff hd).1 hq
    exact .inl ⟨hq, h.slot_eq hd hq.dir i, fun m hm => h.fat_of_mem hm⟩

/-- Every entry keeps its slot and its bytes. -/
theorem entry_kept (hd : d.Sound) (h : d.Kept d') (hq : d.LiveEntry q i) :
    d'.LiveEntry q i ∧ d'.slot q i = d.slot q i ∧ d'.fileBytes (d.slot q i) = d.fileBytes (d.slot q i) := by
  obtain ⟨m, hm⟩ := hd.owns q i hq
  refine ⟨(h.liveEntry_iff hd).2 hq, h.slot_eq hd hq.dir i, ?_⟩
  exact fileBytes_congr hm (h.fat_of_mem hm) fun c hc =>
    h.others c (by have := hm.range c hc; omega) (hm.used c hc)

end Kept

end Disk

end BebasOs.Fat32
