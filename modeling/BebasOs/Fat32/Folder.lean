/-
Making a folder and removing it. Removing a folder that was just made undoes it, up to the bytes of its
own cluster; once the folder has an entry, the delete finds it and refuses, whatever else was written
meanwhile.
-/
import BebasOs.Fat32.Read

namespace BebasOs.Fat32

open Bytes Links Search Disk Relation

variable {π : Platform} {s s' t u : Machine} {r q w : FAT32DriverRequest} {d d' : Disk} {i j c k p : ℕ} {l : List ℕ}
  {zs : List UInt32}

/-- `q` asks for the folder that `r` makes. -/
structure SameFolder (r q : FAT32DriverRequest) : Prop where
  parent : q.parentClusterNumber = r.parentClusterNumber
  name : q.name = r.name
  ext : q.ext = r.ext

theorem SameFolder.parent_eq (h : SameFolder r q) : q.parent = r.parent := congrArg UInt32.toNat h.parent

/-! ## Undoing -/

namespace Stored

variable (h : Stored s r j c s') (hd : s.disk.Sound) (hp : s.disk.LiveDir r.parent) (hb : r.bufferSize = 0)
include h hd hp hb

theorem folder_slot : s'.disk.slot r.parent j = selfEntry r.name (UInt32.ofNat c) := by
  rw [h.slot_new hd.grounded hp (h.slot_hi_of_folder hb), newEntry_folder hb]

theorem folder_cluster : (s'.disk.slot r.parent j).cluster.toNat = c := by
  rw [h.slot_new hd.grounded hp (h.slot_hi_of_folder hb), newEntry_cluster r h.cluster_range.2.1]

/-- A new folder has no entry. -/
theorem not_hasEntry : ¬ s'.disk.HasEntry c := by
  rintro ⟨i, h1, -, h3⟩
  have hi := h.inserted hd.grounded hp (h.slot_hi_of_folder hb)
  have hslot := hi.slot_folder ((newEntry_isFolder r c).2 hb) h1
  rw [newEntry_cluster r h.cluster_range.2.1] at hslot
  rw [hslot] at h3
  exact FAT32DirectoryEntry.not_live_default h3

/-- The table of files with the folder, without it. -/
theorem fat_undone : store s'.disk.fat c fatEmptyEntry = s.disk.fat := by
  have hfat : s'.disk.fat = store s.disk.fat c fatEndOfFile := by
    rw [← h.coherent hd.grounded hp, h.fat, taken_of_folder hb h.free, link_singleton]
  rw [hfat, store_store, ← h.cluster_range.2.2]
  exact store_cell_self _ _

/-- The parent with the folder, without it. -/
theorem table_undone : store (s'.disk.table r.parent) j default = s.disk.table r.parent := by
  have hj := h.slot_hi_of_folder hb
  have hfree : cell (s.disk.table r.parent) j = default := (hd.shape _ hp).unused j hj (h.slot_free hj)
  rw [(h.inserted hd.grounded hp hj).table, store_store, ← hfree]
  exact store_cell_self _ _

theorem folder_ne_root : (s'.disk.slot r.parent j).cluster ≠ rootClusterNumber := fun he => by
  have hc := h.folder_cluster hd hp hb
  rw [he] at hc
  have := h.cluster_range.1
  rw [← hc] at this
  exact absurd this (by decide)

/-- A delete of the folder just made undoes it. -/
theorem delete_undoes (hx : newExt r = r.ext) (hq : SameFolder r q) :
    ∃ s'', delete π s' q = some (0, s'') ∧ s''.disk.cluster 1 = s.disk.cluster 1 ∧
      s''.disk.cluster r.parent = s.disk.cluster r.parent ∧
      ∀ x, x ≠ c → s''.disk.cluster x = s.disk.cluster x := by
  obtain ⟨hp2, hp512⟩ := hd.liveDir_range hp
  have hj := h.slot_hi_of_folder hb
  have hqp := hq.parent_eq
  have hc := h.folder_cluster hd hp hb
  have hcr := h.cluster_range
  have hslot : s'.disk.slot q.parent j = s'.disk.slot r.parent j := by rw [hqp]
  obtain ⟨s'', hdel, hfreed⟩ := delete_free (π := π) (r := q) (by rw [hqp]; exact hp512)
    (h.resolves hd.grounded hp hj hqp hq.name hq.ext hx) (by rw [hslot]; exact h.folder_ne_root hd hp hb)
    (by rw [hslot, h.folder_slot hd hp hb]; rfl) (by rw [hslot, hc]; exact hcr.2.1)
    (by rw [hslot, hc]; exact h.not_hasEntry hd hp hb)
  have hfat := hfreed.cluster_fat (by rw [hqp]; exact hp2) (by rw [hqp]; exact hp512)
  have hpar := hfreed.cluster_parent (by rw [hqp]; exact hp512)
  rw [hslot, hc, h.fat_undone hd hp hb] at hfat
  rw [hqp, h.table_undone hd hp hb] at hpar
  have hfat' : s''.disk.cluster 1 = s.disk.cluster 1 := hfat.trans (Equiv.apply_symm_apply _ _)
  have hpar' : s''.disk.cluster r.parent = s.disk.cluster r.parent := hpar.trans (Equiv.apply_symm_apply _ _)
  refine ⟨s'', hdel, hfat', hpar', fun x hxc => ?_⟩
  by_cases h1 : x = 1
  · rw [h1, hfat']
  by_cases hxp : x = r.parent
  · rw [hxp, hpar']
  rw [hfreed.cluster_other (by rw [hqp]; exact hp512) h1 (by rw [hqp]; exact hxp) (by rw [hslot, hc]; exact hxc)]
  refine (h.inserted hd.grounded hp hj).others x h1 hxp fun hm => ?_
  rw [taken_of_folder hb h.free] at hm
  exact hxc (List.mem_singleton.1 hm)

end Stored

/-! ## A folder with entries -/

/-- A request made while the folder in cluster `c` is there: it goes to a live directory, and if it is a
delete, it takes an entry out of that folder. -/
structure Meanwhile (c : ℕ) (d : Disk) (q : Request) : Prop where
  live : d.LiveDir q.data.parent
  delete : ∀ r, q = .delete r → r.parent = c ∧ ∀ i, Resolves d r i → 2 ≤ i ∧ (d.slot c i).Live

/-- The first slot with the name of the request is the folder in cluster `c`, the slots before it are in
use, and the folders in it have no size. -/
structure Hosts (d : Disk) (q : FAT32DriverRequest) (j c : ℕ) : Prop where
  sound : d.Sound
  dir : d.LiveDir q.parent
  lo : 2 ≤ j
  hi : j < 64
  cluster : 3 ≤ c ∧ c < 512
  ne : q.parent ≠ c
  before : ∀ i < j, (d.slot q.parent i).Live ∧ (d.slot q.parent i).hasName q.name q.ext = false
  slot : d.slot q.parent j = selfEntry q.name (UInt32.ofNat c)
  ext : q.ext = Vector.replicate 3 0
  sized : ∀ k, d.LiveEntry c k → (d.slot c k).IsFolder → (d.slot c k).filesize = 0

namespace Hosts

theorem slot_cluster (h : Hosts d q j c) : (d.slot q.parent j).cluster.toNat = c := by
  have hc : (selfEntry q.name (UInt32.ofNat c)).cluster = UInt32.ofNat c :=
    FAT32DirectoryEntry.cluster_of_halves rfl rfl
  rw [h.slot, hc, toNat_ofNat_cluster h.cluster.2]

theorem liveEntry (h : Hosts d q j c) : d.LiveEntry q.parent j := ⟨h.dir, h.lo, h.hi, by rw [h.slot]; rfl⟩

theorem isFolder (h : Hosts d q j c) : (d.slot q.parent j).IsFolder := by rw [h.slot]; rfl

theorem child (h : Hosts d q j c) : d.LiveDir c :=
  h.dir.tail ⟨j, h.lo, h.hi, h.liveEntry.live, h.isFolder, h.slot_cluster⟩

theorem resolves (h : Hosts d q j c) : Resolves d q j := by
  refine first_eq_some.2 ⟨Nat.zero_le j, h.hi, ?_, fun i _ hi => (h.before i hi).2⟩
  show (d.slot q.parent j).hasName q.name q.ext = true
  rw [h.slot, FAT32DirectoryEntry.hasName_iff, h.ext]
  exact ⟨rfl, show (default : FAT32DirectoryEntry).ext = _ by decide⟩

/-- A slot not in use comes after the folder. -/
theorem lt_of_free (h : Hosts d q j c) (hk : ¬ (d.slot q.parent k).Live) : j < k := by
  by_contra hle
  rcases Nat.lt_or_eq_of_le (Nat.le_of_not_lt hle) with hlt | rfl
  · exact hk (h.before k hlt).1
  · exact hk h.liveEntry.live

theorem of_slots (h : Hosts d q j c) (hs : d'.Sound) (hd : d'.LiveDir q.parent)
    (hslot : ∀ i ≤ j, d'.slot q.parent i = d.slot q.parent i)
    (hz : ∀ k, d'.LiveEntry c k → (d'.slot c k).IsFolder → (d'.slot c k).filesize = 0) : Hosts d' q j c where
  sound := hs
  dir := hd
  lo := h.lo
  hi := h.hi
  cluster := h.cluster
  ne := h.ne
  before i hi := by rw [hslot i (Nat.le_of_lt hi)]; exact h.before i hi
  slot := by rw [hslot j (Nat.le_refl j)]; exact h.slot
  ext := h.ext
  sized := hz

theorem inserted {e : FAT32DirectoryEntry} {cs : List ℕ} (h : Hosts d q j c) (hi : d.Inserted d' p k e cs) :
    Hosts d' q j c := by
  have hg := h.sound.grounded
  refine h.of_slots (hi.sound h.sound) (hi.liveDir_mono hg h.dir) (fun i hij => ?_) fun x hx hf => ?_
  · rw [hi.slot_eq hg h.dir, if_neg]
    rintro ⟨rfl, rfl⟩
    exact absurd (h.lt_of_free hi.free) (Nat.not_lt.2 hij)
  · rcases (hi.liveEntry_iff hg).1 hx with hx | ⟨rfl, rfl⟩
    · rw [hi.slot_old hg hx] at hf ⊢
      exact h.sized x hx hf
    · rw [hi.slot_new hg] at hf ⊢
      exact (hi.folder hf).1

theorem kept (h : Hosts d q j c) (hk : d.Kept d') : Hosts d' q j c := by
  refine h.of_slots (hk.sound h.sound) ((hk.liveDir_iff h.sound).2 h.dir) (fun i _ => hk.slot_eq h.sound h.dir i)
    fun x hx hf => ?_
  have hx := (hk.liveEntry_iff h.sound).1 hx
  rw [hk.slot_eq h.sound hx.dir] at hf ⊢
  exact h.sized x hx hf

/-- Taking an entry out of the folder leaves its parent alone: the parent is not that entry, since it has
entries itself. -/
theorem removed (h : Hosts d q j c) (hr : d.Removed d' c k l) : Hosts d' q j c := by
  have hnot : (d.slot c k).IsFolder → q.parent ≠ (d.slot c k).cluster.toNat := fun hf he =>
    hr.empty hf ⟨j, h.lo, h.hi, by rw [← he]; exact h.liveEntry.live⟩
  refine h.of_slots (hr.sound h.sound) ((hr.liveDir_iff h.sound).2 ⟨h.dir, fun hc => hnot hc.1 hc.2⟩) (fun i _ => ?_)
    fun x hx hf => ?_
  · rw [hr.slot_eq h.sound h.dir hnot, if_neg fun hc => h.ne hc.1]
  · obtain ⟨hx, hxk⟩ := (hr.liveEntry_iff h.sound).1 hx
    rw [hr.slot_old h.sound hx hxk] at hf ⊢
    exact h.sized x hx hf

theorem effect {q' : Request} {code : Int} (h : Hosts s.disk q j c) (hq : Meanwhile c s.disk q')
    (he : Effect s q' code s') : Hosts s'.disk q j c := by
  have hg := h.sound.grounded
  cases he with
  | idle hdisk => rw [hdisk]; exact h
  | @stored r k a s' hst =>
    have hp : s.disk.LiveDir r.parent := hq.live
    rcases Nat.lt_or_ge k 64 with hk | hk
    · exact h.inserted (hst.inserted hg hp hk)
    · exact h.kept (hst.kept hg hp hk)
  | @freed r i s' hf =>
    obtain ⟨rfl, hlive⟩ := hq.delete r rfl
    obtain ⟨h2, hl⟩ := hlive i hf.resolves
    exact h.removed (hf.removed h.sound ⟨hq.live, h2, hf.resolves.spec.1, hl⟩)
  | @purged r i zs s' hf =>
    obtain ⟨rfl, hlive⟩ := hq.delete r rfl
    obtain ⟨h2, hl⟩ := hlive i hf.resolves
    have he : s.disk.LiveEntry r.parent i := ⟨hq.live, h2, hf.resolves.spec.1, hl⟩
    obtain ⟨l, hr, -⟩ := hf.removed h.sound ⟨he, fun hfold => hf.size (h.sized i he hfold)⟩
    exact h.removed hr

theorem run (h : Hosts s.disk q j c) (hrun : ReflTransGen (Step π (Meanwhile c)) s t) : Hosts t.disk q j c :=
  run_invariant (I := fun t => Hosts t.disk q j c) h
    (fun _ _ _ _ hs hP hq => hs.effect hP (perform_effect hs.sound hP.live hq)) hrun

/-- A write into the folder that answered 0 leaves an entry in it, even where it had no free slot left. -/
theorem hasEntry_of_write (h : Hosts s.disk q j c) (hw : w.parent = c) (hr : write π s w = some (0, s')) :
    s'.disk.HasEntry c := by
  subst hw
  have hg := h.sound.grounded
  obtain ⟨k, a, hst⟩ := stored_of_write hg h.child hr
  rcases Nat.lt_or_ge k 64 with hk | hk
  · have he := hst.liveEntry hg h.child hk
    exact ⟨k, he.lo, he.hi, he.live⟩
  · refine ⟨2, Nat.le_refl 2, by omega, ?_⟩
    rw [(hst.kept hg h.child hk).slot_eq h.sound h.child]
    exact hst.slot_before (by omega) (by omega)

/-- The folder with an entry is not removed. -/
theorem delete_refused (h : Hosts s.disk q j c) (he : s.disk.HasEntry c) :
    ∃ s', delete π s q = some (2, s') ∧ s'.disk = s.disk := by
  have hc := h.slot_cluster
  have hroot : (s.disk.slot q.parent j).cluster ≠ rootClusterNumber := fun hr => by
    have h3 := h.cluster.1
    rw [← hc, hr] at h3
    exact absurd h3 (by decide)
  obtain ⟨k, hk⟩ : ∃ k, firstEntry s.disk (s.disk.slot q.parent j).cluster = some k := by
    refine Option.ne_none_iff_exists'.1 fun hn => ?_
    rw [firstEntry_eq_none (by rw [hc]; exact h.cluster.2), hc] at hn
    exact hn he
  refine ⟨reloaded s q, ?_, rfl⟩
  rw [delete_eq (h.sound.liveDir_range h.dir).2]
  exact deleteLoaded_hasEntry (reloaded_dirTableBuf s q) h.resolves hroot (by rw [← Disk.slot, h.slot]; rfl) hk

end Hosts

/-- A folder just made hosts what is written into it. -/
theorem Stored.hosts (h : Stored s r j c s') (hd : s.disk.Sound) (hp : s.disk.LiveDir r.parent)
    (hb : r.bufferSize = 0) (hx : r.ext = Vector.replicate 3 0) (hq : SameFolder r q) : Hosts s'.disk q j c := by
  have hg := hd.grounded
  have hj := h.slot_hi_of_folder hb
  have hi := h.inserted hg hp hj
  have hqp := hq.parent_eq
  have hold (i : ℕ) (hlt : i < j) : s'.disk.slot r.parent i = s.disk.slot r.parent i := by
    rw [hi.slot_eq hg hp, if_neg (by omega)]
  refine ⟨hi.sound hd, by rw [hqp]; exact hi.liveDir_mono hg hp, h.slot_lo hg hp, hj, ⟨h.cluster_range.1,
    h.cluster_range.2.1⟩, fun he => hg.used _ hp (by rw [← hqp, he]; exact h.cluster_range.2.2), fun i hlt => ?_, ?_,
    by rw [hq.ext, hx], fun k he _ => absurd ⟨k, he.lo, he.hi, he.live⟩ (h.not_hasEntry hd hp hb)⟩
  · rw [hqp, hold i hlt, hq.name, hq.ext]
    exact ⟨h.slot_before hlt (by omega), first_eq_none.1 h.unmatched i (Nat.zero_le i) (by omega)⟩
  · rw [hqp, h.folder_slot hd hp hb, hq.name]

/-- A folder that was made is removed again by a delete of its name, with the table of files and the parent
as they were before and nothing else touched but the folder's own cluster. In the states that requests to
live directories lead to from there, deletes from the folder itself included, a write into the folder
that answers 0 leaves an entry in it, and with an entry in it the delete answers 2 and leaves the disk alone. -/
theorem create_delete_folder (hd : s.disk.WellFormed) (hp : s.disk.LiveDir r.parent) (hb : r.bufferSize = 0)
    (hx : r.ext = Vector.replicate 3 0) (hw : write π s r = some (0, s')) (hq : SameFolder r q) :
    ∃ j c, Resolves s'.disk q j ∧ (s'.disk.slot q.parent j).cluster.toNat = c ∧
      (∃ s'', delete π s' q = some (0, s'') ∧ s''.disk.cluster 1 = s.disk.cluster 1 ∧
        s''.disk.cluster r.parent = s.disk.cluster r.parent ∧
        ∀ x, x ≠ c → s''.disk.cluster x = s.disk.cluster x) ∧
      ∀ t, ReflTransGen (Step π (Meanwhile c)) s' t →
        (∀ w u, w.parent = c → write π t w = some (0, u) → u.disk.HasEntry c) ∧
        (t.disk.HasEntry c → ∃ t', delete π t q = some (2, t') ∧ t'.disk = t.disk) := by
  have hd := hd.toSound
  obtain ⟨j, c, h⟩ := stored_of_write hd.grounded hp hw
  have hext : newExt r = r.ext := (if_pos hb).trans hx.symm
  have hmade := h.hosts hd hp hb hx hq
  refine ⟨j, c, hmade.resolves, hmade.slot_cluster, h.delete_undoes hd hp hb hext hq, fun t hrun => ?_⟩
  have hosts := hmade.run hrun
  exact ⟨fun w u hwp hr => hosts.hasEntry_of_write hwp hr, hosts.delete_refused⟩

/-- The folder `b` on a new disk. -/
theorem create_delete_folderB :
    ∃ s s' s'', write zeroPlatform s folderB = some (0, s') ∧ delete zeroPlatform s' folderB = some (0, s'') ∧
      s''.disk.cluster 1 = s.disk.cluster 1 ∧ s''.disk.cluster 2 = s.disk.cluster 2 := by
  obtain ⟨s, s', -, hf, hs, -⟩ := exists_holdsFolder
  obtain ⟨-, -, -, -, ⟨s'', hdel, hfat, hpar, -⟩, -⟩ := create_delete_folder (r := folderB) (q := folderB) hf.wellFormed
    s.disk.liveDir_root rfl rfl hs ⟨rfl, rfl, rfl⟩
  exact ⟨s, s', s'', hs, hdel, hfat, hpar⟩

end BebasOs.Fat32
