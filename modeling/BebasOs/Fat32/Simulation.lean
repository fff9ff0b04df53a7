/-
The driver refines the volume. What a request does to the disk it does to the tree of the disk, and the code, the bytes
and the listing it answers with are those of the volume; the invariant that carries this is made by formatting and kept
by every permitted request and by a restart.
-/
import BebasOs.Fat32.Answers
import BebasOs.Fat32.Space
import BebasOs.Fat32.SpecialNames

namespace BebasOs.Fat32

open Bytes Links Search Disk FileTree Shell

variable {π : Platform} {s s' : Machine} {r : FAT32DriverRequest} {d : Disk} {p i : ℕ} {k : Key} {ks : List Key}

/-- What holds of the machine between requests. -/
structure Consistent (π : Platform) (s : Machine) : Prop extends s.disk.WellFormed where
  dirs : s.disk.Tree
  names : s.disk.UniqueNames
  keyed : s.disk.Keyed π
  coherent : Coherent s

theorem Consistent.of_disk (h : Consistent π s) (hdisk : s'.disk = s.disk) (hc : Coherent s') : Consistent π s' := by
  obtain ⟨hw, ht, hu, hk, -⟩ := h
  rw [← hdisk] at hw ht hu hk
  exact ⟨hw, ht, hu, hk, hc⟩

/-! ## The tree and the tables -/

theorem volumeOf_space (d : Disk) : (volumeOf d).space = (freeClusters d.fat).length := rfl

theorem volumeOf_node (d : Disk) (ks : List Key) : (volumeOf d).tree.node ks = d.nodeAt ks := rfl

theorem space_eq_zero : (volumeOf d).space = 0 ↔ freeClusters d.fat = [] := by
  rw [volumeOf_space, List.length_eq_zero_iff]

theorem children_nonempty (hp : d.dirAt ks = some p) : ((volumeOf d).tree.children ks).Nonempty ↔ d.HasEntry p := by
  constructor
  · rintro ⟨k, hk⟩
    obtain ⟨i, he, -⟩ := (mem_children hp).1 hk
    exact ⟨i, he.lo, he.hi, he.live⟩
  · rintro ⟨i, lo, hi, hlive⟩
    exact ⟨_, (mem_children hp).2 ⟨i, ⟨liveDir_of_dirAt hp, lo, hi, hlive⟩, rfl⟩⟩

/-- A directory has as many names as slots in use. -/
theorem full_iff (hu : d.UniqueNames) (hp : d.dirAt ks = some p) : (volumeOf d).Full ks ↔ ¬ d.HasFreeSlot p := by
  classical
  have hlive := liveDir_of_dirAt hp
  let used := (Finset.Ico 2 64).filter fun i => (d.slot p i).Live
  have hmem (i : ℕ) : i ∈ used ↔ d.LiveEntry p i := by
    rw [Finset.mem_filter, Finset.mem_Ico]
    exact ⟨fun ⟨⟨lo, hi⟩, h⟩ => ⟨hlive, lo, hi, h⟩, fun h => ⟨⟨h.lo, h.hi⟩, h.live⟩⟩
  have himage : d.treeOf.children ks = (fun i => (d.slot p i).key) '' used := by
    ext k
    rw [mem_children hp]
    simp only [Set.mem_image, Finset.mem_coe, hmem]
  have hinj : Set.InjOn (fun i => (d.slot p i).key) used := fun i hi j hj hk => by
    obtain ⟨hn, hx⟩ := FAT32DirectoryEntry.key_eq_iff.1 hk
    exact hu p i j ((hmem i).1 hi) ((hmem j).1 hj) hn hx
  have hcard : ((volumeOf d).tree.children ks).ncard = used.card := by
    show (d.treeOf.children ks).ncard = _
    rw [himage, hinj.ncard_image, Set.ncard_coe_finset]
  unfold Volume.Full
  rw [hcard]
  constructor
  · rintro hle ⟨i, lo, hi, hfree⟩
    have hall := Finset.eq_of_subset_of_card_le (Finset.filter_subset _ (Finset.Ico 2 64)) (by
      rw [Nat.card_Ico]
      exact hle)
    exact hfree (Finset.filter_eq_self.1 hall i (Finset.mem_Ico.2 ⟨lo, hi⟩))
  · intro hno
    have hall : used = Finset.Ico 2 64 := Finset.filter_eq_self.2 fun i hi => by
      obtain ⟨lo, hi⟩ := Finset.mem_Ico.1 hi
      exact not_not.1 fun hfree => hno ⟨i, lo, hi, hfree⟩
    rw [hall, Nat.card_Ico]

/-! ## Writing -/

theorem Stored.volume {j c : ℕ} (h : Stored s r j c s') (hs : Consistent π s) (hp : s.disk.dirAt ks = some r.parent)
    (hx : r.bufferSize = 0 → r.ext = Vector.replicate 3 0) (hj : j < 64) :
    Consistent π s' ∧ s.disk.Keeps s'.disk ∧ volumeOf s'.disk =
      ⟨(volumeOf s.disk).tree.insert ks r.key (Volume.made r), (volumeOf s.disk).space - needed r⟩ := by
  have hd := hs.toSound
  have hlive := liveDir_of_dirAt hp
  have hi := h.inserted hd.grounded hlive hj
  have hext : newExt r = r.ext := by
    unfold newExt
    split
    · exact (hx ‹_›).symm
    · rfl
  have hkey : (newEntry r c).key = r.key := Prod.ext (newEntry_name r c) ((newEntry_ext r c).trans hext)
  have hfresh (i : ℕ) (hi : i < 64) : (s.disk.slot r.parent i).key ≠ (newEntry r c).key := fun hc => by
    rw [hkey] at hc
    exact not_named_of_unmatched h.unmatched hi (Prod.mk.inj hc)
  have hu' : s'.disk.UniqueNames := hs.names.inserted hd hi fun i he hc =>
    hfresh i he.hi (FAT32DirectoryEntry.key_eq_iff.2 hc)
  have hkeyed : s'.disk.Keyed π := by
    refine hs.keyed.inserted hd.grounded hi (fun hf => ?_) (fun hf => ?_) fun i hi hc => hfresh i (by omega) hc.symm
    · rw [newEntry_ext, newExt, if_pos ((newEntry_isFolder r c).1 hf)]
    · rw [newEntry_attribute, if_neg (mt (newEntry_isFolder r c).2 hf)]
      decide
  refine ⟨⟨(h.sameBoot hd.grounded hlive).wellFormed hs.toWellFormed (hi.sound hd), hs.dirs.inserted hd hi, hu',
    hkeyed, coherent_of_eq (h.coherent hd.grounded hlive)⟩, hi.keeps hd hs.names hu' hp, ?_⟩
  have hnew : s'.disk.nodeOf (newEntry r c) = Volume.made r := by
    unfold nodeOf Volume.made
    simp only [newEntry_isFolder]
    split
    · rfl
    · rw [h.bytes hd.grounded hlive ‹_›]
  have hspace := hi.freeClusters
  rw [taken_length h.room] at hspace
  rw [volumeOf, hi.treeOf hd hs.names hu' hp, hkey, hnew, volumeOf_space, ← hspace, Nat.add_sub_cancel]
  rfl

theorem Consistent.write (hs : Consistent π s) (hp : s.disk.dirAt ks = some r.parent) (hn : Named r)
    (hr : if r.bufferSize = 0 then r.ext = Vector.replicate 3 0 else ¬ (volumeOf s.disk).Full ks) :
    ∃ code s', Fat32.write π s r = some (code, s') ∧ Consistent π s' ∧ s.disk.Keeps s'.disk ∧
      (volumeOf s.disk).write π ks r = (.done code, volumeOf s'.disk) := by
  have hd := hs.toSound
  have hlive := liveDir_of_dirAt hp
  have hslot : r.bufferSize ≠ 0 → s.disk.HasFreeSlot r.parent := fun hb => by
    rw [if_neg hb, full_iff hs.names hp, not_not] at hr
    exact hr
  obtain ⟨code, s', hw⟩ := perform_total (π := π) (q := .write r) hd (hs.dirs.onSized hlive)
    ⟨hlive, fun r' he hb => by cases he; exact hslot hb⟩
  have heffect := perform_effect (q := .write r) hd hlive hw
  have hidle (hc : code ≠ 0) : Consistent π s' ∧ s.disk.Keeps s'.disk ∧ volumeOf s'.disk = volumeOf s.disk := by
    have hdisk : s'.disk = s.disk := perform_error hw hc
    exact ⟨hs.of_disk hdisk (heffect.coherent hd hlive hs.coherent), by rw [hdisk]; exact .refl _, by rw [hdisk]⟩
  have hleads := (hs.keyed.leads hd hp (k := r.key) hn).none_iff
  refine ⟨code, s', hw, ?_⟩
  unfold Volume.write
  rcases write_code hd.grounded hlive hslot hw with ⟨rfl, hfree⟩ | ⟨rfl, hfree, hf⟩ | ⟨rfl, hfree, hf, hno⟩ |
      ⟨rfl, j, c, h⟩
  · obtain ⟨hs', hkeeps, hv⟩ := hidle (by decide)
    rw [if_pos (space_eq_zero.2 hfree), hv]
    exact ⟨hs', hkeeps, rfl⟩
  · obtain ⟨hs', hkeeps, hv⟩ := hidle (by decide)
    rw [if_neg (mt space_eq_zero.1 hfree), if_pos (mt hleads.2 hf), hv]
    exact ⟨hs', hkeeps, rfl⟩
  · obtain ⟨hs', hkeeps, hv⟩ := hidle (by decide)
    rw [if_neg (mt space_eq_zero.1 hfree), if_neg (not_not_intro (hleads.1 hf)), if_pos, hv]
    · exact ⟨hs', hkeeps, rfl⟩
    · rw [full_iff hs.names hp]
      exact hno
  · have hx : r.bufferSize = 0 → r.ext = Vector.replicate 3 0 := fun hb => by
      rwa [if_pos hb] at hr
    have hj : j < 64 := by
      by_cases hb : r.bufferSize = 0
      · exact h.slot_hi_of_folder hb
      · exact h.slot_hi_of_free (hslot hb)
    obtain ⟨hs', hkeeps, hv⟩ := h.volume hs hp hx hj
    have hroom := h.room
    have hpos := needed_pos r
    rw [if_neg, if_neg (not_not_intro (hleads.1 h.unmatched)), if_neg, hv]
    · exact ⟨hs', hkeeps, rfl⟩
    · rw [volumeOf_space, full_iff hs.names hp]
      rintro (⟨hb, hfull⟩ | hlt)
      · exact hfull (h.toAccepted.hasFreeSlot hd.grounded hlive hb)
      · omega
    · rw [volumeOf_space]
      omega

/-! ## Deleting -/

/-- The folder of a slot, at a path with a name at its end or at the root. -/
theorem delete_folder (ks : List Key) (hs : Consistent π s) (hp : s.disk.LiveDir r.parent) (hr : Resolves s.disk r i)
    (hz : (s.disk.slot r.parent i).filesize = 0) (hc : s.disk.dirAt ks = some (s.disk.slot r.parent i).cluster.toNat)
    (hk : ks ≠ [] → s.disk.HasEntry (s.disk.slot r.parent i).cluster.toNat) :
    ∃ code, Fat32.delete π s r = some (code, reloaded s r) ∧ code = if ks = [] then -1 else 2 := by
  have hd := hs.toSound
  have hlt := (hd.liveDir_range hp).2
  by_cases hks : ks = []
  · have hroot : (s.disk.slot r.parent i).cluster = rootClusterNumber := by
      rw [hks] at hc
      exact UInt32.toNat_inj.1 (Option.some.inj hc).symm
    exact ⟨-1, delete_root hlt hr hroot, (if_pos hks).symm⟩
  · have hroot : (s.disk.slot r.parent i).cluster ≠ rootClusterNumber := fun he => hks (hd.dirAt_root (by
      rw [hc, he]
      rfl))
    exact ⟨2, delete_hasEntry hlt hr hroot hz (hd.liveDir_range (liveDir_of_dirAt hc)).2 (hk hks), (if_neg hks).symm⟩

/-- On the volume such a delete is refused as well. -/
theorem Volume.delete_folder {v : Volume} (ls : List Key) (hr : v.resolve π ks r.key = some ls)
    (hf : v.tree.node ls = some .folder) (hk : ls ≠ [] → (v.tree.children ls).Nonempty) :
    v.delete π ks r = (.done (if ls = [] then -1 else 2), v) := by
  unfold Volume.delete
  match ls with
  | [] => simp only [hr, if_true]
  | k :: ls => simp only [hr, hf, if_true, if_pos (hk (List.cons_ne_nil k ls)), if_neg (List.cons_ne_nil k ls)]

theorem Consistent.removed {l : List ℕ} (hs : Consistent π s) (h : s.disk.Removed s'.disk p i l) (hc : Coherent s') :
    Consistent π s' :=
  have hd := hs.toSound
  ⟨(h.sameBoot hd).wellFormed hs.toWellFormed (h.sound hd), hs.dirs.removed hd h, hs.names.removed hd h,
    hs.keyed.removed hd h, hc⟩

theorem Freed.volume (h : Freed s r i s') (hs : Consistent π s) (hp : s.disk.dirAt ks = some r.parent)
    (he : s.disk.LiveEntry r.parent i) (hempty : s.disk.treeOf.children ((s.disk.slot r.parent i).key :: ks) = ∅) :
    Consistent π s' ∧ s.disk.Keeps s'.disk ∧
      volumeOf s'.disk = ⟨s.disk.treeOf.erase ks (s.disk.slot r.parent i).key, (volumeOf s.disk).space + 1⟩ := by
  have hd := hs.toSound
  have hm := h.removed hd he
  refine ⟨hs.removed hm (h.coherent hd he.dir), hm.keeps hd hs.names hp, ?_⟩
  rw [volumeOf, hm.treeOf hd hs.names hp hempty, h.freeClusters hd he]
  rfl

theorem Purged.volume {zs : List UInt32} (h : Purged s r i zs s') (hs : Consistent π s)
    (hp : s.disk.dirAt ks = some r.parent) (he : s.disk.LiveFile r.parent i)
    (hempty : s.disk.treeOf.children ((s.disk.slot r.parent i).key :: ks) = ∅) :
    Consistent π s' ∧ s.disk.Keeps s'.disk ∧
      volumeOf s'.disk = ⟨s.disk.treeOf.erase ks (s.disk.slot r.parent i).key, (volumeOf s.disk).space⟩ := by
  have hd := hs.toSound
  obtain ⟨l, hm, hfat⟩ := h.removed hd he
  refine ⟨hs.removed hm (h.coherent hd he.dir), hm.keeps hd hs.names hp, ?_⟩
  rw [volumeOf, hm.treeOf hd hs.names hp hempty, hfat]
  rfl

theorem Consistent.delete (hs : Consistent π s) (hp : s.disk.dirAt ks = some r.parent) (hn : Named r)
    (hr : r.key = ownKey π ks → ks ≠ [] → ((volumeOf s.disk).tree.children ks).Nonempty) :
    ∃ code s', Fat32.delete π s r = some (code, s') ∧ Consistent π s' ∧ s.disk.Keeps s'.disk ∧
      (volumeOf s.disk).delete π ks r = (.done code, volumeOf s'.disk) := by
  have hd := hs.toSound
  have hlive := liveDir_of_dirAt hp
  have hreloaded : Consistent π (reloaded s r) := hs.of_disk rfl (coherent_of_eq (reloaded_fatTable s r))
  have hleads := hs.keyed.leads hd hp (k := r.key) hn
  generalize hres : (volumeOf s.disk).resolve π ks r.key = o at hleads
  generalize hfound : findEntry (s.disk.table r.parent) r.key.1 r.key.2 = f at hleads
  cases hleads with
  | nothing =>
    refine ⟨1, _, delete_unmatched (hd.liveDir_range hlive).2 hfound, hreloaded, .refl _, ?_⟩
    unfold Volume.delete
    simp only [hres]
    rfl
  | own hown =>
    have hself := hs.dirs.self _ hlive
    obtain ⟨code, hw, hcode⟩ := delete_folder ks hs hlive hfound (hs.dirs.special _ hlive 0 (by omega))
      (by rw [hself]; exact hp) fun hks => by
        rw [hself]
        exact (children_nonempty hp).1 (hr hown hks)
    refine ⟨code, _, hw, hreloaded, .refl _, ?_⟩
    rw [Volume.delete_folder ks hres (nodeAt_eq_folder.2 ⟨_, hp⟩) (hr hown), hcode]
    rfl
  | up hup =>
    have hdir : s.disk.dirAt ks.tail = some (s.disk.slot r.parent 1).cluster.toNat := hs.dirs.dirAt_up hd hp
    have hentry (hks : ks.tail ≠ []) : s.disk.HasEntry (s.disk.slot r.parent 1).cluster.toNat := by
      have hne : r.parent ≠ 2 := fun h2 => by
        rw [h2] at hp
        rw [hd.dirAt_root hp] at hks
        exact hks rfl
      obtain ⟨-, i, lo, hi, live, -⟩ := hs.dirs.lister _ hlive hne
      exact ⟨i, lo, hi, live⟩
    obtain ⟨code, hw, hcode⟩ := delete_folder ks.tail hs hlive hfound
      (hs.dirs.special _ hlive 1 (by omega)) hdir hentry
    refine ⟨code, _, hw, hreloaded, .refl _, ?_⟩
    rw [Volume.delete_folder ks.tail hres (nodeAt_eq_folder.2 ⟨_, hdir⟩) fun hks =>
      (children_nonempty hdir).2 (hentry hks), hcode]
    rfl
  | @entry i hown he hkey =>
    have hsome := (hs.names.find_iff hlive).2 ⟨he, hkey⟩
    have hnode : (volumeOf s.disk).tree.node (r.key :: ks) = some (s.disk.nodeOf (s.disk.slot r.parent i)) := by
      rw [volumeOf_node, nodeAt, hp, entryIn_eq_some.2 ⟨i, hsome, rfl⟩]
      rfl
    by_cases hf : (s.disk.slot r.parent i).IsFolder
    · have hz := hs.dirs.folder _ _ he hf
      have hrange := (hd.folder_owns he hf).range _ List.mem_cons_self
      have hdir : s.disk.dirAt (r.key :: ks) = some (s.disk.slot r.parent i).cluster.toNat := by
        rw [dirAt, hp, entryIn_eq_some.2 ⟨i, hsome, rfl⟩]
        exact folderOf_eq_some.2 ⟨hf, rfl⟩
      have hfolder := nodeAt_eq_folder.2 ⟨_, hdir⟩
      by_cases hk : s.disk.HasEntry (s.disk.slot r.parent i).cluster.toNat
      · obtain ⟨code, hw, hcode⟩ := delete_folder (r.key :: ks) hs hlive hfound hz hdir fun _ => hk
        refine ⟨code, _, hw, hreloaded, .refl _, ?_⟩
        rw [Volume.delete_folder _ hres hfolder fun _ => (children_nonempty hdir).2 hk, hcode]
        rfl
      · have hempty := Set.not_nonempty_iff_eq_empty.1 (mt (children_nonempty hdir).1 hk)
        obtain ⟨s', hw, h⟩ := delete_free (π := π) (hd.liveDir_range hlive).2 hfound
          (fun hc => by rw [hc] at hrange; exact absurd hrange.1 (by decide)) hz hrange.2 hk
        obtain ⟨hs', hkeeps, hv⟩ := h.volume hs hp he (by rw [hkey]; exact hempty)
        refine ⟨0, s', hw, hs', hkeeps, ?_⟩
        unfold Volume.delete
        simp only [hres, volumeOf_node, hfolder, if_true, hempty, Set.not_nonempty_empty, if_false]
        rw [hv, hkey]
        rfl
    · obtain ⟨zs, s', hw, h⟩ := Resolves.delete (π := π) (r := r) hfound hd ⟨he, hf⟩
      have hfile : (volumeOf s.disk).tree.node (r.key :: ks) ≠ some .folder := by
        rw [hnode, ne_eq, Option.some_inj, nodeOf_eq_folder]
        exact hf
      have hempty : s.disk.treeOf.children (r.key :: ks) = ∅ :=
        Set.eq_empty_iff_forall_notMem.2 fun k hk => hfile (Tree.node_of_mem_children hk)
      obtain ⟨hs', hkeeps, hv⟩ := h.volume hs hp ⟨he, hf⟩ (by rw [hkey]; exact hempty)
      refine ⟨0, s', hw, hs', hkeeps, ?_⟩
      unfold Volume.delete
      simp only [hres, if_neg hfile]
      rw [hv, hkey]
      rfl

end BebasOs.Fat32
