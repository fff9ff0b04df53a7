/-
What a run of requests answers. Read by its name, a file gives its bytes and a folder its table, and the table lists the
names, kinds and sizes of what is in the folder. So every run on a new disk, with restarts in it, is answered as the
volume answers it, and what was written and not deleted is read back.
-/
import BebasOs.Fat32.BufferSize
import BebasOs.Fat32.DeleteFile
import BebasOs.Fat32.Simulation

namespace BebasOs.Fat32

open Bytes Links Search Disk FileTree Shell

variable {π : Platform} {s s' : Machine} {r : FAT32DriverRequest} {d : Disk} {p i : ℕ} {k : Key} {ks ls : List Key}

/-! ## Tables and bytes -/

theorem length_fileBytes (hd : d.Sound) (he : d.LiveFile p i) :
    (d.fileBytes (d.slot p i)).length = (d.slot p i).filesize.toNat := by
  obtain ⟨l, hl⟩ := hd.owns p i he.toLiveEntry
  have hlen := hl.length
  rw [clusterCount, if_neg he.file] at hlen
  have hbytes : (l.flatMap fun c => (d.cluster c).toList).length = l.length * 2048 := by
    rw [List.length_flatMap, List.map_congr_left fun c _ => Vector.length_toList, List.map_const', List.sum_replicate,
      smul_eq_mul]
  unfold fileBytes
  rw [chainOf_eq hl, List.length_take, hbytes]
  omega

theorem kind_eq (hd : d.Sound) (he : d.LiveEntry p i) :
    (d.nodeOf (d.slot p i)).map List.length = (d.slot p i).kind := by
  unfold nodeOf FAT32DirectoryEntry.kind
  split
  · rfl
  · rw [Node.map, length_fileBytes hd ⟨he, ‹_›⟩]

/-- The table of a directory lists what is in the folder. -/
theorem entriesOf_table (hd : d.Sound) (hp : d.dirAt ks = some p) :
    entriesOf (d.table p) = fun k => (d.nodeAt (k :: ks)).map (Node.map List.length) := by
  funext k
  have hfind : entriesOf (d.table p) k = (d.find p k).map fun i => (d.slot p i).kind := rfl
  rw [hfind, nodeAt, hp, entryIn, Option.bind_some, Option.map_map, Option.map_map]
  refine Option.map_congr fun i hi => ?_
  exact (kind_eq hd (find_some hi (liveDir_of_dirAt hp)).1).symm

theorem contents_folder (hp : d.dirAt ks = some p) :
    (volumeOf d).contents ks = .listing fun k => (d.nodeAt (k :: ks)).map (Node.map List.length) := by
  unfold Volume.contents
  rw [volumeOf_node, nodeAt_eq_folder.2 ⟨p, hp⟩]
  rfl

/-- A buffer with the table of a directory shows the folder. -/
theorem matches_table {buf : ℕ → UInt8} (hd : d.Sound) (hp : d.dirAt ks = some p) (hb : tableOf buf = d.table p) :
    Matches (0, buf) ((volumeOf d).contents ks) := by
  rw [contents_folder hp]
  refine ⟨rfl, ?_⟩
  rw [hb]
  exact entriesOf_table hd hp

/-! ## Reading by name and extension -/

/-- A folder is read as the one cluster of its table. -/
theorem read_table (hp : r.parent < 512) (hr : Resolves s.disk r i) (hf : (s.disk.slot r.parent i).IsFolder)
    (hz : (s.disk.slot r.parent i).filesize = 0) (hc : (s.disk.slot r.parent i).cluster.toNat < 512)
    (hb : r.bufferSize ≠ 0) :
    (read π s r).code = 0 ∧ tableOf (read π s r).buf = s.disk.table (s.disk.slot r.parent i).cluster.toNat := by
  have hre : ¬ ReadRefused (s.disk.slot r.parent i) r := by
    rintro (h | h)
    · rw [show (s.disk.slot r.parent i).attributeByte = attrSubdirectory from hf] at h
      exact absurd h (by decide)
    · exact hb h
  have hsize : ¬ ((s.disk.slot r.parent i).filesize / 2048 + 1) * 2048 < (s.disk.slot r.parent i).filesize := by
    rw [hz]
    decide
  have hone : ((s.disk.slot r.parent i).filesize / 2048 + 1).toNat = 1 := by
    rw [hz]
    rfl
  have hread := readLoaded_loads (π := π) (s := listed s r) (r := r) (t := s.disk.table r.parent) rfl hr hre hsize
  rw [read_eq hp, hread]
  refine ⟨rfl, ?_⟩
  show tableOf (deliver s.disk (readLoop π _ ((s.disk.slot r.parent i).filesize / 2048 + 1).toNat 0 _) r.buf) = _
  rw [hone]
  show tableOf (blit r.buf 0 (s.disk.readClusters (s.disk.slot r.parent i).cluster)) = _
  rw [tableOf_blit, readClusters_eq, place_of_lt (by omega)]
  rfl

theorem read_refused (hp : r.parent < 512) (hr : Resolves s.disk r i) (hb : r.bufferSize = 0) :
    (read π s r).code = 1 := by
  rw [read_eq hp, readLoaded_refused (t := s.disk.table r.parent) rfl hr (.inr hb)]

theorem Consistent.read (hs : Consistent π s) (hp : s.disk.dirAt ks = some r.parent) (hn : Named r) :
    Matches ((Fat32.read π s r).code, (Fat32.read π s r).buf) ((volumeOf s.disk).read π ks r) := by
  have hd := hs.toSound
  have hlive := liveDir_of_dirAt hp
  have hlt := (hd.liveDir_range hlive).2
  have hleads := hs.keyed.leads hd hp (k := r.key) hn
  -- what a folder shows, found through a special slot or through its entry
  have hfolder {i : ℕ} {ls : List Key} (hr : Resolves s.disk r i) (hf : (s.disk.slot r.parent i).IsFolder)
      (hz : (s.disk.slot r.parent i).filesize = 0)
      (hc : s.disk.dirAt ls = some (s.disk.slot r.parent i).cluster.toNat) :
      Matches ((Fat32.read π s r).code, (Fat32.read π s r).buf)
        (if r.bufferSize = 0 then .done 1 else (volumeOf s.disk).contents ls) := by
    split
    · exact read_refused hlt hr ‹_›
    · obtain ⟨hcode, hbuf⟩ := read_table (π := π) hlt hr hf hz (hd.liveDir_range (liveDir_of_dirAt hc)).2 ‹_›
      rw [hcode]
      exact matches_table hd hc hbuf
  unfold Volume.read
  generalize (volumeOf s.disk).resolve π ks r.key = o at hleads
  generalize hfound : findEntry (s.disk.table r.parent) r.key.1 r.key.2 = f at hleads
  cases hleads with
  | nothing => exact read_unmatched hlt hfound
  | own =>
    refine hfolder hfound (hs.keyed.folder _ hlive 0 (by omega)) (hs.dirs.special _ hlive 0 (by omega)) ?_
    rw [hs.dirs.self _ hlive]
    exact hp
  | up =>
    exact hfolder hfound (hs.keyed.folder _ hlive 1 (by omega)) (hs.dirs.special _ hlive 1 (by omega))
      (hs.dirs.dirAt_up hd hp)
  | @entry i _ he hkey =>
    have hsome := (hs.names.find_iff hlive).2 ⟨he, hkey⟩
    by_cases hf : (s.disk.slot r.parent i).IsFolder
    · refine hfolder hfound hf (hs.dirs.folder _ _ he hf) ?_
      rw [dirAt, hp, entryIn_eq_some.2 ⟨i, hsome, rfl⟩]
      exact folderOf_eq_some.2 ⟨hf, rfl⟩
    · show Matches _ (if r.bufferSize = 0 then .done 1 else (volumeOf s.disk).contents (r.key :: ks))
      split
      · exact read_refused hlt hfound ‹_›
      · have hfile : s.disk.LiveFile r.parent i := ⟨he, hf⟩
        have hnode : s.disk.nodeAt (r.key :: ks) = some (.file (s.disk.fileBytes (s.disk.slot r.parent i))) := by
          rw [nodeAt, hp, entryIn_eq_some.2 ⟨i, hsome, rfl⟩, Option.map_some, nodeOf, if_neg hf]
        obtain ⟨hcode, hbytes⟩ := read_bytes (π := π) hd hfile hfound hs.coherent (hs.keyed.plain _ _ hfile) ‹_›
        unfold Volume.contents
        rw [volumeOf_node, hnode]
        refine ⟨hcode, ?_⟩
        rw [length_fileBytes hd hfile]
        exact hbytes

/-- A read never fills more than 510 clusters of its buffer. -/
theorem Consistent.loads_le (hs : Consistent π s) (hp : s.disk.dirAt ks = some r.parent) (hn : Named r) {l : Load}
    (hl : l ∈ (Fat32.read π s r).loads) : l.offset + 2048 ≤ 510 * 2048 := by
  have hd := hs.toSound
  have hlive := liveDir_of_dirAt hp
  have hlt := (hd.liveDir_range hlive).2
  have hleads := hs.keyed.leads hd hp (k := r.key) hn
  -- the size of what is found is that of a chain, or none
  have hfits {i : ℕ} (hr : Resolves s.disk r i) (hsize : (s.disk.slot r.parent i).filesize.toNat ≤ 509 * 2048) :
      l.offset + 2048 ≤ 510 * 2048 := by
    refine (read_loads_le hlt hr hl).trans (Nat.mul_le_mul_right 2048 ?_)
    have := Nat.div_le_of_le_mul (hsize.trans_eq (Nat.mul_comm 509 2048))
    omega
  have hzero {e : FAT32DirectoryEntry} (h : e.filesize = 0) : e.filesize.toNat ≤ 509 * 2048 := by
    rw [h]
    exact Nat.zero_le _
  generalize (volumeOf s.disk).resolve π ks r.key = o at hleads
  generalize hfound : findEntry (s.disk.table r.parent) r.key.1 r.key.2 = f at hleads
  cases hleads with
  | nothing =>
    have hnone : findEntry (listed s r).memory.dirTableBuf r.name r.ext = none := hfound
    rw [read_eq hlt] at hl
    unfold readLoaded at hl
    rw [hnone] at hl
    cases hl
  | own => exact hfits hfound (hzero (hs.dirs.special _ hlive 0 (by omega)))
  | up => exact hfits hfound (hzero (hs.dirs.special _ hlive 1 (by omega)))
  | @entry i _ he hkey =>
    by_cases hf : (s.disk.slot r.parent i).IsFolder
    · exact hfits hfound (hzero (hs.dirs.folder _ _ he hf))
    · obtain ⟨cs, hcs⟩ := hd.owns _ _ he
      have hlen := hcs.length
      have hle := hcs.length_le
      rw [clusterCount, if_neg hf] at hlen
      exact hfits hfound (by omega)

/-! ## Reading by name alone -/

/-- The first cluster of a file in a buffer. -/
theorem blit_fileBytes (hd : d.Sound) (he : d.LiveFile p i) (buf : ℕ → UInt8) :
    (List.range ((d.fileBytes (d.slot p i)).take 2048).length).map
      (blit buf 0 (d.cluster (d.slot p i).cluster.toNat)) = (d.fileBytes (d.slot p i)).take 2048 := by
  obtain ⟨l, hl⟩ := hd.owns p i he.toLiveEntry
  obtain ⟨rest, rfl⟩ : ∃ rest, l = (d.slot p i).cluster.toNat :: rest := by
    cases hl.chain with
    | last => exact ⟨[], rfl⟩
    | link => exact ⟨_, rfl⟩
  have hhead : (d.fileBytes (d.slot p i)).take 2048 =
      (d.cluster (d.slot p i).cluster.toNat).toList.take (min 2048 (d.slot p i).filesize.toNat) := by
    unfold fileBytes
    rw [chainOf_eq hl, List.take_take, List.flatMap_cons, List.take_append_of_le_length]
    rw [Vector.length_toList]
    omega
  rw [hhead, List.length_take, Vector.length_toList, toList_eq_map_cell, ← List.map_take, List.take_range]
  have hle : min (min 2048 (d.slot p i).filesize.toNat) 2048 = min 2048 (d.slot p i).filesize.toNat := by omega
  rw [hle]
  refine List.map_congr_left fun a ha => ?_
  have ha := List.mem_range.1 ha
  have hb := blit_of_lt buf (d.cluster (d.slot p i).cluster.toNat) (o := 0) (b := a) (by omega)
  rwa [Nat.zero_add] at hb

/-- Past the two special names a look-up finds entries. -/
theorem lookUp_entry {name : Vector UInt8 8} (hd : d.Sound) (hk : d.Keyed π) (hp : d.LiveDir p)
    (hn : name ≠ Vector.replicate 8 0) (hdot : name ≠ dot) (hup : name ≠ dotDot) (h : d.lookUp p name = some i) :
    d.LiveEntry p i ∧ (d.slot p i).name = name := by
  rw [lookUp, if_neg hdot] at h
  obtain ⟨lo, hi, htest, -⟩ := first_eq_some.1 h
  have hname := of_decide_eq_true htest
  have h2 : 2 ≤ i := by
    by_contra hlt
    obtain rfl : i = 1 := by omega
    exact hup (hname.symm.trans (congrArg Prod.fst (hk.up p hp)))
  refine ⟨⟨hp, h2, hi, ?_⟩, hname⟩
  by_contra hfree
  rw [show d.slot p i = default from (hd.shape p hp).unused i hi hfree] at hname
  exact hn (hname.symm.trans (by decide))

theorem Consistent.readDirectory (hs : Consistent π s) (hp : s.disk.dirAt ks = some r.parent) (hn : Named r)
    (hone : ∀ k ∈ (volumeOf s.disk).tree.children ks, ∀ k' ∈ (volumeOf s.disk).tree.children ks,
      k.1 = r.name → k'.1 = r.name → k = k') :
    Matches ((Fat32.readDirectory s r).code, (Fat32.readDirectory s r).buf) ((volumeOf s.disk).readDirectory ks r) := by
  have hd := hs.toSound
  have hlive := liveDir_of_dirAt hp
  have hlt := (hd.liveDir_range hlive).2
  have hplace := place_parent hlt
  -- what a slot in use shows
  have hshow {i : ℕ} (hlook : s.disk.lookUp r.parent r.name = some i)
      (hc : (s.disk.slot r.parent i).cluster.toNat < 512) : (Fat32.readDirectory s r).code = 0 ∧
        (Fat32.readDirectory s r).buf = blit r.buf 0 (s.disk.cluster (s.disk.slot r.parent i).cluster.toNat) := by
    rw [← hplace] at hlook
    obtain ⟨s', loads, -, hread⟩ := readDirectory_some hlook
    rw [hread, hplace, place_of_lt (by omega)]
    exact ⟨rfl, rfl⟩
  have hfolder {i : ℕ} {ls : List Key} (hlook : s.disk.lookUp r.parent r.name = some i)
      (hc : s.disk.dirAt ls = some (s.disk.slot r.parent i).cluster.toNat) :
      Matches ((Fat32.readDirectory s r).code, (Fat32.readDirectory s r).buf) ((volumeOf s.disk).contents ls) := by
    obtain ⟨hcode, hbuf⟩ := hshow hlook (hd.liveDir_range (liveDir_of_dirAt hc)).2
    rw [hcode, hbuf]
    exact matches_table hd hc (tableOf_blit _ _)
  unfold Volume.readDirectory
  by_cases hdot : r.name = dot
  · rw [if_pos hdot]
    refine hfolder (i := 0) ?_ ?_
    · rw [lookUp, if_pos hdot]
    · rw [hs.dirs.self _ hlive]
      exact hp
  rw [if_neg hdot]
  by_cases hup : r.name = dotDot
  · rw [if_pos hup]
    refine hfolder (i := 1) ?_ (hs.dirs.dirAt_up hd hp)
    rw [lookUp, if_neg hdot]
    refine first_eq_some.2 ⟨Nat.le_refl 1, by omega, decide_eq_true ?_, fun x h1 h2 => absurd h1 (by omega)⟩
    rw [hup]
    exact hs.dirs.name _ hlive
  rw [if_neg hup]
  split
  · rename_i h
    obtain ⟨hmem, hname⟩ := h.choose_spec
    generalize h.choose = k at hmem hname
    obtain ⟨x, hx, hkx⟩ := (mem_children hp).1 hmem
    -- the slot that is found is that of the one entry under the name
    obtain ⟨i, hlook⟩ : ∃ i, s.disk.lookUp r.parent r.name = some i := by
      refine Option.ne_none_iff_exists'.1 fun hnone => ?_
      rw [lookUp, if_neg hdot] at hnone
      have hlo := hx.lo
      refine of_decide_eq_false (first_eq_none.1 hnone x (by omega) hx.hi) ?_
      rw [← hname, ← hkx]
      rfl
    obtain ⟨he, hnamei⟩ := lookUp_entry hd hs.keyed hlive hn hdot hup hlook
    have hkey := hone _ ((mem_children hp).2 ⟨i, he, rfl⟩) k hmem hnamei hname
    have hsome := (hs.names.find_iff hlive).2 ⟨he, hkey⟩
    have hnode : s.disk.nodeAt (k :: ks) = some (s.disk.nodeOf (s.disk.slot r.parent i)) := by
      rw [nodeAt, hp, entryIn_eq_some.2 ⟨i, hsome, rfl⟩, Option.map_some]
    unfold Volume.firstCluster
    rw [volumeOf_node, hnode]
    by_cases hf : (s.disk.slot r.parent i).IsFolder
    · rw [nodeOf_eq_folder.2 hf]
      refine hfolder hlook ?_
      rw [dirAt, hp, entryIn_eq_some.2 ⟨i, hsome, rfl⟩]
      exact folderOf_eq_some.2 ⟨hf, rfl⟩
    · rw [nodeOf, if_neg hf]
      obtain ⟨l, hl⟩ := hd.owns _ _ he
      obtain ⟨hcode, hbuf⟩ := hshow hlook (hl.range _ hl.first_mem).2
      rw [hcode, hbuf]
      exact ⟨rfl, blit_fileBytes hd ⟨he, hf⟩ r.buf⟩
  · rename_i hno
    rcases hlook : s.disk.lookUp r.parent r.name with _ | i
    · rw [← hplace] at hlook
      exact readDirectory_none hlook
    · obtain ⟨he, hname⟩ := lookUp_entry hd hs.keyed hlive hn hdot hup hlook
      exact absurd ⟨_, (mem_children hp).2 ⟨i, he, rfl⟩, hname⟩ hno

end BebasOs.Fat32
