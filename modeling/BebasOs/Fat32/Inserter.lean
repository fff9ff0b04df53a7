/-
`external-inserter.c`: the program of the host that puts a file into the image of a disk, linked against the same file
system. Runs of it, one file after the other, prepare the disk that the kernel mounts and loads its programs from.
-/
import BebasOs.Fat32.Refines

namespace BebasOs.Fat32

open Bytes Disk FileTree Refinement Search

/-! ## The program -/

/-- What `main` is given: its first argument, the number it reads from the second, and the file of that name in its
buffer; a file that does not open counts as one of no bytes. -/
structure Arguments where
  fileName : List UInt8
  parentClusterNumber : UInt32
  fileBuffer : ℕ → UInt8
  filesize : ℕ

/-- The characters that `sscanf` takes for white space. -/
def isSpace (c : UInt8) : Bool := c == 32 || (9 ≤ c && c ≤ 13)

/-- `sscanf(s, "%8s", name)`: the first word, cut off after eight bytes. -/
def scanWord (s : List UInt8) : List UInt8 := ((s.dropWhile isSpace).takeWhile (! isSpace ·)).take 8

namespace Arguments

/-- `request.name`, which is zero before it is scanned. -/
def name (a : Arguments) : Vector UInt8 8 := Vector.ofFn fun i => (scanWord a.fileName).getD i.1 0

def request (a : Arguments) : FAT32DriverRequest where
  buf := a.fileBuffer
  name := a.name
  ext := Vector.replicate 3 0
  parentClusterNumber := a.parentClusterNumber
  bufferSize := UInt32.ofNat a.filesize

end Arguments

/-- `main` from the image it reads to the one it stores, with the code of its `write`. -/
def insert (π : Platform) (image : Disk) (a : Arguments) : Option (Int × Disk) :=
  (initializeFilesystemFat32 π (powerOn image)).bind fun s =>
    (write π s a.request).map fun x => (x.1, x.2.disk)

variable {π κ : Platform} {s s' : Machine} {image : Disk} {v : Volume} {a : Arguments} {as done : List Arguments}
  {r : FAT32DriverRequest}

/-! ## On the volume -/

/-- The image holds the volume, a new one if it is not formatted yet. -/
def HoldsVolume (π : Platform) (image : Disk) (v : Volume) : Prop :=
  image.bootSector ≠ fsSignature ∧ v = Volume.new ∨ ∃ s, Represents π s v ∧ s.disk = image

/-- The initialization finds the volume. -/
theorem HoldsVolume.initialize (h : HoldsVolume π image v) :
    ∃ s, initializeFilesystemFat32 π (powerOn image) = some s ∧ Represents π s v := by
  rcases h with ⟨hb, rfl⟩ | ⟨s, ⟨hs, hv⟩, rfl⟩
  · obtain ⟨s, hs, hf⟩ := createFat32_formatted π image
    exact ⟨s, (initialize_formatted (s := powerOn image) hb).trans hs, hf.represents⟩
  · obtain ⟨m, hm, hfat⟩ := initialize_mounted (π := π) (s := powerOn s.disk) hs.signature
    exact ⟨_, hm, hs.of_disk rfl (coherent_of_eq hfat), hv⟩

/-- A file put into the root of the volume. -/
noncomputable def inserted (π : Platform) (v : Volume) (a : Arguments) : Reply × Volume := v.write π [] a.request

/-- A run of the program is a write to the root of the volume. -/
theorem insert_refines (π : Platform) :
    Refines (insert π) (inserted π)
      (fun v a => a.parentClusterNumber = 2 ∧ v.Permitted π (.request [] (.write a.request)))
      (HoldsVolume π) (fun code reply => reply = .done code) := by
  rintro image v a h ⟨hparent, hP⟩
  obtain ⟨s, hs, hr⟩ := h.initialize
  obtain ⟨hholds, rfl⟩ := hr
  have hdir : s.disk.dirAt [] = some a.request.parent := by
    rw [FAT32DriverRequest.parent, show a.request.parentClusterNumber = 2 from hparent]
    rfl
  obtain ⟨code, s', hw, hs', -, hv⟩ := hholds.write hdir hP.2.1 hP.2.2
  have hspec : inserted π (volumeOf s.disk) a = (.done code, volumeOf s'.disk) := hv
  refine ⟨code, s'.disk, ?_, ?_, ?_⟩
  · rw [insert, hs, Option.bind_some, hw, Option.map_some]
  · rw [hspec]
  · rw [hspec]
    exact .inr ⟨s', ⟨hs', rfl⟩, rfl⟩

/-! ## Files that fit -/

/-- Files with names of their own for which there is room. -/
structure Fits (π : Platform) (as : List Arguments) : Prop where
  parent : ∀ a ∈ as, a.parentClusterNumber = 2
  name : ∀ a ∈ as, a.name ≠ Vector.replicate 8 0 ∧ a.name ≠ rootName π ∧ a.name ≠ dotDot
  nodup : (as.map Arguments.name).Nodup
  size : ∀ a ∈ as, 0 < a.filesize ∧ a.filesize < 2 ^ 32
  room : (as.map fun a => ceil a.filesize 2048).sum ≤ 509
  slots : as.length ≤ 62

/-- The files are all that is in the root. -/
structure Loaded (done : List Arguments) (v : Volume) : Prop where
  space : v.space + (done.map fun a => ceil a.filesize 2048).sum = 509
  node : ∀ a ∈ done, v.tree.node [a.request.key] = some (.file (bufferBytes a.request))
  children : ∀ k ∈ v.tree.children [], ∃ a ∈ done, a.request.key = k

theorem loaded_new : Loaded [] Volume.new :=
  ⟨rfl, fun _ h => absurd h List.not_mem_nil, fun k hk => absurd (Tree.node_empty k []) hk⟩

/-- There is no folder but the root. -/
theorem Loaded.folder {ks : List Key} (h : Loaded done v) (hf : v.tree.node ks = some .folder) : ks = [] := by
  induction ks with
  | nil => rfl
  | cons k ks ih =>
    obtain rfl := ih (v.tree.above k ks _ hf)
    obtain ⟨a, ha, rfl⟩ := h.children k (Tree.mem_children.2 (by rw [hf]; exact Option.some_ne_none _))
    rw [h.node a ha] at hf
    cases hf

theorem ceil_pos {x : ℕ} (h : 0 < x) : 0 < ceil x 2048 := by
  unfold ceil
  split_ifs <;> omega

theorem Loaded.not_full (h : Loaded done v) (hlen : done.length < 62) : ¬ v.Full [] := by
  have hsub : v.tree.children [] ⊆ ↑(done.map fun a => a.request.key).toFinset := fun k hk => by
    obtain ⟨a, ha, rfl⟩ := h.children k hk
    exact List.mem_toFinset.2 (List.mem_map_of_mem ha)
  have hcard := (Set.ncard_le_ncard hsub).trans (Set.ncard_coe_finset _).le
  have hle := List.toFinset_card_le (done.map fun a => a.request.key)
  rw [List.length_map] at hle
  unfold Volume.Full
  omega

/-- One file more. -/
theorem Loaded.write (h : Loaded done v) (hf : Fits π (done ++ [a])) :
    v.Permitted π (.request [] (.write a.request)) ∧ (v.write π [] a.request).1 = .done 0 ∧
      Loaded (done ++ [a]) (v.write π [] a.request).2 := by
  have hmem : a ∈ done ++ [a] := List.mem_append_right _ List.mem_cons_self
  obtain ⟨hzero, hroot, hup⟩ := hf.name a hmem
  obtain ⟨hpos, hlt⟩ := hf.size a hmem
  have hlen := hf.slots
  have hroom := hf.room
  rw [List.length_append, List.length_singleton] at hlen
  rw [List.map_append, List.sum_append, List.map_singleton, List.sum_singleton] at hroom
  have hsize : a.request.bufferSize.toNat = a.filesize := by
    show (UInt32.ofNat a.filesize).toNat = _
    rw [UInt32.toNat_ofNat', Nat.mod_eq_of_lt hlt]
  have hsome : a.request.bufferSize ≠ 0 := fun hc => by
    rw [hc] at hsize
    exact absurd hsize.symm hpos.ne'
  have hneeded : needed a.request = ceil a.filesize 2048 := by
    unfold needed
    rw [if_neg hsome, hsize]
  have hspace := h.space
  have hclusters := ceil_pos hpos
  -- the name is none of the others
  have hfresh : ∀ b ∈ done, b.request.key ≠ a.request.key := fun b hb hc => by
    have hd := hf.nodup
    rw [List.map_append] at hd
    exact List.disjoint_of_nodup_append hd (List.mem_map_of_mem hb)
      (List.mem_singleton.2 (congrArg Prod.fst hc))
  have hnone : v.tree.node [a.request.key] = none := Tree.notMem_children.1 fun hc => by
    obtain ⟨b, hb, hk⟩ := h.children _ hc
    exact hfresh b hb hk
  have hres : v.resolve π [] a.request.key = none := Volume.resolve_eq_none.2
    ⟨fun hc => hroot (congrArg Prod.fst hc), fun hc => hup (congrArg Prod.fst hc), hnone⟩
  have hw : v.write π [] a.request =
      (.done 0, ⟨v.tree.insert [] a.request.key (.file (bufferBytes a.request)), v.space - needed a.request⟩) := by
    unfold Volume.write
    rw [if_neg (by omega), if_neg (not_not_intro hres), if_neg, Volume.made, if_neg hsome]
    rintro (⟨hc, -⟩ | hc)
    · exact hsome hc
    · omega
  refine ⟨⟨v.tree.root, hzero, ?_⟩, ?_, ?_⟩
  · show if a.request.bufferSize = 0 then _ else ¬ v.Full []
    rw [if_neg hsome]
    exact h.not_full (by omega)
  · rw [hw]
  · rw [hw]
    refine ⟨?_, fun b hb => ?_, fun k hk => ?_⟩
    · rw [List.map_append, List.sum_append, List.map_singleton, List.sum_singleton]
      show v.space - needed a.request + _ = 509
      omega
    · rcases List.mem_append.1 hb with hb | hb
      · exact Tree.node_insert_of_some (h.node b hb)
      · obtain rfl := List.mem_singleton.1 hb
        show (v.tree.insert _ _ _).node _ = _
        rw [Tree.node_insert v.tree.root hnone, Function.update_self]
    · by_cases hk' : k = a.request.key
      · exact ⟨a, hmem, hk'.symm⟩
      · have hold : k ∈ v.tree.children [] := fun hc => hk <| by
          show (v.tree.insert _ _ _).node _ = _
          rw [Tree.node_insert v.tree.root hnone, Function.update_of_ne (fun hx => hk' (List.cons.inj hx).1)]
          exact hc
        obtain ⟨b, hb, hbk⟩ := h.children k hold
        exact ⟨b, List.mem_append_left _ hb, hbk⟩

theorem Fits.front (hf : Fits π (done ++ as)) : Fits π done where
  parent a ha := hf.parent a (List.mem_append_left _ ha)
  name a ha := hf.name a (List.mem_append_left _ ha)
  nodup := by
    have h := hf.nodup
    rw [List.map_append] at h
    exact h.of_append_left
  size a ha := hf.size a (List.mem_append_left _ ha)
  room := by
    have h := hf.room
    rw [List.map_append, List.sum_append] at h
    omega
  slots := by
    have h := hf.slots
    rw [List.length_append] at h
    omega

/-- All of the files, one after the other. -/
theorem Loaded.writes (h : Loaded done v) (hf : Fits π (done ++ as)) :
    Allowed (inserted π) (fun v a => a.parentClusterNumber = 2 ∧ v.Permitted π (.request [] (.write a.request))) v as ∧
      (∀ reply ∈ (trace (inserted π) v as).1, reply = .done 0) ∧ Loaded (done ++ as) (trace (inserted π) v as).2 := by
  induction as generalizing done v with
  | nil =>
    rw [List.append_nil]
    exact ⟨trivial, fun _ hr => absurd hr List.not_mem_nil, h⟩
  | cons a as ih =>
    have hsplit : done ++ a :: as = (done ++ [a]) ++ as := by rw [List.append_assoc, List.singleton_append]
    have hone : Fits π (done ++ [a]) := (hsplit ▸ hf).front
    obtain ⟨hP, hreply, hnext⟩ := h.write hone
    obtain ⟨hallowed, hreplies, hend⟩ := ih hnext (hsplit ▸ hf)
    refine ⟨⟨⟨hf.parent a (by simp), hP⟩, hallowed⟩, fun reply hr => ?_, hsplit ▸ hend⟩
    rcases List.mem_cons.1 hr with rfl | hr
    · exact hreply
    · exact hreplies reply hr

/-! ## Loading them -/

theorem mapAt_congr (h : π.fatBeyond = κ.fatBeyond) (m : FAT32DriverState) (i : ℕ) : mapAt π m i = mapAt κ m i := by
  unfold mapAt
  rw [h]

theorem readLoop_beyond (h : π.fatBeyond = κ.fatBeyond) (m : FAT32DriverState) : ∀ (n j : ℕ) (c : UInt32),
    readLoop π m n j c = readLoop κ m n j c
  | 0, _, _ => rfl
  | n + 1, j, c => by
    rw [readLoop, readLoop, mapAt_congr h, readLoop_beyond h m n]

/-- Of the platform a read depends on what lies behind the table. -/
theorem read_congr (h : π.fatBeyond = κ.fatBeyond) (s : Machine) (r : FAT32DriverRequest) :
    read π s r = read κ s r := by
  unfold read readLoaded
  simp only [readLoop_beyond h]

theorem copyLoop_beyond (h : π.fatBeyond = κ.fatBeyond) (r : FAT32DriverRequest) : ∀ (n i totalsize tempindex : ℕ)
    (s : Machine), copyLoop π r n i totalsize tempindex s = copyLoop κ r n i totalsize tempindex s
  | 0, _, _, _, _ => rfl
  | n + 1, i, totalsize, tempindex, s => by
    rw [copyLoop, copyLoop]
    simp only [mapAt_congr h, copyLoop_beyond h r n]

theorem purgeLoop_beyond (h : π.fatBeyond = κ.fatBeyond) : ∀ (n : ℕ) (c : UInt32) (s : Machine),
    purgeLoop π n c s = purgeLoop κ n c s
  | 0, _, _ => rfl
  | n + 1, c, s => by
    rw [purgeLoop, purgeLoop]
    simp only [mapAt_congr h, purgeLoop_beyond h n]

theorem writeFile_congr (h : π.fatBeyond = κ.fatBeyond) (s : Machine) (r : FAT32DriverRequest) (i : ℕ) :
    writeFile π s r i = writeFile κ s r i := by
  unfold writeFile
  simp only [copyLoop_beyond h]

theorem write_congr (h : π.fatBeyond = κ.fatBeyond) (s : Machine) (r : FAT32DriverRequest) :
    write π s r = write κ s r := by
  show writeLoaded π (reload s r) r = writeLoaded κ (reload s r) r
  generalize reload s r = t
  rcases hc : first (isEmptyEntry t.memory.fatTable) 3 512 with _ | c
  · rw [writeLoaded_full rfl hc, writeLoaded_full rfl hc]
  by_cases hs : (cell t.memory.dirTableBuf 0).Live
  swap
  · rw [writeLoaded_unused rfl rfl hc hs, writeLoaded_unused rfl rfl hc hs]
  rcases hf : findEntry t.memory.dirTableBuf r.name r.ext with _ | i
  swap
  · rw [writeLoaded_matched rfl rfl hc hs hf, writeLoaded_matched rfl rfl hc hs hf]
  rw [writeLoaded_unmatched rfl rfl hc hs hf, writeLoaded_unmatched rfl rfl hc hs hf, writeFile_congr h]

theorem delete_congr (h : π.fatBeyond = κ.fatBeyond) (s : Machine) (r : FAT32DriverRequest) :
    delete π s r = delete κ s r := by
  unfold delete deleteLoaded
  simp only [purgeLoop_beyond h]

theorem Consistent.of_rootTail (h : Consistent π s) (hr : π.rootTail = κ.rootTail) : Consistent κ s := by
  obtain ⟨hw, ht, hu, hk, hc⟩ := h
  have hroot : ownKey π [] = ownKey κ [] := by
    unfold ownKey rootName
    rw [hr]
  exact ⟨hw, ht, hu, ⟨hk.folder, hk.root.trans hroot, hk.own, hk.ext, hk.up, hk.distinct, hk.plain⟩, hc⟩

/-- A file of the volume is read by its name. -/
theorem Represents.read_file {q : FAT32DriverRequest} {k : Key} {ks : List Key} (h : Represents π s v)
    (hf : v.tree.node (k :: ks) = some (.file (bufferBytes r))) (hown : k ≠ ownKey π ks) (hup : k ≠ upKey)
    (hp : s.disk.dirAt ks = some q.parent) (hk : q.key = k) (hn : Named q) (hq : q.bufferSize ≠ 0) :
    (read π s q).code = 0 ∧ ∀ i < r.bufferSize.toNat, (read π s q).buf i = r.buf i := by
  obtain ⟨hs, rfl⟩ := h
  have hM := hs.read hp hn
  have hreply : (volumeOf s.disk).read π ks q = .content (bufferBytes r) := by
    unfold Volume.read Volume.resolve
    rw [hk, if_neg hown, if_neg hup, hf]
    show (if q.bufferSize = 0 then _ else Volume.contents _ _) = _
    rw [if_neg hq, Volume.contents, hf]
  rw [hreply] at hM
  obtain ⟨hcode, hbytes⟩ := hM
  refine ⟨hcode, fun i hi => ?_⟩
  rw [bufferBytes, List.length_map, List.length_range] at hbytes
  exact List.map_inj_left.1 hbytes i (List.mem_range.2 hi)

/-- A kernel that mounts an image with the files loads each of them as it was. -/
theorem Loaded.load (h : Loaded as v) (hf : Fits π as) (hholds : HoldsVolume π image v) :
    ∃ s, initializeFilesystemFat32 κ (powerOn image) = some s ∧
      ∀ a ∈ as, ∀ q : FAT32DriverRequest, q.key = a.request.key → q.parentClusterNumber = 2 → q.bufferSize ≠ 0 →
        (read κ s q).code = 0 ∧ (∀ i < a.filesize, (read κ s q).buf i = a.fileBuffer i) ∧
          ∀ l ∈ (read κ s q).loads, l.offset + 2048 ≤ 510 * 2048 := by
  rcases hholds with ⟨hb, rfl⟩ | ⟨s, ⟨hs, rfl⟩, rfl⟩
  · -- without a run of the inserter there is no file
    obtain ⟨s, hs, -⟩ := createFat32_formatted κ image
    refine ⟨s, (initialize_formatted (s := powerOn image) hb).trans hs, fun a ha => ?_⟩
    have hnode := h.node a ha
    rw [show Volume.new.tree.node [a.request.key] = none from Tree.node_empty _ _] at hnode
    cases hnode
  · obtain ⟨m, hm, hfat⟩ := initialize_mounted (π := κ) (s := powerOn s.disk) hs.signature
    refine ⟨_, hm, fun a ha q hq hparent hsize => ?_⟩
    obtain ⟨hzero, hroot, hup⟩ := hf.name a ha
    -- the names are those of the host, what lies behind the table is the kernel's
    have hκ : Represents { π with fatBeyond := κ.fatBeyond } ⟨m, s.disk, []⟩ (volumeOf s.disk) :=
      ⟨Consistent.of_rootTail (π := π) (hs.of_disk rfl (coherent_of_eq hfat)) rfl, rfl⟩
    have hdir : s.disk.dirAt [] = some q.parent := by
      rw [FAT32DriverRequest.parent, hparent]
      rfl
    have hname : q.name = a.name := congrArg Prod.fst hq
    have hread := hκ.read_file (h.node a ha) (fun hc => hroot (congrArg Prod.fst hc))
      (fun hc => hup (congrArg Prod.fst hc)) hdir hq (fun hc => hzero (hname.symm.trans hc)) hsize
    have hfile : a.request.bufferSize.toNat = a.filesize := by
      show (UInt32.ofNat a.filesize).toNat = _
      rw [UInt32.toNat_ofNat', Nat.mod_eq_of_lt (hf.size a ha).2]
    have hfit {l : Load} := hκ.1.loads_le (l := l) hdir (fun hc => hzero (hname.symm.trans hc))
    rw [read_congr (π := { π with fatBeyond := κ.fatBeyond }) (κ := κ) rfl] at hread hfit
    rw [hfile] at hread
    exact ⟨hread.1, hread.2, fun l => hfit⟩

/-- Runs of the inserter on an unformatted image, one for each file, all succeed and leave a volume with the files. -/
theorem run_insert (hb : image.bootSector ≠ fsSignature) (hf : Fits π as) : ∃ codes image' v,
    run (insert π) image as = some (codes, image') ∧ (∀ code ∈ codes, code = 0) ∧ HoldsVolume π image' v ∧
    Loaded as v := by
  obtain ⟨hallowed, hreplies, hloaded⟩ := loaded_new.writes (show Fits π ([] ++ as) from hf)
  obtain ⟨codes, image', hrun, hcodes, hholds⟩ := (insert_refines π).run (.inl ⟨hb, rfl⟩) hallowed
  refine ⟨codes, image', _, hrun, fun code hc => ?_, hholds, hloaded⟩
  clear hrun
  generalize (trace (inserted π) Volume.new as).1 = replies at hreplies hcodes
  induction hcodes with
  | nil => cases hc
  | @cons c reply cs replies hm _ ih =>
    rcases List.mem_cons.1 hc with rfl | hc
    · exact Reply.done.inj (hm.symm.trans (hreplies reply List.mem_cons_self))
    · exact ih hc fun r hr => hreplies r (List.mem_cons_of_mem _ hr)

/-- Runs of the inserter on an unformatted image, one for each file, all succeed; a kernel that mounts the image, on
another machine, then loads each of the files as it was. -/
theorem inserted_files_load (hb : image.bootSector ≠ fsSignature) (hf : Fits π as) :
    ∃ codes image', run (insert π) image as = some (codes, image') ∧ (∀ code ∈ codes, code = 0) ∧
      ∃ s, initializeFilesystemFat32 κ (powerOn image') = some s ∧
        ∀ a ∈ as, ∀ q : FAT32DriverRequest, q.key = a.request.key → q.parentClusterNumber = 2 → q.bufferSize ≠ 0 →
          (read κ s q).code = 0 ∧ ∀ i < a.filesize, (read κ s q).buf i = a.fileBuffer i := by
  obtain ⟨codes, image', v, hrun, hcodes, hholds, hloaded⟩ := run_insert hb hf
  obtain ⟨s, hs, hload⟩ := hloaded.load (κ := κ) hf hholds
  refine ⟨codes, image', hrun, hcodes, s, hs, fun a ha q hq hparent hsize => ?_⟩
  obtain ⟨hcode, hbytes, -⟩ := hload a ha q hq hparent hsize
  exact ⟨hcode, hbytes⟩

/-- The shell and a program with a name of more than eight letters. -/
def sampleFiles : List Arguments :=
  [⟨[115, 104, 101, 108, 108], 2, fun _ => 7, 5000⟩,
    ⟨[98, 97, 99, 107, 103, 114, 111, 117, 110, 100], 2, fun a => UInt8.ofNat a, 1⟩]

theorem sampleFiles_fits : Fits zeroPlatform sampleFiles :=
  ⟨by decide, by decide, by decide, by decide, by decide, by decide⟩

theorem inserted_files_load_sampleFiles :
    ∃ codes image', run (insert zeroPlatform) zeroDisk sampleFiles = some (codes, image') ∧ (∀ code ∈ codes, code = 0) ∧
      ∃ s, initializeFilesystemFat32 zeroPlatform (powerOn image') = some s ∧
        ∀ a ∈ sampleFiles, ∀ q : FAT32DriverRequest, q.key = a.request.key → q.parentClusterNumber = 2 →
          q.bufferSize ≠ 0 → (read zeroPlatform s q).code = 0 ∧
            ∀ i < a.filesize, (read zeroPlatform s q).buf i = a.fileBuffer i :=
  inserted_files_load zeroDisk_boot sampleFiles_fits

end BebasOs.Fat32
