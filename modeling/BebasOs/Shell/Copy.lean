/-
The `cp` command. It reads the file it is given into a buffer of one cluster, whatever the size of the file, and
writes what is in memory from there on under the same name into the folder, as a file of five clusters: the size of
the original is never looked at. So no copy it reports is faithful.
-/
import BebasOs.Fat32.AnyParent
import BebasOs.Fat32.BufferSize
import BebasOs.Fat32.Commute
import BebasOs.Fat32.Isolation
import BebasOs.Shell.Requests

namespace BebasOs.Shell

open Bytes Search Fat32 Disk

/-! ## Lines -/

/-- A file and a folder, named in a line behind a command of two letters. -/
structure TransferLine where
  source : List UInt8
  dest : List UInt8
  word : ∀ x ∈ source, x ≠ 0 ∧ x ≠ 32
  nonzero : 0 ∉ dest
  fits : source.length + dest.length ≤ 251

/-- The line with the command. -/
def TransferLine.lineBehind (t : TransferLine) (command : List UInt8) (h : command.length ≤ 2) : Line :=
  lineWith (command ++ 32 :: (t.source ++ 32 :: t.dest)) (by
    have := t.fits
    rw [List.length_append, List.length_cons, List.length_append, List.length_cons]
    omega)

def copyLine (t : TransferLine) : Line := t.lineBehind [99, 112] (by decide)

theorem TransferLine.words (t : TransferLine) {command : List UInt8} (h : command.length ≤ 2)
    (hc : ∀ x ∈ command, x ≠ 0 ∧ x ≠ 32) : Words (t.lineBehind command h) command t.source t.dest :=
  words_lineWith _ hc t.word (.inr ⟨t.dest, rfl⟩)

theorem copyLine_words (t : TransferLine) : Words (copyLine t) [99, 112] t.source t.dest :=
  t.words (by decide) (by simp)

theorem TransferLine.zero_notMem (t : TransferLine) : 0 ∉ t.source := fun h => (t.word 0 h).1 rfl

/-! ## The command -/

/-- What the command reads without having set it: the locals `retcode` and `retcode2`, and the memory behind
`clusbuff`, at the read and later at the write. -/
structure Locals where
  retcode : UInt32
  retcode2 : UInt32
  behind : ℕ → UInt8
  later : ℕ → UInt8

/-- The kernel stores its answer in the lowest byte of a local. -/
def answered (retcode : UInt32) (code : Int) : UInt32 :=
  u32.symm (store (u32 retcode) 0 (UInt8.ofNat (code % 256).toNat))

/-- `clusbuff`, with the memory behind it. -/
def withBehind (clusbuff behind : ℕ → UInt8) : ℕ → UInt8 := fun i => if i < 2048 then clusbuff i else behind (i - 2048)

/-- The request for the file, which `cp` and `mv` share. -/
def sourceRequest (line : Line) (parentCluster : UInt16) (u : Locals) : Option FAT32DriverRequest :=
  fillName line.buffer 3 ⟨withBehind (fun _ => 0) u.behind, Vector.replicate 8 0, Vector.replicate 3 0,
    parentCluster.toUInt32, 5 * 2048⟩

/-- `itr2`, the offset of the second name in the line. -/
def destOffset (line : Line) (request : FAT32DriverRequest) : ℕ :=
  if cell request.ext 0 = 0 then 4 + nameLen line.buffer 3 else 8 + nameLen line.buffer 3

/-- The request for the folder. -/
def destRequest (line : Line) (parentCluster : UInt16) (itr2 : ℕ) : FAT32DriverRequest where
  buf _ := 0
  name := Vector.ofFn fun i => cell line.buffer (itr2 + i.1)
  ext := Vector.replicate 3 0
  parentClusterNumber := parentCluster.toUInt32
  bufferSize := 0

/-- `memcmp(table.table[i].name, request2.name, strlen(request2.name)) == 0`. -/
def matchesDest (request2 : FAT32DriverRequest) (entry : FAT32DirectoryEntry) : Bool :=
  let n := strlen (requestBytes request2) 0
  memcmpLoop (entry.name.toList.take n) (request2.name.toList.take n) == 0

/-- What `cp` says at its end. -/
def reportCopy (sh : State) (retcode2 : UInt32) : State :=
  if retcode2 = 0 then sh.puts "Write success" 0x2
  else if retcode2 = 1 then sh.puts "File/Folder already exist" 0x4
  else if retcode2 = 2 then sh.puts "Invalid parent cluster" 0x4
  else sh.puts "Target folder not found" 0x4

/-- `cp` from the read of the folder on: the first entry in the table of the folder that has the folder's name gives
the directory to write into. -/
def copyInto (π : Platform) (sh : State) (line : Line) (u : Locals) (request : FAT32DriverRequest)
    (clusbuff : ℕ → UInt8) : Option State :=
  let request2 := destRequest line sh.parentCluster (destOffset line request)
  let listed := readDirectory sh.machine request2
  let sh := { sh with machine := listed.machine }
  let table := tableOf listed.buf
  match first (fun i => matchesDest request2 (cell table i)) 0 64 with
  | none => some (reportCopy sh u.retcode2)
  | some i => do
    let (code, machine) ← write π sh.machine
      { request with buf := withBehind clusbuff u.later, parentClusterNumber := (cell table i).cluster }
    return reportCopy { sh with machine := machine } (answered u.retcode2 code)

/-- The branch of `parseCommand` for `cp`: the shell after it, and the stores into memory from `clusbuff` on. -/
def copy (π : Platform) (sh : State) (line : Line) (u : Locals) : Option (State × List Load) := do
  let request ← sourceRequest line sh.parentCluster u
  let result := read π sh.machine request
  let retcode := answered u.retcode result.code
  let sh := { sh with machine := result.machine }
  if retcode = 0 then
    return (← copyInto π (sh.puts "Read success" 0x2) line u request result.buf, result.loads)
  else if retcode = 1 then return (sh.puts "Not a file" 0x4, result.loads)
  else if retcode = 2 then return (sh.puts "File Not found" 0x4, result.loads)
  else return (sh.puts "Unknown error" 0x4, result.loads)

/-! ## What is asked for -/

variable {π : Platform} {sh sh' : State} {t : TransferLine} {u : Locals} {d d' : Disk} {p i k : ℕ} {loads : List Load}

/-- The line names the file in slot `i` and the folder in slot `k` of the directory; the file has up to five
clusters, and the folder has a slot for it, no entry of its name, and there are clusters enough. -/
structure Transfer (d : Disk) (p : ℕ) (t : TransferLine) (i k : ℕ) : Prop where
  name : (base t.source).length ≤ 8
  ext : (afterDot t.source).length ≤ 3
  file : d.LiveFile p i
  found : findEntry (d.table p) (nameOf (base t.source)) (extOf (afterDot t.source)) = some i
  size : (d.slot p i).filesize.toNat ≤ 5 * 2048
  folder : d.LiveEntry p k
  isFolder : (d.slot p k).IsFolder
  dest : t.dest.length ≤ 8
  folderName : (d.slot p k).name = nameOf t.dest
  freeSlot : d.HasFreeSlot (d.slot p k).cluster.toNat
  fresh : ∀ j, d.LiveEntry (d.slot p k).cluster.toNat j →
    ¬ (d.slot (d.slot p k).cluster.toNat j).hasName (nameOf (base t.source)) (extOf (afterDot t.source))
  room : clusterCount (d.slot p i) ≤ (freeClusters d.fat).length

/-- Directory `f` holds a file with the name, size and bytes of the file in slot `i` of directory `p` of `d`. -/
def HoldsCopy (d d' : Disk) (p i f : ℕ) : Prop := ∃ j, d'.LiveFile f j ∧ (d'.slot f j).name = (d.slot p i).name ∧
  (d'.slot f j).ext = (d.slot p i).ext ∧ (d'.slot f j).filesize = (d.slot p i).filesize ∧
  d'.fileBytes (d'.slot f j) = d.fileBytes (d.slot p i)

/-- The folder holds a copy of the file, the file is as it was, and nothing behind the cluster buffer was stored
to. -/
structure Faithful (d d' : Disk) (p i f : ℕ) (loads : List Load) : Prop where
  copied : HoldsCopy d d' p i f
  original : SameFile d d' p i
  inside : ∀ l ∈ loads, l.offset + 2048 ≤ 2048

/-- `cp` reports success. -/
def State.ReportsSuccess (sh : State) : Prop := sh.printed.getLast? = some ("Write success", 0x2)

theorem Transfer.liveDir (h : Transfer d p t i k) : d.LiveDir (d.slot p k).cluster.toNat :=
  .tail h.folder.dir ⟨k, h.folder.lo, h.folder.hi, h.folder.live, h.isFolder, rfl⟩

/-! ## What is done -/

theorem reportCopy_machine (sh : State) (retcode2 : UInt32) : (reportCopy sh retcode2).machine = sh.machine := by
  unfold reportCopy
  split
  · rfl
  split
  · rfl
  split
  · rfl
  · rfl

/-- Where the folder is found, its first entry of that name gives the directory that is written into. -/
theorem copyInto_some {line : Line} {request r : FAT32DriverRequest} {clusbuff : ℕ → UInt8} {j : ℕ} {code : Int}
    {m : Machine} (hr : destRequest line sh.parentCluster (destOffset line request) = r)
    (hj : first (fun i => matchesDest r (cell (tableOf (readDirectory sh.machine r).buf) i)) 0 64 = some j)
    (hw : write π (readDirectory sh.machine r).machine { request with
      buf := withBehind clusbuff u.later
      parentClusterNumber := (cell (tableOf (readDirectory sh.machine r).buf) j).cluster } = some (code, m)) :
    ∃ sh', copyInto π sh line u request clusbuff = some (reportCopy sh' (answered u.retcode2 code)) := by
  refine ⟨{ sh with machine := m }, ?_⟩
  unfold copyInto
  simp only [hr, hj, hw]
  rfl

theorem copy_some {line : Line} {request : FAT32DriverRequest}
    (hr : sourceRequest line sh.parentCluster u = some request)
    (hcode : answered u.retcode (read π sh.machine request).code = 0)
    (hinto : copyInto π ({ sh with machine := (read π sh.machine request).machine }.puts "Read success" 0x2) line u
      request (read π sh.machine request).buf = some sh') :
    copy π sh line u = some (sh', (read π sh.machine request).loads) := by
  unfold copy
  rw [hr, Option.bind_eq_bind, Option.bind_some]
  simp only
  rw [if_pos hcode, hinto]
  rfl

/-- The disk after a copy is as it was, but for one request at most: for the name of the source, and five clusters. -/
inductive Wrote (π : Platform) (d : Disk) (request : FAT32DriverRequest) : Disk → Prop
  | nothing {d' : Disk} (h : d' = d) : Wrote π d request d'
  | file {m m' : Machine} {r : FAT32DriverRequest} {code : Int} (hw : write π m r = some (code, m')) (hm : m.disk = d)
      (hname : r.name = request.name) (hext : r.ext = request.ext) (hsize : r.bufferSize = request.bufferSize) :
      Wrote π d request m'.disk

theorem copyInto_wrote {line : Line} {request : FAT32DriverRequest} {clusbuff : ℕ → UInt8}
    (h : copyInto π sh line u request clusbuff = some sh') : Wrote π sh.machine.disk request sh'.machine.disk := by
  unfold copyInto at h
  simp only at h
  split at h
  · cases h
    rw [reportCopy_machine]
    exact .nothing (readDirectory_disk _ _)
  · generalize hw : write π _ _ = result at h
    rcases result with _ | ⟨code, machine⟩
    · cases h
    · cases h
      rw [reportCopy_machine]
      exact .file hw (readDirectory_disk _ _) rfl rfl rfl

/-- A copy only writes once the read is answered with 0. -/
theorem copy_wrote {line : Line} (h : copy π sh line u = some (sh', loads)) : ∃ request,
    sourceRequest line sh.parentCluster u = some request ∧ loads = (read π sh.machine request).loads ∧
      (sh'.machine.disk = sh.machine.disk ∨ (answered u.retcode (read π sh.machine request).code = 0 ∧
        Wrote π sh.machine.disk request sh'.machine.disk)) := by
  unfold copy at h
  rw [Option.bind_eq_bind, Option.bind_eq_some_iff] at h
  obtain ⟨request, hrequest, h⟩ := h
  have hdisk : (read π sh.machine request).machine.disk = sh.machine.disk := read_disk _ _ _
  refine ⟨request, hrequest, ?_⟩
  simp only at h
  split at h
  · next hzero =>
    rw [Option.bind_eq_bind, Option.bind_eq_some_iff] at h
    obtain ⟨sh₁, hinto, heq⟩ := h
    cases heq
    refine ⟨rfl, .inr ⟨hzero, ?_⟩⟩
    rw [← hdisk]
    exact copyInto_wrote hinto
  split at h
  · cases h
    exact ⟨rfl, .inl hdisk⟩
  split at h
  · cases h
    exact ⟨rfl, .inl hdisk⟩
  · cases h
    exact ⟨rfl, .inl hdisk⟩

/-- The request for the file, whichever of the two commands makes it. -/
theorem sourceRequest_eq {line : Line} {command rest : List UInt8} (hw : Words line command t.source rest)
    (hc : command.length = 2) (parentCluster : UInt16) (u : Locals) : ∃ ext, (dotByte ∉ t.source → ext = extOf []) ∧
      sourceRequest line parentCluster u = copyName ⟨withBehind (fun _ => 0) u.behind, Vector.replicate 8 0, ext,
        parentCluster.toUInt32, 5 * 2048⟩ (base t.source) := by
  have hfill := hw.fillName_eq t.zero_notMem ⟨withBehind (fun _ => 0) u.behind, Vector.replicate 8 0,
    Vector.replicate 3 0, parentCluster.toUInt32, 5 * 2048⟩
  rw [hc] at hfill
  by_cases hdot : dotByte ∈ t.source
  · rw [if_pos hdot] at hfill
    exact ⟨_, fun hno => absurd hdot hno, hfill⟩
  · rw [if_neg hdot] at hfill
    exact ⟨_, fun _ => rfl, hfill⟩

/-- What the commands ask for under a name of up to 8 characters. -/
structure Asks (t : TransferLine) (parentCluster : UInt16) (r : FAT32DriverRequest) : Prop where
  name : r.name = nameOf (base t.source)
  ext : dotByte ∉ t.source → r.ext = extOf []
  parent : r.parentClusterNumber = parentCluster.toUInt32
  size : r.bufferSize = 5 * 2048

theorem sourceRequest_asks {line : Line} {command rest : List UInt8} (hw : Words line command t.source rest)
    (hc : command.length = 2) (hlen : (base t.source).length ≤ 8) (parentCluster : UInt16) (u : Locals) :
    ∃ request, sourceRequest line parentCluster u = some request ∧ Asks t parentCluster request := by
  obtain ⟨ext, hext, heq⟩ := sourceRequest_eq hw hc parentCluster u
  obtain ⟨request, hcopy, hcopied⟩ := copyName_spec ⟨withBehind (fun _ => 0) u.behind, Vector.replicate 8 0, ext,
    parentCluster.toUInt32, 5 * 2048⟩ (show (base t.source).length ≤ 19 by omega)
  have hbehind (i : ℕ) (d : UInt8) : (base t.source).getD (8 + i) d = d := List.getD_eq_default _ _ (by omega)
  refine ⟨request, heq.trans hcopy, cell_ext fun i hi => ?_, fun hno => cell_ext fun i hi => ?_,
    u32.injective (cell_ext fun i hi => ?_), u32.injective (cell_ext fun i hi => ?_)⟩
  · rw [hcopied.name i hi, cell_nameOf hi, cell_replicate]
  · rw [hcopied.ext i hi, hbehind, hext hno]
  · rw [hcopied.parent i hi, show 11 + i = 8 + (3 + i) by omega, hbehind]
  · rw [hcopied.size i hi, show 15 + i = 8 + (7 + i) by omega, hbehind]

/-! ## Size -/

theorem answered_eq_zero {retcode : UInt32} {code : Int} (h : answered retcode code = 0) :
    UInt8.ofNat (code % 256).toNat = 0 := by
  have hcell : cell (u32 (answered retcode code)) 0 = UInt8.ofNat (code % 256).toNat := by
    unfold answered
    rw [Equiv.apply_symm_apply, cell_store _ _ _ (by decide), if_pos rfl]
  rw [← hcell, h]
  rfl

/-- The table of a live directory is as it was, or has one new entry, for the request. -/
theorem Wrote.table {request : FAT32DriverRequest} {f : ℕ} (h : Wrote π d request d') (hd : d.Grounded)
    (hf : d.LiveDir f)
    (hb : request.bufferSize ≠ 0) : d'.table f = d.table f ∨ ∃ j c r, r.name = request.name ∧ r.ext = request.ext ∧
      r.bufferSize = request.bufferSize ∧ d'.table f = store (d.table f) j (fileEntry r c) := by
  cases h with
  | nothing h =>
    rw [h]
    exact .inl rfl
  | @file m m' r code hw hm hname hext hsize =>
    subst hm
    rcases write_table hd hf (by rwa [hsize]) hw with hsame | ⟨j, c, hstore⟩
    · exact .inl hsame
    · exact .inr ⟨j, c, r, hname, hext, hsize, hstore⟩

theorem Transfer.hasName (h : Transfer d p t i k) : (d.slot p i).name = nameOf (base t.source) ∧
    (d.slot p i).ext = extOf (afterDot t.source) := by
  obtain ⟨-, -, hname, -⟩ := first_eq_some.1 h.found
  exact FAT32DirectoryEntry.hasName_iff.1 hname

/-- There is no copy in the folder before. -/
theorem Transfer.not_held (h : Transfer d p t i k) : ¬ HoldsCopy d d p i (d.slot p k).cluster.toNat := by
  rintro ⟨j, hlive, hname, hext, -⟩
  refine h.fresh j hlive.toLiveEntry (FAT32DirectoryEntry.hasName_iff.2 ?_)
  exact ⟨hname.trans h.hasName.1, hext.trans h.hasName.2⟩

/-- A copy in the folder is the file that is asked for, with the size that is asked for. -/
theorem Transfer.copied_entry {request : FAT32DriverRequest} (h : Transfer d p t i k) (hd : d.Grounded)
    (hw : Wrote π d request d') (hb : request.bufferSize ≠ 0) (hc : HoldsCopy d d' p i (d.slot p k).cluster.toNat) :
    request.name = (d.slot p i).name ∧ request.ext = (d.slot p i).ext ∧
      request.bufferSize = (d.slot p i).filesize := by
  obtain ⟨j, hlive, hname, hext, hsize, -⟩ := hc
  have hfresh (hslot : d'.slot (d.slot p k).cluster.toNat j = d.slot (d.slot p k).cluster.toNat j) : False := by
    have hl := hlive.live
    rw [hslot] at hname hext hl
    refine h.fresh j ⟨h.liveDir, hlive.lo, hlive.hi, hl⟩ (FAT32DirectoryEntry.hasName_iff.2 ?_)
    exact ⟨hname.trans h.hasName.1, hext.trans h.hasName.2⟩
  rcases hw.table hd h.liveDir hb with hsame | ⟨j', c, r, hrname, hrext, hrsize, hstore⟩
  · exact absurd (congrArg (cell · j) hsame) hfresh
  · by_cases hj : j = j'
    · subst hj
      have hslot : d'.slot (d.slot p k).cluster.toNat j = fileEntry r c := by
        show cell (d'.table _) j = _
        rw [hstore, cell_store _ _ _ hlive.hi, if_pos rfl]
      rw [hslot] at hname hext hsize
      exact ⟨hrname.symm.trans hname, hrext.symm.trans hext, hrsize.symm.trans hsize⟩
    · refine absurd ?_ hfresh
      show cell (d'.table _) j = _
      rw [hstore, cell_store_ne _ _ (Ne.symm hj)]
      rfl

theorem Asks.parent_eq {r : FAT32DriverRequest} (h : Asks t sh.parentCluster r) :
    r.parent = sh.parentCluster.toNat := by
  show r.parentClusterNumber.toNat = _
  rw [h.parent, UInt16.toNat_toUInt32]

/-- What is read of a file of five clusters goes behind the buffer of one. -/
theorem Transfer.read_outside {r : FAT32DriverRequest} (h : Transfer sh.machine.disk sh.parentCluster.toNat t i k)
    (hd : sh.machine.disk.WellFormed) (hr : Asks t sh.parentCluster r)
    (hext : r.ext = (sh.machine.disk.slot sh.parentCluster.toNat i).ext)
    (hsize : (sh.machine.disk.slot sh.parentCluster.toNat i).filesize = 5 * 2048)
    (hcode : UInt8.ofNat ((read π sh.machine r).code % 256).toNat = 0) :
    ∃ l ∈ (read π sh.machine r).loads, ¬ l.offset + 2048 ≤ 2048 := by
  have hp := hr.parent_eq
  have hb : r.bufferSize ≠ 0 := by
    rw [hr.size]
    decide
  have hfile : sh.machine.disk.LiveFile r.parent i := by
    rw [hp]
    exact h.file
  have hresolves : Resolves sh.machine.disk r i := by
    unfold Resolves
    rw [hp, hr.name, hext, h.hasName.2]
    exact h.found
  by_contra hin
  push Not at hin
  rcases read_answer (π := π) hd.toSound hfile hresolves hb with ⟨-, hone, -⟩ | ⟨-, -, hloads⟩
  · rw [hone] at hcode
    exact absurd hcode (by decide)
  · have hlast := (hloads 1).1 fun l hl => by
      have := hin l hl
      omega
    unfold fileSize at hlast
    rw [hp, hsize] at hlast
    exact absurd hlast (by decide)

/-- A copy that is in the folder after a run was made for the request for the file. -/
theorem Transfer.copied_request (ht : Transfer sh.machine.disk sh.parentCluster.toNat t i k)
    (hd : sh.machine.disk.WellFormed) (h : copy π sh (copyLine t) u = some (sh', loads))
    (hc : HoldsCopy sh.machine.disk sh'.machine.disk
      sh.parentCluster.toNat i (sh.machine.disk.slot sh.parentCluster.toNat k).cluster.toNat) :
    ∃ r, Asks t sh.parentCluster r ∧ loads = (read π sh.machine r).loads ∧
      r.ext = (sh.machine.disk.slot sh.parentCluster.toNat i).ext ∧
      (sh.machine.disk.slot sh.parentCluster.toNat i).filesize = 5 * 2048 ∧
      UInt8.ofNat ((read π sh.machine r).code % 256).toNat = 0 := by
  obtain ⟨request, hrequest, hloads, hdisk⟩ := copy_wrote h
  obtain ⟨request', hrequest', hasks⟩ := sourceRequest_asks (copyLine_words t) rfl ht.name sh.parentCluster u
  obtain rfl : request' = request := Option.some.inj (hrequest'.symm.trans hrequest)
  have hb : request'.bufferSize ≠ 0 := by
    rw [hasks.size]
    decide
  rcases hdisk with hsame | ⟨hcode, hwrote⟩
  · rw [hsame] at hc
    exact absurd hc ht.not_held
  · obtain ⟨-, hext, hsize⟩ := ht.copied_entry hd.toSound.grounded hwrote hb hc
    exact ⟨request', hasks, hloads, hext, hsize.symm.trans hasks.size, answered_eq_zero hcode⟩

/-! ## A sample disk -/

/-- The disk with the empty folder `b`, in slot 2 of the root and cluster 3, and the file `a` of one byte in slot 3 of
the root. -/
structure HoldsBoth (d : Disk) : Prop where
  wellFormed : d.WellFormed
  rootSelf : d.slot 2 0 = rootEntry zeroPlatform
  rootParent : d.slot 2 1 = dotDotEntry (rootEntry zeroPlatform)
  folder : d.slot 2 2 = newEntry folderB 3
  liveFolder : d.LiveEntry 2 2
  file : ∃ c, d.slot 2 3 = newEntry fileA c
  liveFile : d.LiveFile 2 3
  self : d.slot 3 0 = newEntry folderB 3
  parent : d.slot 3 1 = dotDotEntry (rootEntry zeroPlatform)
  empty : ∀ i, 2 ≤ i → d.slot 3 i = default
  resolves : Resolves d fileA 3
  room : 5 ≤ (freeClusters d.fat).length

theorem exists_holdsBoth : ∃ s : Machine, HoldsBoth s.disk := by
  obtain ⟨s₀, s₁, s, c, -, -, -, hq⟩ := exists_second 97 1 (by decide) (by decide) (by decide) (by decide)
    (by decide)
  have hf := hq.formatted
  have st₁ := hq.first
  have st₂ : Stored s₁ fileA 3 c s := hq.second
  have hd := hf.wellFormed.toSound
  have hpb : Placed s₀.disk folderB := hf.placed_letter (by decide)
  have hb := st₁.firstFolder hf rfl rfl
  have hd₁ := hb.wellFormed.toSound.grounded
  have hpa : Placed s₁.disk fileA := hq.placed
  have hi := st₂.inserted hd₁ hpa.live (by omega)
  have h3 : s₁.disk.LiveDir 3 := st₁.liveDir_folder hd.grounded hpb.live rfl
  have hroot (i : ℕ) (hne : i ≠ 3) : s.disk.slot 2 i = s₁.disk.slot 2 i := by
    rw [hi.slot_eq hd₁ s₁.disk.liveDir_root, if_neg fun h => hne h.2]
  have hfolder (i : ℕ) : s.disk.slot 3 i = s₁.disk.slot 3 i := by
    rw [hi.slot_eq hd₁ h3, if_neg fun h => absurd h.1 (by decide)]
  have hlive : s₁.disk.LiveEntry 2 2 := st₁.liveEntry hd.grounded hpb.live (by omega)
  refine ⟨s, ?_, (hroot 0 (by omega)).trans hb.rootSelf, (hroot 1 (by omega)).trans hb.rootParent,
    (hroot 2 (by omega)).trans hb.slot, ?_, ⟨c, hi.slot_new hd₁⟩, st₂.liveFile hd₁ hpa.live (by omega) (by decide),
    (hfolder 0).trans hb.self, (hfolder 1).trans hb.parent, fun i h2 => (hfolder i).trans (hb.empty i h2), ?_, ?_⟩
  · exact (st₂.sameBoot hd₁ hpa.live).wellFormed hb.wellFormed (hi.sound hb.wellFormed.toSound)
  · exact (hi.liveEntry_iff hd₁).2 (.inl hlive)
  · exact st₂.resolves hd₁ hpa.live (by omega) rfl rfl rfl (newExt_file (by decide))
  · have h0 : (freeClusters s₀.disk.fat).length = 509 := by rw [hf.freeClusters, List.length_range']
    have h1 := st₁.freeClusters_length hd hpb
    have h2 := st₂.freeClusters_length hb.wellFormed.toSound hpa
    have hn1 : needed folderB = 1 := by decide
    have hn2 : needed fileA = 1 := by decide
    omega

/-- A file `a` and a folder `b`. -/
def lineAB : TransferLine := ⟨[97], [98], by simp, by decide, by decide⟩

/-- The shell in the root of a disk, before its first line. -/
def shellOn (s : Machine) : State := ⟨0, Vector.replicate 100 0, 2, fun _ => 0, s, []⟩

def zeroLocals : Locals := ⟨0, 0, fun _ => 0, fun _ => 0⟩

namespace HoldsBoth

variable (h : HoldsBoth d)
include h

theorem folder_cluster : (d.slot 2 2).cluster = 3 := by
  rw [h.folder]
  decide

theorem folder_unmatched {name : Vector UInt8 8} {ext : Vector UInt8 3} (hb : name ≠ nameOf [98]) (hdot : name ≠ dotDot)
    (h0 : name ≠ Vector.replicate 8 0) (j : ℕ) : ¬ (d.slot 3 j).hasName name ext := by
  rw [FAT32DirectoryEntry.hasName_iff]
  rintro ⟨hname, -⟩
  by_cases hj : j < 2
  · obtain rfl | rfl : j = 0 ∨ j = 1 := by omega
    · rw [h.self, newEntry_name] at hname
      exact hb (hname.symm.trans (by decide))
    · rw [h.parent, dotDotEntry_name] at hname
      exact hdot hname.symm
  · rw [h.empty j (by omega)] at hname
    exact h0 (hname.symm.trans (by decide))

theorem hasFreeSlot : d.HasFreeSlot 3 := ⟨2, by omega, by omega, by
  rw [h.empty 2 (Nat.le_refl 2)]
  exact FAT32DirectoryEntry.not_live_default⟩

theorem filesize : (d.slot 2 3).filesize = 1 := by
  obtain ⟨c, hc⟩ := h.file
  rw [hc, newEntry_filesize]
  rfl

theorem transfer : Transfer d 2 lineAB 3 2 := by
  have hcluster : (d.slot 2 2).cluster.toNat = 3 := by
    rw [h.folder_cluster]
    rfl
  have hname : fileA.name = nameOf (base lineAB.source) := by decide
  have hext : fileA.ext = extOf (afterDot lineAB.source) := by decide
  refine ⟨by decide, by decide, h.liveFile, ?_, ?_, h.liveFolder, ?_, by decide, ?_, ?_, fun j _ => ?_, ?_⟩
  · rw [← hname, ← hext]
    exact h.resolves
  · rw [h.filesize]
    decide
  · rw [h.folder]
    exact (newEntry_isFolder _ _).2 rfl
  · rw [h.folder, newEntry_name]
    decide
  · rw [hcluster]
    exact h.hasFreeSlot
  · rw [hcluster]
    exact h.folder_unmatched (by decide) (by decide) (by decide) j
  · have hroom := h.room
    rw [clusterCount, if_neg h.liveFile.file, h.filesize]
    exact Nat.le_trans (by decide) hroom

/-- `read_directory` finds the folder under its name. -/
theorem lookUp : d.lookUp 2 (nameOf [98]) = some 2 := by
  unfold Disk.lookUp
  rw [if_neg (by decide)]
  refine first_eq_some.2 ⟨by omega, by omega, decide_eq_true ?_, fun j h1 h2 => decide_eq_false ?_⟩
  · rw [h.folder, newEntry_name]
    decide
  · obtain rfl : j = 1 := by omega
    rw [h.rootParent, dotDotEntry_name]
    decide

end HoldsBoth

/-- The request for the table of `b`. -/
def requestB : FAT32DriverRequest := ⟨fun _ => 0, nameOf [98], Vector.replicate 3 0, 2, 0⟩

theorem destRequest_eq {r : FAT32DriverRequest} (hext : r.ext = extOf []) :
    destRequest (copyLine lineAB) 2 (destOffset (copyLine lineAB) r) = requestB := by
  have hw := copyLine_words lineAB
  have hlen : nameLen (copyLine lineAB).buffer 3 = 1 := hw.nameLen_eq (by decide)
  have hoffset : destOffset (copyLine lineAB) r = 5 := by
    unfold destOffset
    rw [hext, hlen]
    decide
  have hname : (destRequest (copyLine lineAB) 2 5).name = nameOf [98] := by
    refine cell_ext fun i hi => (cell_ofFn hi).trans ?_
    rw [hw.cells, cell_nameOf hi]
    interval_cases i <;> rfl
  rw [hoffset]
  unfold requestB
  rw [← hname]
  rfl

/-- The first entry in the table of the folder is the folder itself. -/
theorem HoldsBoth.matches_first {t : FAT32DirectoryTable} (h : HoldsBoth d) (ht : t = d.table 3) :
    first (fun i => matchesDest requestB (cell t i)) 0 64 = some 0 := by
  refine first_eq_some.2 ⟨Nat.le_refl 0, by omega, ?_, fun j _ hj => absurd hj (Nat.not_lt_zero j)⟩
  have hself : (cell t 0).name = folderB.name := by
    rw [ht]
    exact (congrArg FAT32DirectoryEntry.name h.self).trans (newEntry_name _ _)
  unfold matchesDest
  simp only
  rw [hself]
  decide

/-- The folder takes the file. -/
theorem HoldsBoth.write {s : Machine} {r : FAT32DriverRequest} (h : HoldsBoth s.disk) (hname : r.name = nameOf [97])
    (hp : r.parentClusterNumber = 3) (hsize : r.bufferSize = 5 * 2048) :
    ∃ s', Fat32.write zeroPlatform s r = some (0, s') := by
  have hparent : r.parent = 3 := congrArg UInt32.toNat hp
  have h3 : s.disk.LiveDir r.parent := by
    have hlive := h.transfer.liveDir
    rw [h.folder_cluster] at hlive
    rw [hparent]
    exact hlive
  obtain ⟨j, c, ha⟩ : ∃ j c, Accepted s r j c := by
    refine exists_accepted (first_eq_none.2 fun k _ _ => ?_) ?_ ?_
    · rw [hparent, Bool.eq_false_iff, hname]
      exact h.folder_unmatched (by decide) (by decide) (by decide) k
    · have hneeded : needed r = 5 := by
        unfold needed
        rw [hsize]
        decide
      rw [hneeded]
      exact h.room
    · rw [hparent]
      exact h.hasFreeSlot
  obtain ⟨s', hw, -⟩ := ha.write (π := zeroPlatform) h.wellFormed.toSound.grounded h3
  exact ⟨s', hw⟩

/-- What is read of `a` is written into `b`. -/
theorem HoldsBoth.copiedInto (sh : State) (h : HoldsBoth sh.machine.disk) (hp : sh.parentCluster = 2)
    {request : FAT32DriverRequest} (hr : Asks lineAB sh.parentCluster request) (clusbuff : ℕ → UInt8) : ∃ sh',
      copyInto zeroPlatform sh (copyLine lineAB) zeroLocals request clusbuff = some (reportCopy sh' 0) := by
  have hcluster : place (sh.machine.disk.slot 2 2).cluster = 3 := congrArg place h.folder_cluster
  have hdest : destRequest (copyLine lineAB) sh.parentCluster (destOffset (copyLine lineAB) request) = requestB := by
    rw [hp]
    exact destRequest_eq (hr.ext (by decide))
  have htable : tableOf (readDirectory sh.machine requestB).buf = sh.machine.disk.table 3 := by
    rw [← hcluster]
    exact (readDirectory_table (r := requestB) h.lookUp).2
  have hself : (cell (tableOf (readDirectory sh.machine requestB).buf) 0).cluster = 3 := by
    rw [htable]
    exact (congrArg FAT32DirectoryEntry.cluster h.self).trans (by decide)
  have hread : HoldsBoth (readDirectory sh.machine requestB).machine.disk := by
    rw [readDirectory_disk]
    exact h
  obtain ⟨m, hwrite⟩ := hread.write (r := { request with
    buf := withBehind clusbuff zeroLocals.later
    parentClusterNumber := (cell (tableOf (readDirectory sh.machine requestB).buf) 0).cluster }) hr.name hself hr.size
  obtain ⟨sh', hcopied⟩ := copyInto_some (u := zeroLocals) hdest (h.matches_first htable) hwrite
  exact ⟨sh', hcopied⟩

/-- The copy of the file `a` into the folder `b` reports success. -/
theorem HoldsBoth.copied {s : Machine} (h : HoldsBoth s.disk) : ∃ sh' loads,
    copy zeroPlatform (shellOn s) (copyLine lineAB) zeroLocals = some (sh', loads) ∧ sh'.ReportsSuccess := by
  obtain ⟨request, hrequest, hasks⟩ := sourceRequest_asks (copyLine_words lineAB) rfl (by decide)
    (shellOn s).parentCluster zeroLocals
  have hparent : request.parent = 2 := hasks.parent_eq
  have hresolves : Resolves s.disk request 3 := by
    unfold Resolves
    rw [hparent, hasks.name, hasks.ext (by decide)]
    exact h.transfer.found
  have hcode : (read zeroPlatform (shellOn s).machine request).code = 0 := by
    refine read_code (by rw [hparent]; decide) hresolves ?_ (by rw [hasks.size]; decide)
    obtain ⟨c, hc⟩ := h.file
    rw [hparent]
    refine fun he => absurd ((congrArg FAT32DirectoryEntry.attributeByte hc).symm.trans he) ?_
    rw [newEntry_attribute]
    decide
  have hboth : HoldsBoth (read zeroPlatform (shellOn s).machine request).machine.disk := by
    rw [read_disk]
    exact h
  obtain ⟨sh', hcopied⟩ := HoldsBoth.copiedInto ({ shellOn s with
    machine := (read zeroPlatform (shellOn s).machine request).machine }.puts "Read success" 0x2) hboth rfl hasks
    (read zeroPlatform (shellOn s).machine request).buf
  refine ⟨_, _, copy_some hrequest ?_ hcopied, ?_⟩
  · rw [hcode]
    decide
  · unfold State.ReportsSuccess reportCopy
    rw [if_pos rfl]
    exact List.getLast?_concat

/-! ## No copy is faithful -/

/-- In no run that reports success is the copy faithful. -/
theorem copy_never_faithful (hd : sh.machine.disk.WellFormed)
    (ht : Transfer sh.machine.disk sh.parentCluster.toNat t i k)
    (h : copy π sh (copyLine t) u = some (sh', loads)) (_ : sh'.ReportsSuccess) :
    ¬ Faithful sh.machine.disk sh'.machine.disk sh.parentCluster.toNat i
      (sh.machine.disk.slot sh.parentCluster.toNat k).cluster.toNat loads := by
  intro hf
  obtain ⟨r, hr, rfl, hext, hsize, hcode⟩ := ht.copied_request hd h hf.copied
  obtain ⟨l, hl, hout⟩ := ht.read_outside hd hr hext hsize hcode
  exact hout (hf.inside l hl)

theorem copy_never_faithful_fileA : ∃ s sh' loads,
    copy zeroPlatform (shellOn s) (copyLine lineAB) zeroLocals = some (sh', loads) ∧
    sh'.ReportsSuccess ∧ ¬ Faithful s.disk sh'.machine.disk 2 3 (s.disk.slot 2 2).cluster.toNat loads := by
  obtain ⟨s, h⟩ := exists_holdsBoth
  obtain ⟨sh', loads, hcopied, hreports⟩ := h.copied
  have hd : (shellOn s).machine.disk.WellFormed := h.wellFormed
  exact ⟨s, sh', loads, hcopied, hreports, copy_never_faithful hd h.transfer hcopied hreports⟩

/-- A file of one byte is not copied as one. -/
theorem copy_of_fileA : ∃ s sh' loads, s.disk.WellFormed ∧ Transfer s.disk 2 lineAB 3 2 ∧
    (s.disk.slot 2 3).filesize = 1 ∧
    copy zeroPlatform (shellOn s) (copyLine lineAB) zeroLocals = some (sh', loads) ∧ sh'.ReportsSuccess ∧
    ¬ HoldsCopy s.disk sh'.machine.disk 2 3 (s.disk.slot 2 2).cluster.toNat := by
  obtain ⟨s, h⟩ := exists_holdsBoth
  obtain ⟨sh', loads, hcopied, hreports⟩ := h.copied
  have ht : Transfer (shellOn s).machine.disk (shellOn s).parentCluster.toNat lineAB 3 2 := h.transfer
  refine ⟨s, sh', loads, h.wellFormed, h.transfer, h.filesize, hcopied, hreports, fun hc => ?_⟩
  obtain ⟨r, -, -, -, hsize, -⟩ := ht.copied_request h.wellFormed hcopied hc
  have hone : (5 * 2048 : UInt32) = 1 := hsize.symm.trans h.filesize
  exact absurd hone (by decide)

end BebasOs.Shell
