/-
The `mv` command. It starts like `cp`, but the case of a read that succeeds is missing behind the read: whatever the
answer, the command says an error and returns, so it never moves a file.
-/
import BebasOs.Shell.Copy

namespace BebasOs.Shell

open Bytes Search Fat32 Disk

/-! ## The command -/

def moveLine (t : TransferLine) : Line := t.lineBehind [109, 118] (by decide)

/-- The branch of `parseCommand` for `mv`. Every case behind the read returns, so what follows them, the write into the
folder and the delete, is never done. A store behind `clusbuff` is one behind the end of the buffer, where the code
has no result. -/
def move (π : Platform) (sh : State) (line : Line) (u : Locals) : Option State :=
  if line.blank then some (sh.puts "mv: missing file operand" 0x4)
  else do
    let request ← sourceRequest line sh.parentCluster u
    let result := read π sh.machine request
    if ∀ l ∈ result.loads, l.offset + 2048 ≤ 2048 then
      let retcode := answered u.retcode result.code
      let sh := { sh with machine := result.machine }
      if retcode = 1 then return sh.puts "Not a file" 0x4
      else if retcode = 2 then return sh.puts "File Not found" 0x4
      else return sh.puts "Unknown error" 0x4
    else none

/-! ## What is asked for -/

variable {π : Platform} {sh sh' : State} {t : TransferLine} {u : Locals} {d d' : Disk} {p i k : ℕ}

/-- The folder in slot `k` holds the file in slot `i`, and its directory has no entry of the name. -/
structure Moved (d d' : Disk) (p i k : ℕ) : Prop where
  held : HoldsCopy d d' p i (d.slot p k).cluster.toNat
  gone : ∀ j, d'.LiveEntry p j → ¬ (d'.slot p j).hasName (d.slot p i).name (d.slot p i).ext

/-- No directory entry and no file content has changed. -/
structure Untouched (d d' : Disk) : Prop where
  entries : ∀ q, d.LiveDir q → d'.table q = d.table q
  files : ∀ q j, d.LiveFile q j → d'.fileBytes (d.slot q j) = d.fileBytes (d.slot q j)

/-- The command moves the file that its line names into the folder that it names, or does nothing. -/
def MovesOrKeeps (π : Platform) (sh : State) (t : TransferLine) (u : Locals) : Prop :=
  ∃ sh', move π sh (moveLine t) u = some sh' ∧
    (∀ i k, Transfer sh.machine.disk sh.parentCluster.toNat t i k →
      Moved sh.machine.disk sh'.machine.disk sh.parentCluster.toNat i k) ∧
    ((¬ ∃ i k, Transfer sh.machine.disk sh.parentCluster.toNat t i k) → Untouched sh.machine.disk sh'.machine.disk)

/-- An entry that a request finds is not read, or is less than a cluster. -/
def Inside (s : Machine) (r : FAT32DriverRequest) : Prop :=
  ∀ i, findEntry (s.disk.table (place r.parentClusterNumber)) r.name r.ext = some i →
    let e := s.disk.slot (place r.parentClusterNumber) i
    ReadRefused e r ∨ e.filesize.toNat < 2048 ∨ 2 ^ 32 - 2048 ≤ e.filesize.toNat

/-- The name before the dot fits into the request, and what the request finds into the buffer. -/
def StaysInside (sh : State) (t : TransferLine) (u : Locals) : Prop :=
  ∃ r, sourceRequest (moveLine t) sh.parentCluster u = some r ∧ Inside sh.machine r

/-! ## What is done -/

theorem moveLine_words (t : TransferLine) : Words (moveLine t) [109, 118] t.source t.dest :=
  t.words (by decide) (by simp)

/-- The command leaves the disk as it is. -/
theorem move_disk {line : Line} (h : move π sh line u = some sh') : sh'.machine.disk = sh.machine.disk := by
  unfold move at h
  split at h
  · cases h
    rfl
  · rw [Option.bind_eq_bind, Option.bind_eq_some_iff] at h
    obtain ⟨request, -, h⟩ := h
    have hdisk : (read π sh.machine request).machine.disk = sh.machine.disk := read_disk _ _ _
    simp only at h
    split at h
    · split at h
      · cases h
        exact hdisk
      split at h
      · cases h
        exact hdisk
      · cases h
        exact hdisk
    · cases h

/-! ## What is read -/

/-- The count of clusters of a file, and the test whether it is too large for a word. -/
theorem count_eq (n : UInt32) : (n / 2048 + 1).toNat = n.toNat / 2048 + 1 ∧
    ((n / 2048 + 1) * 2048 < n ↔ 2 ^ 32 - 2048 ≤ n.toNat) := by
  have hn := n.toNat_lt
  have hcount : (n / 2048 + 1).toNat = n.toNat / 2048 + 1 := by
    rw [UInt32.toNat_add, UInt32.toNat_div]
    simp only [UInt32.reduceToNat]
    omega
  refine ⟨hcount, ?_⟩
  rw [UInt32.lt_iff_toNat_lt, UInt32.toNat_mul, hcount]
  simp only [UInt32.reduceToNat]
  omega

theorem readLoaded_tooLarge {table : FAT32DirectoryTable} (ht : s.memory.dirTableBuf = table)
    (hf : findEntry table r.name r.ext = some i) (he : ¬ ReadRefused (cell table i) r)
    (hs : ((cell table i).filesize / 2048 + 1) * 2048 < (cell table i).filesize) :
    readLoaded π s r = ⟨0, r.buf, [], s⟩ := by
  have he' : ¬ ((cell table i).attributeByte = 1 ∨ r.bufferSize = 0) := he
  unfold readLoaded
  simp only [ht, hf, if_neg he', if_pos hs]

theorem read_inside_iff (π : Platform) (s : Machine) (r : FAT32DriverRequest) :
    (∀ l ∈ (Fat32.read π s r).loads, l.offset + 2048 ≤ 2048) ↔ Inside s r := by
  have ht := loadParent_dirTableBuf s r
  unfold Inside Fat32.read
  rcases hf : findEntry (s.disk.table (place r.parentClusterNumber)) r.name r.ext with _ | i
  · have hloads : (readLoaded π (loadParent s r) r).loads = [] := by
      unfold readLoaded
      simp only [ht, hf]
    rw [hloads]
    exact iff_of_true (fun l hl => absurd hl List.not_mem_nil) fun i hi => by cases hi
  · have hslot : cell (s.disk.table (place r.parentClusterNumber)) i = s.disk.slot (place r.parentClusterNumber) i :=
      rfl
    obtain ⟨hcount, hlt⟩ := count_eq (s.disk.slot (place r.parentClusterNumber) i).filesize
    by_cases hrefused : ReadRefused (s.disk.slot (place r.parentClusterNumber) i) r
    · rw [readLoaded_refused ht hf hrefused]
      refine iff_of_true (fun l hl => absurd hl List.not_mem_nil) fun i' hi => ?_
      cases hi
      exact .inl hrefused
    by_cases hlarge : 2 ^ 32 - 2048 ≤ (s.disk.slot (place r.parentClusterNumber) i).filesize.toNat
    · rw [readLoaded_tooLarge ht hf hrefused (hlt.2 hlarge)]
      refine iff_of_true (fun l hl => absurd hl List.not_mem_nil) fun i' hi => ?_
      cases hi
      exact .inr (.inr hlarge)
    · rw [readLoaded_loads ht hf hrefused (hlt.not.2 hlarge)]
      simp only [hslot, hcount]
      have hlast := readLoop_offsets_lt_iff π (loadParent s r).memory
        ((s.disk.slot (place r.parentClusterNumber) i).filesize.toNat / 2048) 1
        (s.disk.slot (place r.parentClusterNumber) i).cluster
      constructor
      · intro h i' hi
        cases hi
        have hle := hlast.1 fun l hl => by
          have := h l hl
          omega
        exact .inr (.inl (by omega))
      · intro h l hl
        have hsmall := ((h i rfl).resolve_left hrefused).resolve_right hlarge
        have := hlast.2 (by omega) l hl
        omega

/-! ## Moving or keeping -/

theorem Untouched.refl (d : Disk) : Untouched d d := ⟨fun _ _ => rfl, fun _ _ _ => rfl⟩

/-- The command has a result exactly if it says that the argument is missing, or stays within its memory. -/
theorem move_isSome_iff : (∃ sh', move π sh (moveLine t) u = some sh') ↔
    (moveLine t).blank = true ∨ StaysInside sh t u := by
  unfold move StaysInside
  by_cases hb : (moveLine t).blank = true
  · rw [if_pos hb]
    exact iff_of_true ⟨_, rfl⟩ (.inl hb)
  · rw [if_neg hb, or_iff_right hb]
    rcases hr : sourceRequest (moveLine t) sh.parentCluster u with _ | r
    · refine iff_of_false ?_ ?_
      · rintro ⟨sh', h⟩
        cases h
      · rintro ⟨r, h, -⟩
        cases h
    · rw [Option.bind_eq_bind, Option.bind_some]
      have hin := read_inside_iff π sh.machine r
      simp only [Option.some.injEq, exists_eq_left']
      rw [← hin]
      by_cases hl : ∀ l ∈ (Fat32.read π sh.machine r).loads, l.offset + 2048 ≤ 2048
      · rw [if_pos hl]
        refine iff_of_true ?_ hl
        split
        · exact ⟨_, rfl⟩
        split
        · exact ⟨_, rfl⟩
        · exact ⟨_, rfl⟩
      · rw [if_neg hl]
        refine iff_of_false ?_ hl
        rintro ⟨sh', h⟩
        cases h

/-- The command moves or does nothing exactly where it cannot move, and says that the argument is missing or stays
within its memory. -/
theorem move_iff (π : Platform) (sh : State) (t : TransferLine) (u : Locals) : MovesOrKeeps π sh t u ↔
    (¬ ∃ i k, Transfer sh.machine.disk sh.parentCluster.toNat t i k) ∧
      ((∀ x ∈ t.source, x ∈ [(9 : UInt8), 10, 13]) ∨ StaysInside sh t u) := by
  have hblank := (moveLine_words t).blank_iff t.zero_notMem fun h => (t.word 32 h).2 rfl
  rw [← hblank, ← move_isSome_iff (π := π)]
  constructor
  · rintro ⟨sh', h, hmoved, -⟩
    refine ⟨?_, sh', h⟩
    rintro ⟨i, k, ht⟩
    have hheld := (hmoved i k ht).held
    rw [move_disk h] at hheld
    exact ht.not_held hheld
  · rintro ⟨hno, sh', h⟩
    refine ⟨sh', h, fun i k ht => absurd ⟨i, k, ht⟩ hno, fun _ => ?_⟩
    rw [move_disk h]
    exact .refl _

/-- The file `a` is not moved into the folder `b`. -/
theorem move_of_fileA : ∃ s sh', s.disk.WellFormed ∧ Transfer s.disk 2 lineAB 3 2 ∧
    move zeroPlatform (shellOn s) (moveLine lineAB) zeroLocals = some sh' ∧ sh'.machine.disk = s.disk ∧
    ¬ MovesOrKeeps zeroPlatform (shellOn s) lineAB zeroLocals := by
  obtain ⟨s, h⟩ := exists_holdsBoth
  have hstays : StaysInside (shellOn s) lineAB zeroLocals := by
    obtain ⟨r, hr, hasks⟩ := sourceRequest_asks (moveLine_words lineAB) rfl (by decide)
      (shellOn s).parentCluster zeroLocals
    refine ⟨r, hr, fun i hi => ?_⟩
    have hfound : findEntry (s.disk.table 2) r.name r.ext = some 3 := by
      rw [hasks.name, hasks.ext (by decide)]
      exact h.transfer.found
    rw [hasks.parent] at hi ⊢
    cases hi.symm.trans hfound
    refine .inr (.inl ?_)
    show (s.disk.slot 2 3).filesize.toNat < 2048
    rw [h.filesize]
    decide
  obtain ⟨sh', hmove⟩ := (move_isSome_iff (π := zeroPlatform)).2 (.inr hstays)
  refine ⟨s, sh', h.wellFormed, h.transfer, hmove, move_disk hmove, ?_⟩
  rintro ⟨sh'', hmove', hmoved, -⟩
  have hheld := (hmoved 3 2 h.transfer).held
  rw [move_disk hmove'] at hheld
  exact Transfer.not_held (d := s.disk) h.transfer hheld

end BebasOs.Shell
