/-
The `cd` command of the shell. `parseCommand` takes its line apart with `strtok`, follows the path in it from
directory to directory, and keeps the clusters it was in on a stack, which `cd ..` climbs without a look
at the disk.
-/
import BebasOs.Shell.Prompt
import BebasOs.Fat32.Refusal
import Mathlib.Computability.StateTransition

namespace BebasOs.Shell

open Bytes Search Fat32 Disk StateTransition

/-! ## Command lines -/

/-- A line of the shell: its buffer is cleared before it is read and is never filled to the end. -/
structure Line where
  bytes : Vector UInt8 256
  last : cell bytes 255 = 0

namespace Line

/-- The first `strtok` of `parseCommand`, at a space. -/
def command (line : Line) : Token 256 := strtok line.bytes none (some 0) [32]

/-- The second `strtok`, with `NULL`. -/
def argument (line : Line) : Token 256 := strtok line.command.buffer line.command.nextToken none [32]

/-- The buffer after both. -/
def buffer (line : Line) : Vector UInt8 256 := line.argument.buffer

/-- `strcmp(command, "cd") == 0`. -/
def isCd (line : Line) : Bool := strcmp ((line.command.start.map (stringAt line.buffer)).getD []) [99, 100] == 0

/-- `memcmp(com, "..", 2) == 0`, where `com` is the fourth byte of the line. -/
def climbs (line : Line) : Bool := memcmp #v[cell line.buffer 3, cell line.buffer 4] #v[46, 46] == 0

/-- There is no argument, or nothing but white space in it. -/
def blank (line : Line) : Bool :=
  match line.argument.start with
  | none => true
  | some p => strlen line.buffer p == strspn (stringAt line.buffer p) [32, 9, 10, 13]

end Line

/-- A line with the command `cd`. -/
structure CdLine extends Line where
  cd : toLine.isCd = true

/-! ## The shell -/

/-- The variables of the shell that `cd` uses, with the kernel under it: the stack of clusters and its
`idx`, the caller's `current_cluster_pos`, what its stack memory holds for `dirbuffer`, and what it has printed
in which colour. A store past the end of `clusters` is lost here. -/
structure State where
  idx : ℕ
  clusters : Vector UInt32 100
  parentCluster : UInt16
  dirbuffer : ℕ → UInt8
  machine : Machine
  printed : List (String × UInt32)

def State.puts (sh : State) (text : String) (color : UInt32) : State :=
  { sh with printed := sh.printed ++ [(text, color)] }

/-- The request of `read_directory_interface`. -/
def nameRequest (sh : State) (folderName : Vector UInt8 8) (cluster : UInt16) : FAT32DriverRequest where
  buf := sh.dirbuffer
  name := folderName
  ext := Vector.replicate 3 0
  parentClusterNumber := cluster.toUInt32
  bufferSize := 0

/-- What `read_directory_interface` makes of the answer: a directory without a name of its own is none. -/
def checkDirectory (sh : State) (result : ReadResult) : Int × State :=
  let sh := { sh with machine := result.machine, dirbuffer := result.buf }
  let mark := cell (cell (tableOf result.buf) 0).name 0
  if result.code = 0 ∧ (mark = 0xE5 ∨ mark = 0) then (-1, sh.puts "Directory not found!" 0x4)
  else (result.code, sh)

/-- `read_directory_interface`, which reads into `dirbuffer`. -/
def readDirectoryInterface (sh : State) (folderName : Vector UInt8 8) (cluster : UInt16) : Int × State :=
  checkDirectory sh (readDirectory sh.machine (nameRequest sh folderName cluster))

def splitter : UInt8 := 92

/-- The inner loop of `cd`: the bytes up to a splitter or the end of the string, 8 of them at most. -/
def currentLen (buffer : Vector UInt8 256) (progress : UInt8) : ℕ :=
  (first (fun l => cell buffer (progress.toNat + l) == splitter || strlen buffer (progress.toNat + l) == 0) 0 8).getD 8

/-- The name in a request for the component at an offset. -/
def folderName (buffer : Vector UInt8 256) (progress : UInt8) (len : ℕ) : Vector UInt8 8 :=
  Vector.ofFn fun i : Fin 8 => if i.1 < len then cell buffer (progress.toNat + i.1) else 0

/-- The variables of the outer loop, its `progress` apart. -/
structure Walk where
  shell : State
  retcode : Int
  currentCluster : UInt16
  directoryFound : Bool

/-- The outer loop of `cd`. It goes on by `progress` and the cluster alone, so a loop that has not ended after
2^24 rounds never does. -/
def walkLoop (buffer : Vector UInt8 256) : (fuel : ℕ) → (progress : UInt8) → Walk → Option Walk
  | 0, _, _ => none
  | fuel + 1, progress, w =>
    if ¬ (w.retcode = 0 ∧ 0 < strlen buffer progress.toNat) then some w
    else
      let len := currentLen buffer progress
      if len = 8 ∧ cell buffer (progress.toNat + 8) ≠ splitter then
        some { w with shell := w.shell.puts "File name too long!" 0x4 }
      else
        let reply := readDirectoryInterface w.shell (folderName buffer progress len) w.currentCluster
        let w := { w with retcode := reply.1, shell := reply.2 }
        if w.retcode ≠ 0 then some w
        else
          let entry := cell (tableOf w.shell.dirbuffer) 0
          let w := if cell entry.name 0 ≠ 0 then
              { w with currentCluster := entry.cluster.toUInt16, directoryFound := true }
            else w
          walkLoop buffer fuel (progress + UInt8.ofNat (len + 1)) w

/-- The branch of `parseCommand` for `cd`. -/
def changeDirectory (sh : State) (line : CdLine) : Option State :=
  if line.climbs then
    if sh.idx = 0 then some (sh.puts "Already in root" 0x4)
    else
      let sh := { sh with idx := sh.idx - 1 }.puts "Successfully changed directory." 0xF
      some { sh with parentCluster := (cell sh.clusters sh.idx).toUInt16 }
  else if line.blank then some sh
  else do
    let w ← walkLoop line.buffer (2 ^ 24) 3 ⟨sh, 0, sh.parentCluster, false⟩
    if !w.directoryFound then some (w.shell.puts "Directory not found!" 0x4)
    else if w.retcode = 0 then
      let sh := { w.shell with idx := w.shell.idx + 1 }
      let sh := { sh with clusters := store sh.clusters sh.idx w.currentCluster.toUInt32 }
      some ({ sh with parentCluster := w.currentCluster }.puts "Successfully changed directory." 0xF)
    else some w.shell

/-! ## Following a path -/

variable {d : Disk} {b : Vector UInt8 256} {sh sh' : State} {p q : UInt8} {c c' : UInt16} {name : Vector UInt8 8}

/-- The directory a name leads to: the cluster in slot 0 of what the name's entry points at, unless that
has no name there. -/
def entered (d : Disk) (name : Vector UInt8 8) (c : UInt16) : Option UInt16 :=
  (lookUp d c.toNat name).bind fun i =>
    let entry := d.slot (place (d.slot c.toNat i).cluster) 0
    if cell entry.name 0 = 0xE5 ∨ cell entry.name 0 = 0 then none else some entry.cluster.toUInt16

/-- The outer loop stops at an offset: the string ends there, or a component that is too long begins. -/
def ends (b : Vector UInt8 256) (p : UInt8) : Bool :=
  strlen b p.toNat == 0 || currentLen b p == 8 && cell b (p.toNat + 8) != splitter

/-- One component further: the next offset and the directory it leads to. -/
def advance (d : Disk) (b : Vector UInt8 256) (x : UInt8 × UInt16) : Option (UInt8 × UInt16) :=
  if ends b x.1 then none
  else (entered d (folderName b x.1 (currentLen b x.1)) x.2).map fun c =>
    (x.1 + UInt8.ofNat (currentLen b x.1 + 1), c)

/-- From directory `c` the path in the buffer leads to directory `c'`. -/
def Leads (d : Disk) (b : Vector UInt8 256) (c c' : UInt16) : Prop :=
  ends b 3 = false ∧ ∃ q, (q, c') ∈ eval (advance d b) (3, c) ∧ ends b q = true

theorem place_toUInt32 (c : UInt16) : place c.toUInt32 = c.toNat := by
  have := c.toNat_lt
  rw [place_of_lt (by rw [UInt16.toNat_toUInt32]; omega), UInt16.toNat_toUInt32]

theorem readDirectory_table {s : Machine} {r : FAT32DriverRequest} {i : ℕ}
    (h : s.disk.lookUp (place r.parentClusterNumber) r.name = some i) : (readDirectory s r).code = 0 ∧
      tableOf (readDirectory s r).buf = s.disk.table (place (s.disk.slot (place r.parentClusterNumber) i).cluster) := by
  obtain ⟨s', loads, -, hread⟩ := readDirectory_some h
  rw [hread, tableOf_blit]
  exact ⟨rfl, rfl⟩

/-- The stack of the shell and the disk under it are those of another state. -/
structure Unmoved (sh sh' : State) : Prop where
  idx : sh'.idx = sh.idx
  clusters : sh'.clusters = sh.clusters
  parentCluster : sh'.parentCluster = sh.parentCluster
  disk : sh'.machine.disk = sh.machine.disk

theorem Unmoved.refl (sh : State) : Unmoved sh sh := ⟨rfl, rfl, rfl, rfl⟩

theorem Unmoved.trans {sh'' : State} (h : Unmoved sh sh') (h' : Unmoved sh' sh'') : Unmoved sh sh'' :=
  ⟨h'.idx.trans h.idx, h'.clusters.trans h.clusters, h'.parentCluster.trans h.parentCluster, h'.disk.trans h.disk⟩

theorem unmoved_puts (sh : State) (text : String) (color : UInt32) : Unmoved sh (sh.puts text color) :=
  ⟨rfl, rfl, rfl, rfl⟩

section

variable {result : ReadResult} {t : FAT32DirectoryTable}

theorem checkDirectory_unmoved (h : result.machine.disk = sh.machine.disk) :
    Unmoved sh (checkDirectory sh result).2 := by
  unfold checkDirectory
  simp only
  split
  · exact ⟨rfl, rfl, rfl, h⟩
  · exact ⟨rfl, rfl, rfl, h⟩

theorem checkDirectory_error (h : result.code ≠ 0) : (checkDirectory sh result).1 ≠ 0 := by
  unfold checkDirectory
  rw [if_neg fun h' => h h'.1]
  exact h

theorem checkDirectory_unnamed (h : result.code = 0) (ht : tableOf result.buf = t)
    (hm : cell (cell t 0).name 0 = 0xE5 ∨ cell (cell t 0).name 0 = 0) : (checkDirectory sh result).1 ≠ 0 := by
  unfold checkDirectory
  rw [ht, if_pos ⟨h, hm⟩]
  exact (by decide : (-1 : Int) ≠ 0)

theorem checkDirectory_named (sh : State) (h : result.code = 0) (ht : tableOf result.buf = t)
    (hm : ¬ (cell (cell t 0).name 0 = 0xE5 ∨ cell (cell t 0).name 0 = 0)) :
    (checkDirectory sh result).1 = 0 ∧ tableOf (checkDirectory sh result).2.dirbuffer = t := by
  unfold checkDirectory
  rw [ht, if_neg fun h => hm h.2]
  exact ⟨h, ht⟩

end

theorem readDirectoryInterface_unmoved (sh : State) (name : Vector UInt8 8) (c : UInt16) :
    Unmoved sh (readDirectoryInterface sh name c).2 :=
  checkDirectory_unmoved (readDirectory_disk sh.machine (nameRequest sh name c))

theorem place_nameRequest (sh : State) (name : Vector UInt8 8) (c : UInt16) :
    place (nameRequest sh name c).parentClusterNumber = c.toNat := place_toUInt32 c

theorem entered_eq {i : ℕ} (h : lookUp d c.toNat name = some i) : entered d name c =
    if cell (d.slot (place (d.slot c.toNat i).cluster) 0).name 0 = 0xE5 ∨
      cell (d.slot (place (d.slot c.toNat i).cluster) 0).name 0 = 0 then none
    else some (d.slot (place (d.slot c.toNat i).cluster) 0).cluster.toUInt16 := by
  unfold entered
  rw [h, Option.bind_some]

/-- A component that leads nowhere is an error. -/
theorem readDirectoryInterface_none (hd : sh.machine.disk = d) (h : entered d name c = none) :
    (readDirectoryInterface sh name c).1 ≠ 0 := by
  subst hd
  have hplace := place_nameRequest sh name c
  rcases hl : lookUp sh.machine.disk c.toNat name with _ | i
  · refine checkDirectory_error ?_
    rw [readDirectory_none (by rw [hplace]; exact hl)]
    decide
  · rw [entered_eq hl, ite_eq_left_iff] at h
    obtain ⟨hcode, htable⟩ := readDirectory_table (s := sh.machine) (r := nameRequest sh name c) (i := i)
      (by rw [hplace]; exact hl)
    rw [hplace] at htable
    exact checkDirectory_unnamed hcode htable (by_contra fun hm => by cases h hm)

/-- A component that leads to a directory leaves that directory in the buffer. -/
theorem readDirectoryInterface_some (hd : sh.machine.disk = d) (h : entered d name c = some c') :
    (readDirectoryInterface sh name c).1 = 0 ∧
      cell (cell (tableOf (readDirectoryInterface sh name c).2.dirbuffer) 0).name 0 ≠ 0 ∧
      (cell (tableOf (readDirectoryInterface sh name c).2.dirbuffer) 0).cluster.toUInt16 = c' := by
  subst hd
  have hplace := place_nameRequest sh name c
  rcases hl : lookUp sh.machine.disk c.toNat name with _ | i
  · unfold entered at h
    rw [hl] at h
    cases h
  · rw [entered_eq hl, ite_eq_iff] at h
    obtain ⟨hmark, h⟩ := h.resolve_left fun h => by cases h.2
    obtain ⟨hcode, htable⟩ := readDirectory_table (s := sh.machine) (r := nameRequest sh name c) (i := i)
      (by rw [hplace]; exact hl)
    rw [hplace] at htable
    obtain ⟨hzero, hbuffer⟩ := checkDirectory_named sh hcode htable hmark
    unfold readDirectoryInterface
    rw [hbuffer]
    exact ⟨hzero, fun h => hmark (.inr h), Option.some.inj h⟩

/-! ## The loop over the components -/

section

variable {n : ℕ} {w w' : Walk}

/-- Where the path ends, the loop ends. -/
theorem walkLoop_end (n : ℕ) (h0 : w.retcode = 0) (he : ends b p = true) : ∃ w', walkLoop b (n + 1) p w = some w' ∧
    Unmoved w.shell w'.shell ∧ w'.retcode = 0 ∧ w'.currentCluster = w.currentCluster ∧
      w'.directoryFound = w.directoryFound := by
  unfold ends at he
  rw [Bool.or_eq_true, Bool.and_eq_true, beq_iff_eq, beq_iff_eq, bne_iff_ne] at he
  rw [walkLoop]
  by_cases hlen : strlen b p.toNat = 0
  · rw [if_pos (by omega)]
    exact ⟨w, rfl, .refl _, h0, rfl, rfl⟩
  · obtain ⟨h8, hsplit⟩ := he.resolve_left hlen
    rw [if_neg (not_not_intro ⟨h0, by omega⟩)]
    simp only
    rw [if_pos ⟨h8, hsplit⟩]
    exact ⟨_, rfl, unmoved_puts _ _ _, h0, rfl, rfl⟩

theorem walkLoop_round (n : ℕ) (h0 : w.retcode = 0) (he : ends b p = false) : walkLoop b (n + 1) p w =
    let reply := readDirectoryInterface w.shell (folderName b p (currentLen b p)) w.currentCluster
    let w := { w with retcode := reply.1, shell := reply.2 }
    if w.retcode ≠ 0 then some w
    else
      let entry := cell (tableOf w.shell.dirbuffer) 0
      walkLoop b n (p + UInt8.ofNat (currentLen b p + 1)) (if cell entry.name 0 ≠ 0 then
          { w with currentCluster := entry.cluster.toUInt16, directoryFound := true } else w) := by
  unfold ends at he
  rw [Bool.or_eq_false_iff, Bool.and_eq_false_iff, beq_eq_false_iff_ne, beq_eq_false_iff_ne, bne_eq_false_iff_eq] at he
  rw [walkLoop, if_neg (not_not_intro ⟨h0, Nat.pos_of_ne_zero he.1⟩)]
  simp only
  rw [if_neg fun h => he.2.elim (fun h8 => h8 h.1) h.2]

/-- A component that leads nowhere ends it with an error. -/
theorem walkLoop_fail (n : ℕ) (hd : w.shell.machine.disk = d) (h0 : w.retcode = 0) (he : ends b p = false)
    (h : entered d (folderName b p (currentLen b p)) w.currentCluster = none) :
    ∃ w', walkLoop b (n + 1) p w = some w' ∧ Unmoved w.shell w'.shell ∧ w'.retcode ≠ 0 := by
  have hcode := readDirectoryInterface_none hd h
  rw [walkLoop_round n h0 he]
  simp only
  rw [if_pos hcode]
  exact ⟨_, rfl, readDirectoryInterface_unmoved _ _ _, hcode⟩

/-- A component that leads to a directory takes it there. -/
theorem walkLoop_enter (n : ℕ) (hd : w.shell.machine.disk = d) (h0 : w.retcode = 0) (he : ends b p = false)
    (h : entered d (folderName b p (currentLen b p)) w.currentCluster = some c) :
    ∃ w', walkLoop b (n + 1) p w = walkLoop b n (p + UInt8.ofNat (currentLen b p + 1)) w' ∧
      Unmoved w.shell w'.shell ∧ w'.retcode = 0 ∧ w'.currentCluster = c ∧ w'.directoryFound = true := by
  obtain ⟨hcode, hname, hcluster⟩ := readDirectoryInterface_some hd h
  rw [walkLoop_round n h0 he]
  simp only
  rw [if_neg (not_not_intro hcode), if_pos hname]
  exact ⟨_, rfl, readDirectoryInterface_unmoved _ _ _, hcode, hcluster, rfl⟩

theorem advance_end (c : UInt16) (he : ends b p = true) : advance d b (p, c) = none := if_pos he

theorem advance_eq (he : ends b p = false) : advance d b (p, c) =
    (entered d (folderName b p (currentLen b p)) c).map fun c => (p + UInt8.ofNat (currentLen b p + 1), c) := by
  unfold advance
  rw [he, if_neg Bool.false_ne_true]

theorem mem_eval_none {x : UInt8 × UInt16} (h : advance d b x = none) : x ∈ eval (advance d b) x :=
  mem_eval.2 ⟨.refl, h⟩

theorem mem_eval_some {x y z : UInt8 × UInt16} (h : advance d b x = some y) (hz : z ∈ eval (advance d b) y) :
    z ∈ eval (advance d b) x :=
  have hr := mem_eval.1 hz
  mem_eval.2 ⟨hr.1.head h, hr.2⟩

/-- The loop goes where the path leads, as far as it leads. -/
theorem walkLoop_spec (hd : w.shell.machine.disk = d) (h0 : w.retcode = 0) (h : walkLoop b n p w = some w') :
    Unmoved w.shell w'.shell ∧ ∃ x, x ∈ eval (advance d b) (p, w.currentCluster) ∧
      (ends b x.1 = true → w'.retcode = 0 ∧ w'.currentCluster = x.2 ∧
        w'.directoryFound = (w.directoryFound || !ends b p)) ∧
      (ends b x.1 = false → w'.retcode ≠ 0) := by
  induction n generalizing p w with
  | zero => cases h
  | succ n ih =>
    by_cases he : ends b p = true
    · obtain ⟨u, hu, hmove, hcode, hcluster, hfound⟩ := walkLoop_end n h0 he
      obtain rfl := Option.some.inj (hu.symm.trans h)
      refine ⟨hmove, _, mem_eval_none (advance_end _ he), fun _ => ⟨hcode, hcluster, ?_⟩, fun h => ?_⟩
      · rw [hfound, he, Bool.not_true, Bool.or_false]
      · exact absurd he (Bool.eq_false_iff.1 h)
    · rw [Bool.not_eq_true] at he
      rcases hent : entered d (folderName b p (currentLen b p)) w.currentCluster with _ | c
      · obtain ⟨u, hu, hmove, hcode⟩ := walkLoop_fail n hd h0 he hent
        obtain rfl := Option.some.inj (hu.symm.trans h)
        refine ⟨hmove, _, mem_eval_none ?_, fun h => absurd h (Bool.eq_false_iff.1 he), fun _ => hcode⟩
        rw [advance_eq he, hent]
        rfl
      · -- the rest of the path is followed from the directory the component leads to
        obtain ⟨u, hu, hmove, hcode, hcluster, hfound⟩ := walkLoop_enter n hd h0 he hent
        obtain ⟨hmove', x, hx, hend, hfail⟩ := ih (hmove.disk.trans hd) hcode (hu.symm.trans h)
        rw [hcluster] at hx
        refine ⟨hmove.trans hmove', x, mem_eval_some ?_ hx, fun h => ?_, hfail⟩
        · rw [advance_eq he, hent]
          rfl
        · obtain ⟨h1, h2, h3⟩ := hend h
          refine ⟨h1, h2, ?_⟩
          rw [h3, hfound, he, Bool.true_or, Bool.not_false, Bool.or_true]

end

/-! ## One line -/

/-- The line asks for a directory, and its path leads there. -/
structure Moves (d : Disk) (line : CdLine) (c c' : UInt16) : Prop where
  climbs : line.climbs = false
  blank : line.blank = false
  leads : Leads d line.buffer c c'

/-- `sh'` is `sh` with one more cluster on the stack. -/
structure Pushed (sh : State) (c : UInt16) (sh' : State) : Prop where
  idx : sh'.idx = sh.idx + 1
  clusters : sh'.clusters = store sh.clusters (sh.idx + 1) c.toUInt32
  parentCluster : sh'.parentCluster = c
  disk : sh'.machine.disk = sh.machine.disk

/-- `sh'` is `sh` with the top of the stack taken off. -/
structure Popped (sh sh' : State) : Prop where
  idx : sh'.idx + 1 = sh.idx
  clusters : sh'.clusters = sh.clusters
  parentCluster : sh'.parentCluster = (cell sh.clusters sh'.idx).toUInt16
  disk : sh'.machine.disk = sh.machine.disk

/-- The three things a line can do. -/
inductive CdSpec (sh : State) (line : CdLine) : State → Prop
  | climbed {sh' : State} (hc : line.climbs = true) (h : Popped sh sh') : CdSpec sh line sh'
  | moved {c : UInt16} {sh' : State} (hm : Moves sh.machine.disk line sh.parentCluster c) (h : Pushed sh c sh') :
      CdSpec sh line sh'
  | stayed {sh' : State} (hc : line.climbs = true → sh.idx = 0)
      (hno : ∀ c, ¬ Moves sh.machine.disk line sh.parentCluster c) (h : Unmoved sh sh') : CdSpec sh line sh'

variable {line : CdLine}

/-- A line with a path moves when the path ends well and does not end at once. -/
theorem moves_iff {x : UInt8 × UInt16} (hc : line.climbs = false) (hb : line.blank = false)
    (hx : x ∈ eval (advance d line.buffer) (3, c)) :
    Moves d line c c' ↔ (ends line.buffer x.1 = true ∧ ends line.buffer 3 = false) ∧ c' = x.2 := by
  constructor
  · intro hm
    obtain ⟨h3, q, hq, he⟩ := hm.leads
    obtain rfl := Part.mem_unique hx hq
    exact ⟨⟨he, h3⟩, rfl⟩
  · rintro ⟨⟨he, h3⟩, rfl⟩
    exact ⟨hc, hb, h3, x.1, hx, he⟩

theorem cd_climb (hc : line.climbs = true) (h : changeDirectory sh line = some sh') : CdSpec sh line sh' := by
  unfold changeDirectory at h
  rw [if_pos hc] at h
  split at h
  · next h0 =>
    cases h
    exact .stayed (fun _ => h0) (fun c hm => absurd hc (Bool.eq_false_iff.1 hm.climbs)) (unmoved_puts _ _ _)
  · next h0 =>
    cases h
    exact .climbed hc ⟨Nat.sub_add_cancel (Nat.pos_of_ne_zero h0), rfl, rfl, rfl⟩

theorem cd_path (hc : line.climbs = false) (hb : line.blank = false) (h : changeDirectory sh line = some sh') :
    CdSpec sh line sh' := by
  unfold changeDirectory at h
  rw [hc, hb] at h
  obtain ⟨w, hw, h⟩ := Option.bind_eq_some_iff.1 h
  obtain ⟨hmove, x, hx, hend, hfail⟩ := walkLoop_spec (w := ⟨sh, 0, sh.parentCluster, false⟩) rfl rfl hw
  by_cases he : ends line.buffer x.1 = true ∧ ends line.buffer 3 = false
  · obtain ⟨hcode, hcluster, hfound⟩ := hend he.1
    rw [he.2] at hfound
    simp only [hfound, hcode, hcluster] at h
    cases h
    refine .moved ((moves_iff hc hb hx).2 ⟨he, rfl⟩) ⟨?_, ?_, rfl, hmove.disk⟩
    · rw [← hmove.idx]
      rfl
    · rw [← hmove.clusters, ← hmove.idx]
      rfl
  · refine .stayed (fun h => absurd h (Bool.eq_false_iff.1 hc)) (fun c' hm => he ((moves_iff hc hb hx).1 hm).1) ?_
    -- a walk that has come to a directory broke off after it
    have hbroken (hfound : w.directoryFound = true) : w.retcode ≠ 0 := by
      intro hcode
      have hq : ends line.buffer x.1 = true := by
        by_contra hq
        exact hfail (Bool.eq_false_iff.2 hq) hcode
      rw [(hend hq).2.2, Bool.false_or, Bool.not_eq_true'] at hfound
      exact he ⟨hq, hfound⟩
    split at h
    · cases h
      exact hmove.trans (unmoved_puts _ _ _)
    · next hfound =>
      rw [Bool.not_eq_true, Bool.not_eq_false'] at hfound
      rw [if_neg (hbroken hfound)] at h
      cases h
      exact hmove

theorem cd_spec (h : changeDirectory sh line = some sh') : CdSpec sh line sh' := by
  by_cases hc : line.climbs = true
  · exact cd_climb hc h
  · by_cases hb : line.blank = true
    · unfold changeDirectory at h
      rw [if_neg hc, if_pos hb] at h
      cases h
      exact .stayed (fun h => absurd h hc) (fun c hm => absurd hb (Bool.eq_false_iff.1 hm.blank)) (.refl _)
    · exact cd_path (Bool.eq_false_iff.2 hc) (Bool.eq_false_iff.2 hb) h

end BebasOs.Shell
