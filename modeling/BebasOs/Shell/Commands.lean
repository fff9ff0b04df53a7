/-
The branches of `parseCommand`, and what the shell prints in them. The commands are told apart by their first token or
by the first bytes of the line; every other command is ignored in silence, but `exec`, which alone is said not to be
found.
-/
import BebasOs.Shell.Find
import BebasOs.Shell.Input
import BebasOs.Shell.Move
import BebasOs.Shell.PathLength

namespace BebasOs.Shell

open Bytes Search Fat32 Disk

/-! ## Branches -/

/-- The string `command`. -/
def Line.word (line : Line) : List UInt8 := (line.command.start.map (stringAt line.buffer)).getD []

/-- `memcmp(buffer, text, strlen(text)) == 0`. -/
def Line.begins (line : Line) (text : List UInt8) : Bool :=
  memcmpLoop ((List.range text.length).map (cell line.buffer)) text == 0

/-- The branches behind the one for `cd`. -/
inductive Branch where
  | ls
  | mkdir
  | cat
  | cp
  | rm
  | mv
  | find
  | ps
  /-- The branch for `exec`, which is empty. -/
  | exec
  | notFound
deriving DecidableEq

/-- The test for `exec` lacks its `== 0`. -/
def Line.branch (line : Line) : Branch :=
  if strcmp line.word [108, 115] = 0 then .ls
  else if line.begins [109, 107, 100, 105, 114] then .mkdir
  else if strcmp line.word [99, 97, 116] = 0 then .cat
  else if line.begins [99, 112] then .cp
  else if strcmp line.word [114, 109] = 0 then .rm
  else if strcmp line.word [109, 118] = 0 then .mv
  else if line.begins [102, 105, 110, 100] then .find
  else if strcmp line.word [112, 115] = 0 then .ps
  else if strcmp line.word [101, 120, 101, 99] ≠ 0 then .exec
  else .notFound

/-! ## Commands -/

/-- The texts that are printed for slot `i` of a table. -/
def listed (buf : ℕ → UInt8) (i : ℕ) : Option (List (List UInt8)) :=
  let entry := cell (tableOf buf) i
  if entry.userAttribute = 0 ∨ cell entry.name 0 = dotByte then some []
  else do
    let name ← nameRun buf i
    if entry.attributeByte &&& attrSubdirectory ≠ 0 then return [name, [32]]
    else if cell entry.ext 0 = 0 then return [name, entry.ext.toList, [32]]
    else return [name, [dotByte], entry.ext.toList, [32]]

/-- The first slot in use with a name. -/
def namedSlot (buf : ℕ → UInt8) (argument : List UInt8) : Option ℕ :=
  first (fun i => (cell (tableOf buf) i).userAttribute != 0 && (nameRun buf i).any (strcmp · argument == 0)) 0 64

/-- The branch for `ls`: the shell after it and the texts printed. `memory` is what the memory holds at `dtable`. -/
def ls (sh : State) (line : Line) (memory : ℕ → UInt8) : Option (State × List (List UInt8)) :=
  let result := readDirectory sh.machine ⟨memory, dot, Vector.replicate 3 0, sh.parentCluster.toUInt32, 0⟩
  let sh := { sh with machine := result.machine }
  if line.path ≠ [] then
    match namedSlot result.buf line.path with
    | none => some (sh.puts "Not found" 0x4, [])
    | some i => (nameRun result.buf i).map fun name => (sh, [name])
  else ((List.range 64).mapM (listed result.buf)).map fun texts => (sh, texts.flatten)

/-- The branch for `cat`; `cl_b` is zeroed. Two of its clusters are printed, and a newline. -/
def cat (π : Platform) (sh : State) (line : Line) : Option (State × List (List UInt8)) := do
  let request ← catRequest line sh.parentCluster fun _ => 0
  let result := read π sh.machine request
  let retcode := answered 0 result.code
  let sh := { sh with machine := result.machine }
  if retcode = 3 then return (sh.puts "The file size is too big to read!" 0x4, [])
  else if retcode = 2 then return (sh.puts "Can't find the file!" 0x4, [])
  else if retcode = 1 then return (sh.puts "Not a file!" 0x4, [])
  else if retcode = 0xFFFFFFFF then return (sh.puts "An error occured!" 0x4, [])
  else return (sh, [(List.range 2048).map result.buf, (List.range' 2048 2048).map result.buf, [newline]])

/-- The machine after `is_in_directory`. -/
def lookedIn (s : Machine) (parentCluster : UInt16) (name : List UInt8) (dirbuffer : ℕ → UInt8) : Machine :=
  if strcmp name [47] = 0 ∨ strcmp name [] = 0 then s
  else (readDirectory s ⟨dirbuffer, dot, Vector.replicate 3 0, parentCluster.toUInt32, 0⟩).machine

/-- The branch for `rm`. `memory` is what the memory holds at the table of `is_in_directory`, and from address 0 on. -/
def rm (π : Platform) (sh : State) (line : Line) (memory : ℕ → UInt8) : Option State :=
  if line.blank then some sh
  else do
    let argument := stringAt line.buffer (← line.argument.start)
    let request ← rmRequest sh.machine line sh.parentCluster memory memory
    let sh := { sh with machine := lookedIn sh.machine sh.parentCluster argument memory }
    match request with
    | none => return sh.puts "File or directory not found.\n" 0x4
    | some r => do
      let (retval, machine) ← delete π sh.machine r
      let sh := { sh with machine := machine }
      if retval = 0 then return sh.puts "File or directory removed successfully." 0xF
      else return sh.puts "Failed to remove file or directory." 0x4

/-- `parseCommand`, without the branches for `find` and `ps`: the shell after it and the texts printed besides its
messages. `memory` is what the memory holds where the code has not stored, and `u` the locals that `cp` and `mv`
read. -/
def parseCommand (π : Platform) (sh : State) (line : Line) (memory : ℕ → UInt8) (u : Locals) :
    Option (State × List (List UInt8)) :=
  if h : line.isCd = true then (changeDirectory sh ⟨line, h⟩).map fun sh => (sh, [])
  else
    match line.branch with
    | .ls => ls sh line memory
    | .mkdir => (mkdir π sh line memory).map fun sh => (sh, [])
    | .cat => cat π sh line
    | .cp => (copy π sh line u).map fun x => (x.1, [])
    | .rm => (rm π sh line memory).map fun sh => (sh, [])
    | .mv => (move π sh line u).map fun sh => (sh, [])
    | .find | .ps => none
    | .exec => some (sh, [])
    | .notFound => some (sh.puts "Command not found" 0x4, [])

/-! ## Lines of a command and a word -/

theorem Line.command_start (line : Line) : line.command.start = some 0 := by
  obtain ⟨-, hstart, -⟩ := strtok_spec line.bytes none (some 0) [32] rfl
  exact hstart

theorem begins_iff {line : Line} {text : List UInt8} :
    line.begins text = true ↔ (List.range text.length).map (cell line.buffer) = text := by
  unfold Line.begins
  rw [beq_iff_eq, memcmpLoop_eq_zero (by rw [List.length_map, List.length_range])]

variable {line : Line} {command argument rest : List UInt8}

theorem Words.word (hw : Words line command argument rest) (h0 : 0 ∉ command) : line.word = command := by
  unfold Line.word
  rw [line.command_start]
  refine stringAt_eq h0 fun i hi => ?_
  rw [Nat.zero_add, hw.cells]
  rcases Nat.lt_or_eq_of_le hi with hlt | rfl
  · exact List.getD_append _ _ _ _ hlt
  · rw [List.getD_append_right _ _ _ _ (Nat.le_refl _), Nat.sub_self, List.getD_eq_default _ _ (Nat.le_refl _)]
    rfl

theorem Words.isCd_iff (hw : Words line command argument rest) (h0 : 0 ∉ command) :
    line.isCd = true ↔ command = [99, 100] := by
  have hword : (line.command.start.map (stringAt line.buffer)).getD [] = command := hw.word h0
  unfold Line.isCd
  rw [hword, beq_iff_eq]
  exact ⟨fun h => strcmp_eq_zero h0 (by decide) h, fun h => h ▸ strcmp_self _⟩

theorem Words.begins_command (hw : Words line command argument rest) : line.begins command = true := by
  refine begins_iff.2 (List.ext_getElem (by rw [List.length_map, List.length_range]) fun i h1 h2 => ?_)
  rw [List.getElem_map, List.getElem_range, hw.cells, List.getD_append _ _ _ _ h2, List.getD_eq_getElem _ _ h2]

theorem Words.not_begins {a b : UInt8} {text : List UInt8} (hw : Words line (a :: command) argument rest) (h : a ≠ b) :
    line.begins (b :: text) = false := by
  refine Bool.eq_false_iff.2 fun hb => h ?_
  have hhead := congrArg List.head? (begins_iff.1 hb)
  rw [List.length_cons, List.range_succ_eq_map, List.map_cons, List.head?_cons, List.head?_cons, hw.cells] at hhead
  exact Option.some.inj hhead

theorem Words.branch_mkdir (hw : Words line [109, 107, 100, 105, 114] argument rest) : line.branch = .mkdir := by
  unfold Line.branch
  rw [hw.word (by decide), if_neg (by decide), if_pos hw.begins_command]

theorem Words.branch_cat (hw : Words line [99, 97, 116] argument rest) : line.branch = .cat := by
  unfold Line.branch
  rw [hw.word (by decide), if_neg (by decide), hw.not_begins (by decide), if_neg Bool.false_ne_true, if_pos (by decide)]

theorem Words.branch_rm (hw : Words line [114, 109] argument rest) : line.branch = .rm := by
  unfold Line.branch
  rw [hw.word (by decide), if_neg (by decide), hw.not_begins (by decide), if_neg Bool.false_ne_true, if_neg (by decide),
    hw.not_begins (by decide), if_neg Bool.false_ne_true, if_pos (by decide)]

end BebasOs.Shell
