/-
The buffers of the prompt's path, against the depth of the tree. `mkdir` makes folders as deep as there are clusters
for, and the path is written into 128 bytes whatever its length: it stays inside exactly up to 127 bytes.
-/
import BebasOs.Shell.DirectoryPath
import BebasOs.Shell.Requests

namespace BebasOs.Shell

open Bytes Search Fat32 Disk Relation

/-! ## The command -/

/-- The request of `mkdir`: up to eight bytes of the string behind the command. `buf` is what the memory holds from
address 0 on. -/
def mkdirRequest (line : Line) (parentCluster : UInt16) (buf : ℕ → UInt8) : FAT32DriverRequest where
  buf := buf
  name := nameOf ((stringAt line.buffer 6).take 8)
  ext := Vector.replicate 3 0
  parentClusterNumber := parentCluster.toUInt32
  bufferSize := 0

/-- The branch of `parseCommand` for `mkdir`. -/
def mkdir (π : Platform) (sh : State) (line : Line) (buf : ℕ → UInt8) : Option State := do
  let (code, machine) ← write π sh.machine (mkdirRequest line sh.parentCluster buf)
  let sh := { sh with machine := machine }
  if code = 0 then return sh.puts "Folder created successfully" 0x2
  else if code = 1 then return sh.puts "Folder already exists" 0x4
  else if code = 2 then return sh.puts "Invalid parent cluster" 0x4
  else return sh.puts "Unknown error" 0x4

/-- A `mkdir` in some directory of the tree. -/
def Mkdir (π : Platform) (s s' : Machine) : Prop :=
  ∃ sh line buf sh', sh.machine = s ∧ s.disk.LiveDir sh.parentCluster.toNat ∧ mkdir π sh line buf = some sh' ∧
    sh'.machine = s'

variable {π : Platform} {d : Disk} {s s' s₀ : Machine} {p k : ℕ} {ns : List (List UInt8)}

/-- The command is one write, whatever it says afterwards. -/
theorem mkdir_write {sh sh' : State} {line : Line} {buf : ℕ → UInt8} (h : mkdir π sh line buf = some sh') :
    ∃ code, write π sh.machine (mkdirRequest line sh.parentCluster buf) = some (code, sh'.machine) := by
  unfold mkdir at h
  generalize hw : write π sh.machine (mkdirRequest line sh.parentCluster buf) = result at h
  rcases result with _ | ⟨code, machine⟩
  · cases h
  · refine ⟨code, ?_⟩
    simp only [Option.bind_eq_bind, Option.bind_some] at h
    split at h
    · cases h
      rfl
    split at h
    · cases h
      rfl
    split at h
    · cases h
      rfl
    · cases h
      rfl

theorem mkdir_created {sh : State} {line : Line} {buf : ℕ → UInt8}
    (h : write π sh.machine (mkdirRequest line sh.parentCluster buf) = some (0, s')) :
    mkdir π sh line buf = some ({ sh with machine := s' }.puts "Folder created successfully" 0x2) := by
  unfold mkdir
  rw [h]
  rfl

theorem Mkdir.step (h : Mkdir π s s') : Step π (fun _ q => ∃ r, q = .write r) s s' := by
  obtain ⟨sh, line, buf, sh', rfl, -, hmk, rfl⟩ := h
  obtain ⟨code, hw⟩ := mkdir_write hmk
  exact ⟨.write _, code, ⟨_, rfl⟩, hw⟩

/-! ## Room in the buffers -/

/-- In every tree that `mkdir` builds on a new disk and every directory of it: the path is printed within the buffers
exactly if its names and separators are at most 127 bytes. -/
theorem run_prints_inside_iff (h₀ : createFat32 π (powerOn d) = some s₀) (h : ReflTransGen (Mkdir π) s₀ s)
    (buff : ℕ → UInt8) (currentDir : Vector UInt8 128) (c : UInt16) (hc : s.disk.LiveDir c.toNat) :
    (∃ ns, s.disk.PathTo ns c.toNat) ∧ ∀ ns, s.disk.PathTo ns c.toNat →
      ((printDirTree s buff c.toUInt32 currentDir).isSome ↔ (ns.map fun name => name.length + 1).sum ≤ 127) := by
  have hd : Titled π s.disk := run_titled h₀ (h.lift id fun _ _ hstep => hstep.step)
  refine ⟨exists_pathTo hc, fun ns hpath => ?_⟩
  have hto : c.toUInt32.toNat = c.toNat := UInt16.toNat_toUInt32 c
  rw [← hto] at hpath
  rw [← length_separated]
  by_cases hne : ns = []
  · subst hne
    obtain ⟨s', -, hprint⟩ := printDirTree_root hd rfl hpath.eq_root buff currentDir (Nat.le_refl 128)
    rw [hprint]
    exact iff_of_true rfl (by decide)
  · obtain ⟨s', -, hprint⟩ := printDirTree_path hd rfl hpath hne buff currentDir (Nat.le_refl 128)
    rw [hprint]
    split
    · exact iff_of_true rfl (by omega)
    · exact iff_of_false (by simp) (by omega)

/-! ## A deep tree -/

/-- The letter of the folder on a level: `a` or `b`, so that none is named like the one above. -/
def levelLetter (k : ℕ) : UInt8 := if k % 2 = 0 then 97 else 98

/-- The line `mkdir a` or `mkdir b`. -/
def levelLine (k : ℕ) : Line := lineWith ([109, 107, 100, 105, 114] ++ 32 :: ([levelLetter k] ++ [])) (by simp)

def levelRequest (k p : ℕ) : FAT32DriverRequest := mkdirRequest (levelLine k) (UInt16.ofNat p) fun _ => 0

theorem levelRequest_name (k p : ℕ) : (levelRequest k p).name = nameOf [levelLetter k] := by
  have hletter : levelLetter k ≠ 0 ∧ levelLetter k ≠ 32 := by
    unfold levelLetter
    split <;> decide
  have hw : Words (levelLine k) [109, 107, 100, 105, 114] [levelLetter k] [] :=
    words_lineWith _ (by simp) (by simpa using hletter) (.inl rfl)
  have htext : stringAt (levelLine k).buffer 6 = [levelLetter k] :=
    hw.stringAt_argument (by simpa using hletter.1.symm)
  show nameOf ((stringAt (levelLine k).buffer 6).take 8) = _
  rw [htext]
  rfl

/-- Folders in folders, `k` of them: the last is in cluster `p` and empty. -/
structure Deep (π : Platform) (d : Disk) (k p : ℕ) : Prop where
  sound : d.Sound
  titled : Titled π d
  path : d.PathTo ((List.range k).map fun i => [levelLetter i]) p
  self : ∀ j, k = j + 1 → (d.slot p 0).name = nameOf [levelLetter j]
  parent : (d.slot p 1).name = dotDot
  empty : ∀ i, 2 ≤ i → d.slot p i = default
  room : (freeClusters d.fat).length + k = 509

theorem Deep.toNat_ofNat (h : Deep π d k p) : (UInt16.ofNat p).toNat = p := by
  have hrange := h.sound.grounded.range p h.path.liveDir
  rw [UInt16.toNat_ofNat']
  omega

theorem deep_of_formatted (h : Formatted π d s) : Deep π s.disk 0 2 where
  sound := h.wellFormed.toSound
  titled := h.titled
  path := .root
  self j hj := by omega
  parent := by
    rw [h.slot_one, dotDotEntry_name]
  empty i hi := h.slot_of_ge hi
  room := by
    rw [h.freeClusters, List.length_range']

theorem levelLetter_ne (k : ℕ) : levelLetter k ≠ levelLetter (k + 1) ∧ levelLetter k ≠ 0 ∧ levelLetter k ≠ 46 ∧
    levelLetter k ≠ 114 := by
  unfold levelLetter
  rcases Nat.mod_two_eq_zero_or_one k with h | h
  · rw [if_pos h, if_neg (by omega)]
    decide
  · rw [if_neg (by omega), if_pos (by omega)]
    decide

theorem nameOf_letter_ne {x : UInt8} {v : Vector UInt8 8} (h : x ≠ cell v 0) : nameOf [x] ≠ v := by
  rintro rfl
  refine h ?_
  rw [cell_nameOf (by decide)]
  rfl

theorem nameText_letter {x : UInt8} (h : x ≠ 0) : nameText (nameOf [x]) = [x] := by
  have htext : (nameOf [x]).toList = x :: List.replicate 7 0 := rfl
  unfold nameText
  rw [htext, List.takeWhile_cons_of_pos (by simpa using h)]
  rfl

/-- The deepest folder takes one more. -/
theorem Deep.accepted (h : Deep π s.disk k p) (hk : k < 509) {r : FAT32DriverRequest} (hp : r.parent = p)
    (hname : r.name = nameOf [levelLetter k]) (hsize : r.bufferSize = 0) : ∃ j c, Accepted s r j c := by
  obtain ⟨hne, h0, hdot, hr⟩ := levelLetter_ne k
  refine exists_accepted (first_eq_none.2 fun i _ _ => ?_) ?_ ⟨2, by omega, by omega, ?_⟩
  · rw [hp, Bool.eq_false_iff, ne_eq, FAT32DirectoryEntry.hasName_iff, hname]
    rintro ⟨hi, -⟩
    by_cases h2 : i < 2
    · obtain rfl | rfl : i = 0 ∨ i = 1 := by omega
      · rcases k with _ | k
        · have hroot := h.path.eq_root
          subst hroot
          exact nameOf_letter_ne (v := rootName π) (by
            rw [cell_of_lt _ (by decide), rootName_getElem]
            exact hr) (hi.symm.trans h.titled.rootTitle)
        · refine nameOf_letter_ne (x := levelLetter (k + 1))
            (v := nameOf [levelLetter k]) ?_ (hi.symm.trans (h.self k rfl))
          rw [cell_nameOf (by decide)]
          exact (levelLetter_ne k).1.symm
      · exact nameOf_letter_ne (v := dotDot) hdot (hi.symm.trans h.parent)
    · have hi' : (s.disk.slot p i).name = nameOf [levelLetter k] := hi
      rw [h.empty i (by omega)] at hi'
      exact nameOf_letter_ne (v := Vector.replicate 8 0) h0 (hi'.symm.trans (by decide))
  · have hroom := h.room
    unfold needed
    rw [if_pos hsize]
    omega
  · rw [hp, h.empty 2 (Nat.le_refl 2)]
    exact FAT32DirectoryEntry.not_live_default

theorem Deep.next (h : Deep π s.disk k p) (hk : k < 509) : ∃ s' c, Mkdir π s s' ∧ Deep π s'.disk (k + 1) c := by
  have hd := h.sound.grounded
  have hlive := h.path.liveDir
  have hp16 := h.toNat_ofNat
  have hp : (levelRequest k p).parent = p := by
    show (UInt16.ofNat p).toUInt32.toNat = p
    rw [UInt16.toNat_toUInt32, hp16]
  have hname := levelRequest_name k p
  have hplaced : Placed s.disk (levelRequest k p) := by
    rw [← hp] at hlive
    refine ⟨hlive, ?_, fun _ => rfl, 2, by omega, by omega, ?_⟩
    · unfold Named
      rw [hname]
      exact nameOf_letter_ne (v := Vector.replicate 8 0) (levelLetter_ne k).2.1
    · rw [hp, h.empty 2 (Nat.le_refl 2)]
      exact FAT32DirectoryEntry.not_live_default
  obtain ⟨j, c, ha⟩ := h.accepted hk hp hname rfl
  obtain ⟨s', hw, hst⟩ := ha.write (π := π) hd hplaced.live
  have hi := hst.inserted_of_placed h.sound hplaced
  have hfree := hst.freeClusters_length h.sound hplaced
  have hfolder : (newEntry (levelRequest k p) c).IsFolder := (newEntry_isFolder _ _).2 rfl
  have hcluster : (newEntry (levelRequest k p) c).cluster.toNat = c := newEntry_cluster _ hst.cluster_range.2.1
  have hself := hi.slot_folder_zero hfolder
  have hparent := hi.slot_folder_one hfolder
  have hempty (i : ℕ) (h2 : 2 ≤ i) := hi.slot_folder hfolder h2
  rw [hcluster] at hself hparent hempty
  have hnew := hi.slot_new hd
  rw [hp] at hnew
  refine ⟨s', c, ⟨⟨0, Vector.replicate 100 0, UInt16.ofNat p, fun _ => 0, s, []⟩, levelLine k, fun _ => 0,
    _, rfl, ?_, mkdir_created hw, rfl⟩, hi.sound h.sound, h.titled.inserted hi, ?_, fun i hi' => ?_, ?_, hempty, ?_⟩
  · show s.disk.LiveDir (UInt16.ofNat p).toNat
    rw [hp16]
    exact hlive
  · have hpath := (h.path.inserted hd hi).folder (i := j) hi.lo hi.hi (by
      rw [hnew]
      exact hi.live) (by
      rw [hnew]
      exact hfolder)
    rw [hnew, hcluster, newEntry_name, hname, nameText_letter (levelLetter_ne k).2.1] at hpath
    rw [List.range_succ, List.map_append]
    exact hpath
  · obtain rfl : k = i := by omega
    rw [hself, newEntry_name, hname]
  · rw [hparent, dotDotEntry_name]
  · have hneeded : needed (levelRequest k p) = 1 := needed_of_folder rfl
    have hroom := h.room
    omega

/-- Nothing but the disk limits the depth. -/
theorem exists_deep (h₀ : createFat32 π (powerOn d) = some s₀) (hk : k ≤ 509) :
    ∃ s p, ReflTransGen (Mkdir π) s₀ s ∧ Deep π s.disk k p := by
  induction k with
  | zero => exact ⟨s₀, 2, .refl, deep_of_formatted (formatted_of_create h₀)⟩
  | succ k ih =>
    obtain ⟨s, p, h, hdeep⟩ := ih (by omega)
    obtain ⟨s', c, hstep, hnext⟩ := hdeep.next (by omega)
    exact ⟨s', c, h.tail hstep, hnext⟩

/-- After `mkdir a` the path of the new folder is printed inside the buffers. -/
theorem run_prints_inside_folderA : ∃ s₀ s c, createFat32 zeroPlatform (powerOn zeroDisk) = some s₀ ∧
    ReflTransGen (Mkdir zeroPlatform) s₀ s ∧ s.disk.PathTo [[97]] c.toNat ∧
      (printDirTree s (fun _ => 0) (c : UInt16).toUInt32 (Vector.replicate 128 0)).isSome := by
  obtain ⟨s₀, h₀, -⟩ := createFat32_formatted zeroPlatform zeroDisk
  obtain ⟨s, p, h, hdeep⟩ := exists_deep h₀ (k := 1) (by decide)
  have hpath : s.disk.PathTo [[97]] (UInt16.ofNat p).toNat := by
    rw [hdeep.toNat_ofNat]
    exact hdeep.path
  have hiff := (run_prints_inside_iff h₀ h (fun _ => 0) (Vector.replicate 128 0) (UInt16.ofNat p) hpath.liveDir).2
  exact ⟨s₀, s, UInt16.ofNat p, h₀, h, hpath, (hiff _ hpath).2 (by decide)⟩

/-- With 64 folders, each in the one before, the path is written past the buffers. -/
theorem prints_outside_depth64 : ∃ s₀ s c, createFat32 zeroPlatform (powerOn zeroDisk) = some s₀ ∧
    ReflTransGen (Mkdir zeroPlatform) s₀ s ∧ s.disk.LiveDir c.toNat ∧
      printDirTree s (fun _ => 0) (c : UInt16).toUInt32 (Vector.replicate 128 0) = none := by
  obtain ⟨s₀, h₀, -⟩ := createFat32_formatted zeroPlatform zeroDisk
  obtain ⟨s, p, h, hdeep⟩ := exists_deep h₀ (k := 64) (by decide)
  have hpath : s.disk.PathTo ((List.range 64).map fun i => [levelLetter i]) (UInt16.ofNat p).toUInt32.toNat := by
    rw [UInt16.toNat_toUInt32, hdeep.toNat_ofNat]
    exact hdeep.path
  have hlen : (separated ((List.range 64).map fun i => [levelLetter i])).length = 128 := by
    rw [length_separated]
    decide
  obtain ⟨s', -, hprint⟩ := printDirTree_path hdeep.titled rfl hpath (by decide) (fun _ => 0) (Vector.replicate 128 0)
    (Nat.le_refl 128)
  rw [hlen, if_neg (by decide)] at hprint
  exact ⟨s₀, s, UInt16.ofNat p, h₀, h, by rw [UInt16.toNat_toUInt32] at hpath; exact hpath.liveDir, hprint⟩

end BebasOs.Shell
