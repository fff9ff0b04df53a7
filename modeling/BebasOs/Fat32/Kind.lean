/-
Files and folders to a reader. `read` tests for the attribute 1, which no entry is ever given, and
`read_directory` tests nothing, so each of them answers 0 for the entries of the other.
-/
import BebasOs.Fat32.Reachable

namespace BebasOs.Fat32

open Bytes Search Disk

variable {π : Platform} {d : Disk} {s s' : Machine} {r : FAT32DriverRequest} {p i : ℕ}

/-- The answers a request under the name of the entry `e` asks for: 0 from the operation of its kind,
and 1 from the other, with the caller's buffer as it was. -/
def ToldApart (π : Platform) (s : Machine) (r : FAT32DriverRequest) (e : FAT32DirectoryEntry) : Prop :=
  if e.IsFolder then (readDirectory s r).code = 0 ∧ (read π s r).code = 1 ∧ (read π s r).buf = r.buf
  else (read π s r).code = 0 ∧ (readDirectory s r).code = 1 ∧ (readDirectory s r).buf = r.buf

/-- The entry in slot `i` of directory `p` is the only one under its name, and the request asks for it. -/
structure AsksFor (d : Disk) (r : FAT32DriverRequest) (p i : ℕ) : Prop where
  entry : d.LiveEntry p i
  parent : r.parent = p
  name : r.name = (d.slot p i).name
  ext : r.ext = (d.slot p i).ext
  size : r.bufferSize ≠ 0
  named : Named r
  only : ∀ j < 64, (d.slot p j).name = r.name → j = i

/-! ## The two look-ups -/

/-- The slot of directory `p` that `read_directory` finds under a name. -/
def Disk.lookUp (d : Disk) (p : ℕ) (name : Vector UInt8 8) : Option ℕ :=
  if name = dot then some 0 else first (fun i => decide ((d.slot p i).name = name)) 1 64

theorem loadParent_lookUp (s : Machine) (r : FAT32DriverRequest) :
    (if memcmp r.name dot = 0 then some 0
      else first (fun i => memcmp (cell (loadParent s r).memory.dirTableBuf i).name r.name == 0) 1 64) =
      s.disk.lookUp (place r.parentClusterNumber) r.name := by
  unfold Disk.lookUp
  simp only [memcmp_eq_zero, loadParent_dirTableBuf]
  refine ite_congr rfl (fun _ => rfl) fun _ => first_congr fun i _ _ => ?_
  rw [Bool.eq_iff_iff, beq_iff_eq, memcmp_eq_zero, decide_eq_true_iff]
  rfl

theorem readDirectory_none (h : s.disk.lookUp (place r.parentClusterNumber) r.name = none) :
    (readDirectory s r).code = 2 := by
  rw [← loadParent_lookUp] at h
  unfold readDirectory readDirectoryLoaded
  simp only [h]

/-- `read_directory` reads the cluster of the entry it finds. -/
theorem readDirectory_some (h : s.disk.lookUp (place r.parentClusterNumber) r.name = some i) :
    ∃ s' loads, s'.disk = s.disk ∧ readDirectory s r =
      ⟨0, blit r.buf 0 (s.disk.cluster (place (s.disk.slot (place r.parentClusterNumber) i).cluster)), loads, s'⟩ := by
  have hslot : cell (loadParent s r).memory.dirTableBuf i = s.disk.slot (place r.parentClusterNumber) i := by
    rw [loadParent_dirTableBuf]
    rfl
  rw [← loadParent_lookUp] at h
  refine ⟨loadParent s r, [⟨0, (s.disk.slot (place r.parentClusterNumber) i).cluster⟩], rfl, ?_⟩
  unfold readDirectory readDirectoryLoaded
  simp only [h, hslot]
  rw [← readClusters_eq]
  rfl

/-- It finds any entry by its name alone. -/
theorem readDirectory_code (hp : r.parent < 512) (hi : 1 ≤ i) (hi' : i < 64)
    (hn : (s.disk.slot r.parent i).name = r.name) : (readDirectory s r).code = 0 := by
  rcases hf : s.disk.lookUp (place r.parentClusterNumber) r.name with _ | j
  · rw [place_parent hp, Disk.lookUp, ite_eq_iff] at hf
    obtain ⟨-, hf⟩ | ⟨-, hf⟩ := hf
    · cases hf
    · exact absurd (decide_eq_true hn) (Bool.eq_false_iff.1 (first_eq_none.1 hf i hi hi'))
  · obtain ⟨s', loads, -, hread⟩ := readDirectory_some hf
    rw [hread]

/-- `read` answers 0 for every entry whose attribute is not 1. -/
theorem read_code (hp : r.parent < 512) (hr : Resolves s.disk r i)
    (ha : (s.disk.slot r.parent i).attributeByte ≠ 1) (hb : r.bufferSize ≠ 0) : (read π s r).code = 0 := by
  have ht := loadParent_dirTableBuf s r
  rw [place_parent hp] at ht
  have hr' : findEntry (s.disk.table r.parent) r.name r.ext = some i := hr
  have hne : ¬ ((cell (s.disk.table r.parent) i).attributeByte = 1 ∨ r.bufferSize = 0) := by
    rintro (h | h)
    · exact ha h
    · exact hb h
  unfold read readLoaded
  simp only [ht, hr', if_neg hne]
  split <;> rfl

namespace AsksFor

theorem resolves (h : AsksFor d r p i) : Resolves d r i := by
  refine first_eq_some.2 ⟨Nat.zero_le i, h.entry.hi, ?_, fun j _ hj => ?_⟩
  · rw [FAT32DirectoryEntry.hasName_iff, h.parent]
    exact ⟨h.name.symm, h.ext.symm⟩
  · rw [Bool.eq_false_iff, ne_eq, FAT32DirectoryEntry.hasName_iff, h.parent]
    rintro ⟨hn, -⟩
    exact absurd (h.only j (by have := h.entry.hi; omega) hn) (by omega)

theorem parent_lt (h : AsksFor d r p i) (hd : d.Sound) : r.parent < 512 := by
  rw [h.parent]
  exact (hd.liveDir_range h.entry.dir).2

theorem readDirectory_zero (h : AsksFor s.disk r p i) (hd : s.disk.Sound) : (readDirectory s r).code = 0 := by
  have hlo := h.entry.lo
  refine readDirectory_code (h.parent_lt hd) (by omega) h.entry.hi ?_
  rw [h.parent]
  exact h.name.symm

theorem read_folder (h : AsksFor s.disk r p i) (hd : s.disk.Sound) (hf : (s.disk.slot p i).IsFolder) :
    (read π s r).code = 0 := by
  refine read_code (h.parent_lt hd) h.resolves ?_ h.size
  rw [h.parent, show (s.disk.slot p i).attributeByte = attrSubdirectory from hf]
  decide

end AsksFor

/-! ## The sample disk -/

/-- A first entry of a new disk is the only one under its name. -/
theorem Stored.asksFor (h : Stored s r 2 3 s') (hf : Formatted π d s) (hp : r.parent = 2)
    (h0 : r.name ≠ rootName π) (h1 : r.name ≠ dotDot) (h2 : Named r) (hx : newExt r = r.ext)
    {q : FAT32DriverRequest} (hq : q.parent = 2) (hn : q.name = r.name) (he : q.ext = r.ext) (hb : q.bufferSize ≠ 0) :
    AsksFor s'.disk q 2 2 := by
  have hd := hf.wellFormed.toSound
  have hdir : s.disk.LiveDir r.parent := by
    rw [hp]
    exact s.disk.liveDir_root
  have hi := h.inserted hd.grounded hdir (by omega)
  rw [hp] at hi
  have hnew := hi.slot_new hd.grounded
  refine ⟨(hi.liveEntry_iff hd.grounded).2 (.inr ⟨rfl, rfl⟩), hq, ?_, ?_, hb, ?_, fun j _ hj => ?_⟩
  · rw [hnew, newEntry_name, hn]
  · rw [hnew, newEntry_ext, hx, he]
  · unfold Named
    rw [hn]
    exact h2
  · by_contra hne
    rw [hi.slot_eq hd.grounded s.disk.liveDir_root, if_neg (by omega), hn] at hj
    by_cases hj2 : j < 2
    · obtain rfl | rfl : j = 0 ∨ j = 1 := by omega
      · rw [hf.slot_zero] at hj
        exact h0 hj.symm
      · rw [hf.slot_one, dotDotEntry_name] at hj
        exact h1 hj.symm
    · rw [hf.slot_of_ge (by omega)] at hj
      exact h2 (hj.symm.trans (by decide))

/-- The sample disk holds the file `a` alone, and a request asks for it. -/
theorem exists_asksFor_fileA : ∃ s : Machine, s.disk.WellFormed ∧ AsksFor s.disk fileA 2 2 ∧
    ¬ (s.disk.slot 2 2).IsFolder := by
  obtain ⟨s₀, -, hf⟩ := createFat32_formatted zeroPlatform zeroDisk
  have hb : fileA.bufferSize ≠ 0 := by decide
  obtain ⟨s, -, hst⟩ := (fileA_accepted hf).write (π := zeroPlatform)
    hf.wellFormed.toSound.grounded s₀.disk.liveDir_root
  have hh := hst.holdsA hf
  exact ⟨s, hh.wellFormed, hst.asksFor hf rfl (name_ne_rootName (by decide)) (by decide) (by decide)
    (newExt_file hb) rfl rfl rfl hb, hh.file.file⟩

/-! ## Telling files and folders apart -/

/-- On no well-formed disk and for no entry do the two operations answer as its kind asks. -/
theorem not_toldApart (hd : s.disk.WellFormed) (h : AsksFor s.disk r p i) : ¬ ToldApart π s r (s.disk.slot p i) := by
  unfold ToldApart
  split
  · rename_i hf
    rintro ⟨-, h1, -⟩
    rw [h.read_folder hd.toSound hf] at h1
    exact absurd h1 (by decide)
  · rintro ⟨-, h1, -⟩
    rw [h.readDirectory_zero hd.toSound] at h1
    exact absurd h1 (by decide)

theorem not_toldApart_fileA : ∃ s : Machine, AsksFor s.disk fileA 2 2 ∧
    ¬ ToldApart zeroPlatform s fileA (s.disk.slot 2 2) := by
  obtain ⟨s, hd, h, -⟩ := exists_asksFor_fileA
  exact ⟨s, h, not_toldApart hd h⟩

/-- `read_directory` answers 0 for the file `a`. -/
theorem fileA_read_as_folder : ∃ s : Machine, s.disk.WellFormed ∧ AsksFor s.disk fileA 2 2 ∧
    ¬ (s.disk.slot 2 2).IsFolder ∧ (readDirectory s fileA).code = 0 ∧
    ¬ ToldApart zeroPlatform s fileA (s.disk.slot 2 2) := by
  obtain ⟨s, hd, h, hf⟩ := exists_asksFor_fileA
  have hcode := h.readDirectory_zero hd.toSound
  refine ⟨s, hd, h, hf, hcode, ?_⟩
  unfold ToldApart
  rw [if_neg hf]
  rintro ⟨-, h1, -⟩
  rw [hcode] at h1
  exact absurd h1 (by decide)

end BebasOs.Fat32
