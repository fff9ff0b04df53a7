/-
Names that are taken. `write` compares a name with all 64 slots of the directory, the special ones
included: slot 0 of a directory carries the name the directory was made under, and slot 1 the name `..`,
so a child of that name is answered as if it were there. A folder is entered without its extension.
-/
import BebasOs.Fat32.AnyParent

namespace BebasOs.Fat32

open Bytes Search Disk Relation

variable {π : Platform} {s s' : Machine} {r : FAT32DriverRequest} {d d' : Disk} {j c : ℕ}

/-! ## Exact detection -/

/-- The directory of a request lists a live entry with its name and extension. -/
def HasChild (d : Disk) (r : FAT32DriverRequest) : Prop :=
  ∃ i, 2 ≤ i ∧ i < 64 ∧ (d.slot r.parent i).Live ∧ (d.slot r.parent i).name = r.name ∧ (d.slot r.parent i).ext = r.ext

/-- A free slot of `d` holds on `d'` a live entry with the name and extension of the request. -/
def Creates (d d' : Disk) (r : FAT32DriverRequest) : Prop :=
  ∃ i, 2 ≤ i ∧ i < 64 ∧ ¬ (d.slot r.parent i).Live ∧ (d'.slot r.parent i).Live ∧
    (d'.slot r.parent i).name = r.name ∧ (d'.slot r.parent i).ext = r.ext

/-- A request is answered with 1 exactly when its name is taken, and is served otherwise. -/
def Detects (π : Platform) (s : Machine) (r : FAT32DriverRequest) : Prop :=
  ∃ code s', write π s r = some (code, s') ∧ (code = 1 ↔ HasChild s.disk r) ∧
    (¬ HasChild s.disk r → code = 0 ∧ Creates s.disk s'.disk r)

/-- Slot 0 or slot 1 of the directory carries the name and the extension of the request. -/
def NamesSpecial (d : Disk) (r : FAT32DriverRequest) : Prop :=
  ∃ i < 2, (d.slot r.parent i).name = r.name ∧ (d.slot r.parent i).ext = r.ext

/-- The name is taken by a child, or it is that of neither special slot and can be entered as it is. -/
def Distinct (d : Disk) (r : FAT32DriverRequest) : Prop :=
  HasChild d r ∨ ¬ NamesSpecial d r ∧ (r.bufferSize = 0 → r.ext = Vector.replicate 3 0)

/-! ## What the comparison finds -/

/-- A slot with the name of the request is that of a child or a special one: unused slots have no name. -/
theorem findEntry_ne_none_iff (hd : d.Grounded) (hp : d.LiveDir r.parent) (hn : Named r) :
    findEntry (d.table r.parent) r.name r.ext ≠ none ↔ HasChild d r ∨ NamesSpecial d r := by
  constructor
  · intro h
    obtain ⟨i, hi⟩ := Option.ne_none_iff_exists'.1 h
    obtain ⟨hlt, hname, hext⟩ := Resolves.spec (d := d) (r := r) hi
    rcases Nat.lt_or_ge i 2 with h2 | h2
    · exact .inr ⟨i, h2, hname, hext⟩
    · refine .inl ⟨i, h2, hlt, ?_, hname, hext⟩
      by_contra hlive
      rw [show d.slot r.parent i = default from (hd.shape _ hp).unused i hlt hlive] at hname
      exact hn (hname.symm.trans (by decide))
  · intro h hnone
    have hno := first_eq_none.1 hnone
    obtain ⟨i, hlt, hname, hext⟩ : ∃ i < 64, (d.slot r.parent i).name = r.name ∧ (d.slot r.parent i).ext = r.ext := by
      rcases h with ⟨i, -, hlt, -, h⟩ | ⟨i, hlt, h⟩
      · exact ⟨i, hlt, h⟩
      · exact ⟨i, by omega, h⟩
    have := hno i (Nat.zero_le i) hlt
    rw [Bool.eq_false_iff, ne_eq, FAT32DirectoryEntry.hasName_iff] at this
    exact this ⟨hname, hext⟩

/-- A name that is found is answered with 1, whoever carries it. -/
theorem write_found (hd : s.disk.Grounded) (hp : s.disk.LiveDir r.parent)
    (hroom : needed r ≤ (freeClusters s.disk.fat).length)
    (hf : findEntry (s.disk.table r.parent) r.name r.ext ≠ none) : ∃ s', write π s r = some (1, s') := by
  obtain ⟨i, hi⟩ := Option.ne_none_iff_exists'.1 hf
  have hfree : first (isEmptyEntry s.disk.fat) 3 512 ≠ none := fun hc => by
    have := needed_pos r
    rw [freeClusters_eq_nil.2 hc, List.length_nil] at hroom
    omega
  obtain ⟨c, hc⟩ := Option.ne_none_iff_exists'.1 hfree
  rw [write_eq (hd.opens hp).hi]
  exact ⟨_, writeLoaded_matched (reloaded_fatTable s r) (reloaded_dirTableBuf s r) hc (hd.shape _ hp).self hi⟩

/-- A request that is served creates its entry, but for the extension of a folder. -/
theorem Stored.creates_iff (h : Stored s r j c s') (hd : s.disk.Grounded) (hp : s.disk.LiveDir r.parent) (hj : j < 64) :
    Creates s.disk s'.disk r ↔ (r.bufferSize = 0 → r.ext = Vector.replicate 3 0) := by
  have hi := h.inserted hd hp hj
  have hext : newExt r = r.ext ↔ (r.bufferSize = 0 → r.ext = Vector.replicate 3 0) := by
    unfold newExt
    split
    · rename_i hb
      exact ⟨fun h _ => h.symm, fun h => (h hb).symm⟩
    · rename_i hb
      exact iff_of_true rfl fun h => absurd h hb
  rw [← hext]
  constructor
  · rintro ⟨i, -, -, hfree, hlive, -, hx⟩
    rw [hi.slot_eq hd hp] at hlive hx
    split at hlive
    · rw [if_pos ‹_›, newEntry_ext] at hx
      exact hx
    · exact absurd hlive hfree
  · intro hx
    have hslot := hi.slot_new hd
    refine ⟨j, hi.lo, hj, hi.free, ?_⟩
    rw [hslot]
    exact ⟨newEntry_live r c, newEntry_name r c, (newEntry_ext r c).trans hx⟩

/-- On sound directories. -/
theorem detects_iff_of_grounded (hd : s.disk.Grounded) (hn : Named r) (hp : s.disk.LiveDir r.parent)
    (hs : s.disk.HasFreeSlot r.parent) (hroom : needed r ≤ (freeClusters s.disk.fat).length) :
    Detects π s r ↔ Distinct s.disk r := by
  have hfound := findEntry_ne_none_iff hd hp hn
  by_cases hf : findEntry (s.disk.table r.parent) r.name r.ext = none
  · -- nobody has the name, so the request is served
    obtain ⟨hchild, hspecial⟩ := not_or.1 (mt hfound.2 (not_not_intro hf))
    obtain ⟨j, c, hacc⟩ := exists_accepted hf hroom hs
    obtain ⟨s', hw, hst⟩ := hacc.write (π := π) hd hp
    have hcreates := hst.creates_iff hd hp (hacc.slot_hi_of_free hs)
    constructor
    · rintro ⟨code, t, ht, -, hmade⟩
      rw [hw] at ht
      cases ht
      exact .inr ⟨hspecial, hcreates.1 (hmade hchild).2⟩
    · intro h
      obtain ⟨-, hext⟩ := h.resolve_left hchild
      exact ⟨0, s', hw, iff_of_false (by decide) hchild, fun _ => ⟨rfl, hcreates.2 hext⟩⟩
  · obtain ⟨s', hw⟩ := write_found (π := π) hd hp hroom hf
    constructor
    · rintro ⟨code, t, ht, hone, -⟩
      rw [hw] at ht
      cases ht
      exact .inl (hone.1 rfl)
    · intro h
      have hchild : HasChild s.disk r := by
        rcases h with h | ⟨h, -⟩
        · exact h
        · exact (hfound.1 hf).resolve_right h
      exact ⟨1, s', hw, iff_of_true rfl hchild, fun h => absurd hchild h⟩

/-- After any writes on a new disk, a request with a name, for a live directory with a free slot and with
enough free clusters, is answered with 1 exactly when a child has its name, and served otherwise, if and
only if a child has the name or neither special slot has it and the request is no folder with an extension. -/
theorem detects_iff {s₀ : Machine} (h₀ : createFat32 π (powerOn d) = some s₀)
    (h : ReflTransGen (Step π fun _ q => ∃ r, q = .write r) s₀ s) (hn : Named r) (hp : s.disk.LiveDir r.parent)
    (hs : s.disk.HasFreeSlot r.parent) (hroom : needed r ≤ (freeClusters s.disk.fat).length) :
    Detects π s r ↔ Distinct s.disk r :=
  detects_iff_of_grounded (run_grounded (formatted_of_create h₀) h) hn hp hs hroom

/-- The file `a` on a new disk. -/
theorem detects_fileA : ∃ s, Detects zeroPlatform s fileA := by
  obtain ⟨s, h₀, hf⟩ := createFat32_formatted zeroPlatform zeroDisk
  have hp : s.disk.LiveDir fileA.parent := s.disk.liveDir_root
  refine ⟨s, (detects_iff (r := fileA) h₀ .refl (by decide) hp hf.hasFreeSlot ?_).2 (.inr ⟨?_, by decide⟩)⟩
  · rw [hf.freeClusters, List.length_range']
    decide
  · intro h
    exact (findEntry_ne_none_iff hf.wellFormed.toSound.grounded hp (by decide)).2 (.inr h) (fileA_accepted hf).unmatched

/-! ## A folder named like its parent -/

/-- The sample folder `b` in the sample folder `b`. -/
def folderInB : FAT32DriverRequest := { folderB with parentClusterNumber := 3 }

/-- In a new folder `b` a folder `b` is answered with 1, although the folder is empty. -/
theorem child_named_like_parent : ¬ ∀ (s₀ s : Machine) (r : FAT32DriverRequest),
    createFat32 zeroPlatform (powerOn zeroDisk) = some s₀ →
    ReflTransGen (Step zeroPlatform fun _ q => ∃ r, q = .write r) s₀ s → Named r → s.disk.LiveDir r.parent →
    s.disk.HasFreeSlot r.parent → needed r ≤ (freeClusters s.disk.fat).length → Detects zeroPlatform s r := by
  obtain ⟨s₀, s, h₀, -, hw, hb⟩ := exists_holdsFolder
  have hg := hb.wellFormed.toSound.grounded
  have hspecial : NamesSpecial s.disk folderInB := by
    have hself : s.disk.slot folderInB.parent 0 = newEntry folderB 3 := hb.self
    refine ⟨0, by omega, ?_⟩
    rw [hself, newEntry_name, newEntry_ext]
    decide
  intro hall
  obtain ⟨code, t, ht, hone, -⟩ := hall s₀ s folderInB h₀ (.single ⟨.write folderB, 0, ⟨folderB, rfl⟩, hw⟩) (by decide)
    hb.dir hb.hasFreeSlot hb.room
  obtain ⟨t', ht'⟩ := write_found (π := zeroPlatform) (r := folderInB) hg hb.dir hb.room
    ((findEntry_ne_none_iff (r := folderInB) hg hb.dir (by decide)).2 (.inr hspecial))
  rw [ht'] at ht
  cases ht
  obtain ⟨i, h2, -, hlive, -⟩ := hone.1 rfl
  exact hb.unused h2 hlive

end BebasOs.Fat32
