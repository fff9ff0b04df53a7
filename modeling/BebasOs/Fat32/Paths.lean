/-
Paths: the names of the folders on the way from the root down to a directory. Whatever writes there have been on a new
disk, slot 0 of a directory has the name that it is listed under, so that the path can be read on the way up.
-/
import Mathlib.Data.List.TakeWhile
import BebasOs.Fat32.AnyParent
import BebasOs.Fat32.MoveTree

namespace BebasOs.Fat32

open Bytes Search Disk Relation

variable {π : Platform} {s s' : Machine} {r : FAT32DriverRequest} {d d' : Disk} {i j c p q : ℕ}
  {e : FAT32DirectoryEntry} {cs : List ℕ} {ns : List (List UInt8)}

/-- The string in a name field. -/
def nameText (name : Vector UInt8 8) : List UInt8 := name.toList.takeWhile (· ≠ 0)

theorem length_nameText (name : Vector UInt8 8) : (nameText name).length ≤ 8 := by
  have h := (List.takeWhile_prefix (p := fun x : UInt8 => decide (x ≠ 0)) (l := name.toList)).length_le
  rwa [Vector.length_toList] at h

theorem zero_notMem_nameText (name : Vector UInt8 8) : 0 ∉ nameText name := fun h =>
  absurd (List.mem_takeWhile_imp h) (by simp)

namespace Disk

/-- From the root the folders with these names lead to directory `p`. -/
inductive PathTo (d : Disk) : List (List UInt8) → ℕ → Prop
  | root : PathTo d [] 2
  | folder {ns : List (List UInt8)} {q i : ℕ} (h : PathTo d ns q) (lo : 2 ≤ i) (hi : i < 64) (live : (d.slot q i).Live)
      (isFolder : (d.slot q i).IsFolder) :
      PathTo d (ns ++ [nameText (d.slot q i).name]) (d.slot q i).cluster.toNat

theorem PathTo.liveDir (h : d.PathTo ns p) : d.LiveDir p := by
  induction h with
  | root => exact d.liveDir_root
  | folder _ lo hi live isFolder ih => exact ih.tail ⟨_, lo, hi, live, isFolder, rfl⟩

/-- Every live directory has a path. -/
theorem exists_pathTo (h : d.LiveDir p) : ∃ ns, d.PathTo ns p := by
  induction h with
  | refl => exact ⟨[], .root⟩
  | tail _ hl ih =>
    obtain ⟨ns, hp⟩ := ih
    obtain ⟨i, lo, hi, live, isFolder, rfl⟩ := hl
    exact ⟨_, hp.folder lo hi live isFolder⟩

/-- The root has no other path than its own. -/
theorem PathTo.eq_nil (h : d.PathTo ns 2) (hd : Nested d) : ns = [] := by
  generalize hp : 2 = p at h
  cases h with
  | root => rfl
  | folder h lo hi live isFolder => exact absurd ⟨_, lo, hi, live, isFolder, hp.symm⟩ (hd.notListed _ h.liveDir)

theorem PathTo.eq_root (h : d.PathTo [] p) : p = 2 := by
  generalize hns : [] = ns at h
  cases h with
  | root => rfl
  | folder => simp at hns

/-- Slot 0 of each directory has the name that the directory is listed under, and that of the root its own. -/
structure Titled (π : Platform) (d : Disk) : Prop extends Nested d where
  rootTitle : (d.slot 2 0).name = rootName π
  title : ∀ q i, d.LiveEntry q i → (d.slot q i).IsFolder →
    (d.slot (d.slot q i).cluster.toNat 0).name = (d.slot q i).name

/-- A directory has one path. -/
theorem PathTo.unique (hd : Titled π d) (h : d.PathTo ns p) :
    ∀ {ns' : List (List UInt8)}, d.PathTo ns' p → ns = ns' := by
  induction h with
  | root => exact fun h' => (h'.eq_nil hd.toNested).symm
  | @folder ns q i h lo hi live isFolder ih =>
    intro ns' h'
    generalize hp : (d.slot q i).cluster.toNat = p at h'
    have hlists : d.Lists q p := ⟨i, lo, hi, live, isFolder, hp⟩
    have hname := hd.title q i ⟨h.liveDir, lo, hi, live⟩ isFolder
    cases h' with
    | root => exact absurd hlists (hd.notListed _ h.liveDir)
    | @folder ns' q' i' h' lo' hi' live' isFolder' =>
      have hname' := hd.title q' i' ⟨h'.liveDir, lo', hi', live'⟩ isFolder'
      have hq : q = q' := (hd.lister q _ h.liveDir hlists).symm.trans
        (hd.lister q' _ h'.liveDir ⟨i', lo', hi', live', isFolder', rfl⟩)
      subst hq
      rw [hp] at hname
      rw [ih h', hname.symm.trans hname']

/-- Paths stay where an entry is inserted. -/
theorem PathTo.inserted (h : d.PathTo ns q) (hd : d.Grounded) (hi : d.Inserted d' p j e cs) : d'.PathTo ns q := by
  induction h with
  | root => exact .root
  | folder h lo hlt live isFolder ih =>
    have hslot := hi.slot_old hd ⟨h.liveDir, lo, hlt, live⟩
    rw [← hslot] at live isFolder ⊢
    exact ih.folder lo hlt live isFolder

/-- A new folder gets the name of its entry. -/
theorem Titled.inserted (hd : Titled π d) (h : d.Inserted d' p j e cs) : Titled π d' where
  toNested := hd.toNested.inserted h
  rootTitle := by
    rw [h.slot_special hd.toGrounded d.liveDir_root (by omega)]
    exact hd.rootTitle
  title q i he hf := by
    rcases (h.liveEntry_iff hd.toGrounded).1 he with hq | ⟨rfl, rfl⟩
    · have hslot := h.slot_old hd.toGrounded hq
      rw [hslot] at hf ⊢
      have hlive : d.LiveDir (d.slot q i).cluster.toNat := hq.dir.tail ⟨i, hq.lo, hq.hi, hq.live, hf, rfl⟩
      rw [h.slot_special hd.toGrounded hlive (by omega)]
      exact hd.title q i hq hf
    · have hslot := h.slot_new hd.toGrounded
      rw [hslot] at hf ⊢
      rw [h.slot_folder_zero hf]

/-- Where the live directories keep their tables, nothing of this changes. -/
theorem Titled.congr (hd : Titled π d) (hg : d'.Grounded) (h : ∀ p, d.LiveDir p → d'.table p = d.table p) :
    Titled π d' := by
  have hlive {p : ℕ} : d'.LiveDir p ↔ d.LiveDir p := liveDir_congr h
  have hslot {p : ℕ} (hp : d.LiveDir p) (i : ℕ) : d'.slot p i = d.slot p i := by
    unfold slot
    rw [h p hp]
  have hlists {q c : ℕ} (hq : d.LiveDir q) (hl : d'.Lists q c) : d.Lists q c := by
    obtain ⟨i, lo, hi, hl⟩ := hl
    rw [hslot hq] at hl
    exact ⟨i, lo, hi, hl⟩
  refine ⟨⟨hg, fun p hp => ?_, fun q p hq hl => ?_, fun q hq hl => ?_, ?_⟩, ?_, fun q i he hf => ?_⟩
  · rw [hslot (hlive.1 hp)]
    exact hd.self p (hlive.1 hp)
  · have hq := hlive.1 hq
    have hl := hlists hq hl
    unfold up
    rw [hslot (hq.tail hl)]
    exact hd.lister q p hq hl
  · exact hd.notListed q (hlive.1 hq) (hlists (hlive.1 hq) hl)
  · unfold up
    rw [hslot d.liveDir_root]
    exact hd.root
  · rw [hslot d.liveDir_root]
    exact hd.rootTitle
  · have hq := hlive.1 he.dir
    have hlive' := he.live
    rw [hslot hq] at hf hlive' ⊢
    rw [hslot (hq.tail ⟨i, he.lo, he.hi, hlive', hf, rfl⟩)]
    exact hd.title q i ⟨hq, he.lo, he.hi, hlive'⟩ hf

end Disk

/-! ## Runs -/

theorem Formatted.titled (h : Formatted π d s) : Titled π s.disk where
  toNested := h.tree.nested h.wellFormed.toSound
  rootTitle := by
    rw [h.slot_zero]
    rfl
  title _ _ he _ := absurd he h.not_liveEntry

theorem write_titled {π₀ : Platform} {code : Int} (hd : Titled π₀ s.disk) (hb : s.disk.Barred)
    (h : write π s r = some (code, s')) : Titled π₀ s'.disk := by
  by_cases hc : code = 0
  · subst hc
    obtain ⟨t, j, c, hst, hdisk, ho⟩ := stored_placed hd.toGrounded hb h
    have hg := (write_grounded hd.toGrounded hb h).1
    rw [← hdisk] at hg ⊢
    by_cases hp : s.disk.LiveDir r.placed.parent
    · rcases Nat.lt_or_ge j 64 with hj | hj
      · exact hd.inserted (hst.inserted hd.toGrounded hp hj)
      · have hk := hst.kept hd.toGrounded hp hj
        exact hd.congr hg fun p hp => table_congr (hk.others p (hd.range p hp).1 (hd.used p hp))
    · rw [hst.disk] at hg ⊢
      have hspared := hst.toAccepted.spared hd.toGrounded ho hp
      exact hd.congr hg fun p hp => table_congr (hspared.dirs p hp)
  · rw [perform_error (q := .write r) h hc]
    exact hd

/-- After any writes on a new disk the directories have the names they are listed under. -/
theorem run_titled {s₀ : Machine} (h₀ : createFat32 π (powerOn d) = some s₀)
    (h : ReflTransGen (Step π fun _ q => ∃ r, q = .write r) s₀ s) : Titled π s.disk := by
  have hf := formatted_of_create h₀
  refine (run_invariant (I := fun s => Titled π s.disk ∧ s.disk.Barred) ⟨hf.titled, hf.barred⟩ ?_ h).1
  rintro s s' q code ⟨hd, hb⟩ ⟨r, rfl⟩ hq
  exact ⟨write_titled hd hb hq, (write_grounded hd.toGrounded hb hq).2⟩

/-! ## A sample disk -/

/-- The sample folder `c` in the sample folder `b`. -/
def folderCInB : FAT32DriverRequest := { folderC with parentClusterNumber := 3 }

/-- The disk with the folder `b` in the root, and in slot `j` of it the folder `c`, whose cluster is `c`. -/
structure HoldsPath (s : Machine) (j c : ℕ) : Prop where
  titled : Titled zeroPlatform s.disk
  wellFormed : s.disk.WellFormed
  tree : s.disk.Tree
  outer : s.disk.slot 2 2 = newEntry folderB 3
  inner : s.disk.slot 3 j = newEntry folderCInB c
  cluster : c < 512
  outerLive : s.disk.LiveEntry 2 2
  innerLive : s.disk.LiveEntry 3 j
  entries : ∀ p i, s.disk.LiveEntry p i → p = 2 ∧ i = 2 ∨ p = 3 ∧ i = j

theorem Stored.holdsPath {s₀ s₁ : Machine} (st₁ : Stored s₀ folderB 2 3 s₁) (hf : Formatted zeroPlatform d s₀)
    (st : Stored s₁ folderCInB j c s) (hj : j < 64) : HoldsPath s j c := by
  have hd := hf.wellFormed.toSound
  have hp : s₀.disk.LiveDir folderB.parent := s₀.disk.liveDir_root
  have hb := st₁.holdsFolder hf
  have hd₁ := hb.wellFormed.toSound
  have hi₁ := st₁.inserted hd.grounded hp (by omega)
  have hi := st.inserted hd₁.grounded hb.dir hj
  have he : s₁.disk.LiveEntry 2 2 :=
    ⟨s₁.disk.liveDir_root, Nat.le_refl 2, by omega, by rw [hb.slot]; exact newEntry_live _ _⟩
  refine ⟨(hf.titled.inserted hi₁).inserted hi,
    (st.sameBoot hd₁.grounded hb.dir).wellFormed hb.wellFormed (hi.sound hd₁),
    hb.tree.inserted hd₁ hi, (hi.slot_old hd₁.grounded he).trans hb.slot, hi.slot_new hd₁.grounded,
    st.cluster_range.2.1, (hi.liveEntry_iff hd₁.grounded).2 (.inl he), st.liveEntry hd₁.grounded hb.dir hj,
    fun p i hpi => ?_⟩
  rcases (hi.liveEntry_iff hd₁.grounded).1 hpi with hpi | ⟨rfl, rfl⟩
  · rcases (hi₁.liveEntry_iff hd.grounded).1 hpi with hpi | ⟨rfl, rfl⟩
    · exact absurd hpi hf.not_liveEntry
    · exact .inl ⟨rfl, rfl⟩
  · exact .inr ⟨rfl, rfl⟩

/-- It is made by two writes on a new disk. -/
theorem exists_holdsPath : ∃ s₀ s₁ s j c, createFat32 zeroPlatform (powerOn zeroDisk) = some s₀ ∧
    perform zeroPlatform s₀ (.write folderB) = some (0, s₁) ∧
    perform zeroPlatform s₁ (.write folderCInB) = some (0, s) ∧
    HoldsPath s j c := by
  obtain ⟨s₀, h₀, hf⟩ := createFat32_formatted zeroPlatform zeroDisk
  obtain ⟨s₁, hs₁, st₁⟩ := (folderB_accepted hf).write (π := zeroPlatform)
    hf.wellFormed.toSound.grounded s₀.disk.liveDir_root
  have hb := st₁.holdsFolder hf
  obtain ⟨j, c, ha, hj⟩ := hb.accepted (r := folderCInB) rfl rfl (by decide) (by decide) (by decide)
  obtain ⟨s, hs, st⟩ := ha.write (π := zeroPlatform) hb.wellFormed.toSound.grounded hb.dir
  exact ⟨s₀, s₁, s, j, c, h₀, hs₁, hs, st₁.holdsPath hf st hj⟩

namespace HoldsPath

variable (h : HoldsPath s j c)
include h

theorem outer_cluster : (s.disk.slot 2 2).cluster.toNat = 3 := by
  rw [h.outer]
  exact newEntry_cluster _ (by omega)

theorem inner_cluster : (s.disk.slot 3 j).cluster.toNat = c := by
  rw [h.inner]
  exact newEntry_cluster _ h.cluster

theorem outer_folder : (s.disk.slot 2 2).IsFolder := by
  rw [h.outer]
  exact (newEntry_isFolder _ _).2 rfl

theorem inner_folder : (s.disk.slot 3 j).IsFolder := by
  rw [h.inner]
  exact (newEntry_isFolder _ _).2 rfl

/-- The paths of the two folders. -/
theorem paths : s.disk.PathTo [[98]] 3 ∧ s.disk.PathTo [[98], [99]] c := by
  have houter := PathTo.root.folder (Nat.le_refl 2) (by omega) h.outerLive.live h.outer_folder
  rw [h.outer_cluster, h.outer, newEntry_name] at houter
  have hinner := houter.folder h.innerLive.lo h.innerLive.hi h.innerLive.live h.inner_folder
  rw [h.inner_cluster, h.inner, newEntry_name] at hinner
  exact ⟨houter, hinner⟩

end HoldsPath

end BebasOs.Fat32
