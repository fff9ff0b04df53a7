/-
Names. The duplicate check compares the name and extension of the request, while a folder is entered
without an extension. So the entries of a directory have different names as long as no folder is asked
for under an extension of its own where an entry has its name and none.
-/
import BebasOs.Fat32.Commute

namespace BebasOs.Fat32

open Bytes Links Search Disk Relation

variable {π : Platform} {s s' s₀ : Machine} {r : FAT32DriverRequest}

namespace Disk

variable {d d' : Disk} {p q i j : ℕ} {e : FAT32DirectoryEntry} {l cs : List ℕ}

/-- No directory has two live entries of one name and extension. -/
def UniqueNames (d : Disk) : Prop :=
  ∀ p i j, d.LiveEntry p i → d.LiveEntry p j → (d.slot p i).name = (d.slot p j).name →
    (d.slot p i).ext = (d.slot p j).ext → i = j

theorem UniqueNames.inserted (hd : d.Sound) (hu : d.UniqueNames) (h : d.Inserted d' p j e cs)
    (hnew : ∀ i, d.LiveEntry p i → ¬ ((d.slot p i).name = e.name ∧ (d.slot p i).ext = e.ext)) : d'.UniqueNames := by
  intro q i k hi hk hn hx
  have hold {q i : ℕ} := h.liveEntry_iff (q := q) (i := i) hd.grounded
  rcases hold.1 hi with hi | ⟨rfl, rfl⟩ <;> rcases hold.1 hk with hk | ⟨hq, rfl⟩
  · rw [h.slot_old hd.grounded hi, h.slot_old hd.grounded hk] at hn hx
    exact hu q i k hi hk hn hx
  · subst hq
    rw [h.slot_old hd.grounded hi, h.slot_new hd.grounded] at hn hx
    exact absurd ⟨hn, hx⟩ (hnew i hi)
  · rw [h.slot_old hd.grounded hk, h.slot_new hd.grounded] at hn hx
    exact absurd ⟨hn.symm, hx.symm⟩ (hnew k hk)
  · rfl

theorem UniqueNames.removed (hd : d.Sound) (hu : d.UniqueNames) (h : d.Removed d' p j l) : d'.UniqueNames := by
  intro q i k hi hk hn hx
  obtain ⟨hi, hi'⟩ := (h.liveEntry_iff hd).1 hi
  obtain ⟨hk, hk'⟩ := (h.liveEntry_iff hd).1 hk
  rw [h.slot_old hd hi hi', h.slot_old hd hk hk'] at hn hx
  exact hu q i k hi hk hn hx

theorem UniqueNames.kept (hd : d.Sound) (hu : d.UniqueNames) (h : d.Kept d') : d'.UniqueNames := by
  intro q i k hi hk hn hx
  have hi := (h.liveEntry_iff hd).1 hi
  have hk := (h.liveEntry_iff hd).1 hk
  rw [h.slot_eq hd hi.dir, h.slot_eq hd hk.dir] at hn hx
  exact hu q i k hi hk hn hx

end Disk

/-- A look-up that finds nothing passes every slot. -/
theorem not_named_of_unmatched {d : Disk} {i : ℕ} (h : findEntry (d.table r.parent) r.name r.ext = none) (hi : i < 64) :
    ¬ ((d.slot r.parent i).name = r.name ∧ (d.slot r.parent i).ext = r.ext) := fun hc => by
  have hfalse := first_eq_none.1 h i (Nat.zero_le i) hi
  have htrue : (cell (d.table r.parent) i).hasName r.name r.ext = true := FAT32DirectoryEntry.hasName_iff.2 hc
  rw [hfalse] at htrue
  cases htrue

/-- A folder asked for under an extension has no namesake without one. -/
def Request.Distinct (q : Request) (d : Disk) : Prop :=
  ∀ r, q = .write r → r.bufferSize = 0 → r.ext ≠ Vector.replicate 3 0 → ∀ i, d.LiveEntry r.parent i →
    ¬ ((d.slot r.parent i).name = r.name ∧ (d.slot r.parent i).ext = Vector.replicate 3 0)

/-- The name the check has compared is the name that is entered. -/
theorem Accepted.new_name {j c : ℕ} (h : Accepted s r j c) (hq : (Request.write r).Distinct s.disk) {i : ℕ}
    (he : s.disk.LiveEntry r.parent i) :
    ¬ ((s.disk.slot r.parent i).name = (newEntry r c).name ∧ (s.disk.slot r.parent i).ext = (newEntry r c).ext) := by
  rw [newEntry_name, newEntry_ext]
  by_cases hb : r.bufferSize = 0
  · rw [newExt, if_pos hb]
    by_cases hx : r.ext = Vector.replicate 3 0
    · rw [← hx]; exact not_named_of_unmatched h.unmatched he.hi
    · exact hq r rfl hb hx i he
  · rw [newExt, if_neg hb]
    exact not_named_of_unmatched h.unmatched he.hi

theorem Effect.uniqueNames {q : Request} {code : Int} (h : Effect s q code s') (hd : s.disk.Sound) (ht : s.disk.Tree)
    (hu : s.disk.UniqueNames) (hp : s.disk.LiveDir q.data.parent) (hs : q.Steady s.disk) (hq : q.Distinct s.disk) :
    s'.disk.UniqueNames := by
  cases h with
  | idle hdisk => rw [hdisk]; exact hu
  | @stored r j c s' h =>
    rcases Nat.lt_or_ge j 64 with hj | hj
    · exact hu.inserted hd (h.inserted hd.grounded hp hj) fun i he => h.new_name hq he
    · exact hu.kept hd (h.kept hd.grounded hp hj)
  | @freed r i s' h =>
    by_cases hl : (s.disk.slot r.parent i).Live
    · have hi := h.not_special ht hp (hs r rfl)
      exact hu.removed hd (h.removed hd ⟨hp, hi, h.resolves.spec.1, hl⟩)
    · exact hu.kept hd (h.kept hd hp hl)
  | purged h =>
    obtain ⟨l, hr, -⟩ := h.removed hd (h.liveFile hd (ht.sizedAt hp _) hp)
    exact hu.removed hd hr

/-- In every run of requests to live directories on a new disk in which no directory deletes itself and no
folder is asked for under an extension where an entry has its name and none, names are unique. -/
theorem run_uniqueNames {d : Disk} (h₀ : createFat32 π (powerOn d) = some s₀)
    (h : ReflTransGen (Step π fun d q => d.LiveDir q.data.parent ∧ q.Steady d ∧ q.Distinct d) s₀ s) :
    s.disk.UniqueNames := by
  have hf := formatted_of_create h₀
  have hinv : (s.disk.Sound ∧ s.disk.Tree) ∧ s.disk.UniqueNames := by
    refine run_invariant (I := fun s => (s.disk.Sound ∧ s.disk.Tree) ∧ s.disk.UniqueNames)
      ⟨⟨hf.wellFormed.toSound, hf.tree⟩, fun p i j hi => absurd hi hf.not_liveEntry⟩ ?_ h
    rintro s s' q code ⟨⟨hd, ht⟩, hu⟩ ⟨hp, hs, hq⟩ hperf
    have he := perform_effect hd hp hperf
    exact ⟨he.sound_tree hd ht hp hs, he.uniqueNames hd ht hu hp hs hq⟩
  exact hinv.2

section

variable {s₁ s₂ : Machine} {c : ℕ} (h : Second folderC s₀ s₁ s₂ c)
include h

/-- Beside the folders `b` and `c` there is room for the file `a`. -/
theorem Second.write_fileA : ∃ k c' s₃, write zeroPlatform s₂ fileA = some (0, s₃) ∧ Stored s₂ fileA k c' s₃ ∧
    Placed s₂.disk fileA := by
  have hf := h.formatted
  have hd := hf.wellFormed.toSound
  have hpb : Placed s₀.disk folderB := hf.placed_letter (by decide)
  have hpa : Placed s₀.disk fileA := hf.placed_letter (by decide)
  have hne : ¬ SameEntry fileA folderB := fun he => absurd he.name (by decide)
  have hunmatched := h.first.findEntry_other hd hpb hpa.live hpa.named hne
  have hunused (i : ℕ) (h3 : 3 ≤ i) : ¬ (s₁.disk.slot 2 i).Live := by
    rw [h.first.slot_unused hf rfl h3]
    exact FAT32DirectoryEntry.not_live_default
  have hroom := h.first.freeClusters_length hd hpb
  rw [hf.freeClusters, List.length_range', show needed folderB = 1 from rfl] at hroom
  refine h.second.write_next ((h.first.inserted_of_placed hd hpb).sound hd) h.placed
    (h.first.placed hd hpb hpa hf.hasTwoFreeSlots)
    ⟨3, 4, by omega, by omega, by omega, hunused 3 (by omega), hunused 4 (by omega)⟩
    (fun he => absurd he.name (by decide))
    (hunmatched.trans (hf.unmatched_letter (by decide) (by decide) (by decide))) ?_
  have hn : needed folderC + needed fileA = 2 := by decide
  omega

/-- Both folders are live entries. -/
theorem Second.entries : s₂.disk.Sound ∧ s₂.disk.LiveEntry 2 2 ∧ s₂.disk.LiveEntry 2 3 := by
  have hd := h.formatted.wellFormed.toSound
  have hi₁ := h.first.inserted_of_placed hd (h.formatted.placed_letter (by decide))
  have hd₁ := hi₁.sound hd
  have hi₂ := h.second.inserted_of_placed hd₁ h.placed
  refine ⟨hi₂.sound hd₁, (hi₂.liveEntry_iff hd₁.grounded).2 (.inl ?_),
    (hi₂.liveEntry_iff hd₁.grounded).2 (.inr ⟨rfl, rfl⟩)⟩
  exact (hi₁.liveEntry_iff hd.grounded).2 (.inr ⟨rfl, rfl⟩)

end

/-- Beside the folders `b` and `c` the file `a` is written and deleted. -/
theorem run_uniqueNames_fileA : ∃ s₀ s₁ s₂ s₃ s₄, createFat32 zeroPlatform (powerOn zeroDisk) = some s₀ ∧
    perform zeroPlatform s₀ (.write folderB) = some (0, s₁) ∧ perform zeroPlatform s₁ (.write folderC) = some (0, s₂) ∧
    perform zeroPlatform s₂ (.write fileA) = some (0, s₃) ∧ perform zeroPlatform s₃ (.delete fileA) = some (0, s₄) ∧
    s₄.disk.LiveEntry 2 2 ∧ s₄.disk.LiveEntry 2 3 ∧ s₄.disk.UniqueNames := by
  obtain ⟨s₀, s₁, s₂, c, h₀, hw₁, hw₂, hq⟩ := exists_second 99 0 (by decide) (by decide) (by decide) (by decide)
    (by decide)
  obtain ⟨hd₂, hb, hc⟩ := Second.entries hq
  obtain ⟨k, c', s₃, hw₃, st₃, hpa⟩ := Second.write_fileA hq
  have hk := st₃.slot_hi_of_free hpa.slot
  have hi₃ := st₃.inserted hd₂.grounded hpa.live hk
  have hd₃ := hi₃.sound hd₂
  have hfile := st₃.liveFile hd₂.grounded hpa.live hk (by decide)
  have hresolves := st₃.resolves (q := fileA) hd₂.grounded hpa.live hk rfl rfl rfl (newExt_file (by decide))
  obtain ⟨zs, s₄, hdelete, hpurged⟩ := hresolves.delete (π := zeroPlatform) hd₃ hfile
  obtain ⟨l, hremoved, -⟩ := hpurged.removed hd₃ hfile
  have hkept {i : ℕ} (h : s₂.disk.LiveEntry 2 i) : s₄.disk.LiveEntry 2 i := by
    refine (hremoved.liveEntry_iff hd₃).2 ⟨(hi₃.liveEntry_iff hd₂.grounded).2 (.inl h), fun he => ?_⟩
    obtain rfl : i = k := congrArg Prod.snd he
    exact hi₃.free h.live
  refine ⟨s₀, s₁, s₂, s₃, s₄, h₀, hw₁, hw₂, hw₃, hdelete, hkept hb, hkept hc, run_uniqueNames h₀
    (.head ⟨.write folderB, 0, ⟨s₀.disk.liveDir_root, Request.steady_write _ _, ?_⟩, hw₁⟩
    (.head ⟨.write folderC, 0, ⟨s₁.disk.liveDir_root, Request.steady_write _ _, ?_⟩, hw₂⟩
    (.head ⟨.write fileA, 0, ⟨s₂.disk.liveDir_root, Request.steady_write _ _, ?_⟩, hw₃⟩
    (.single ⟨.delete fileA, 0, ⟨s₃.disk.liveDir_root, (hresolves.steady hfile.toLiveEntry).1, ?_⟩, hdelete⟩))))⟩
  · rintro _ ⟨⟩ - hext
    exact absurd (by decide) hext
  · rintro _ ⟨⟩ - hext
    exact absurd (by decide) hext
  · rintro _ ⟨⟩ hzero
    exact absurd hzero (by decide)
  · rintro _ ⟨⟩

/-- The folder `b`, asked for under the extension `x`. -/
def folderBX : FAT32DriverRequest := { folderB with ext := #v[120, 0, 0] }

/-- Asking twice for the folder `b` under the extension `x` enters it twice, without an extension. -/
theorem run_not_uniqueNames : ∃ s₀ s₁ s₂, createFat32 zeroPlatform (powerOn zeroDisk) = some s₀ ∧
    Request.Fits (.write folderBX) s₀.disk ∧ s₀.disk.HasFreeSlot folderBX.parent ∧
    perform zeroPlatform s₀ (.write folderBX) = some (0, s₁) ∧
    Request.Fits (.write folderBX) s₁.disk ∧ s₁.disk.HasFreeSlot folderBX.parent ∧
    perform zeroPlatform s₁ (.write folderBX) = some (0, s₂) ∧ ¬ s₂.disk.UniqueNames := by
  obtain ⟨s₀, h₀, hf⟩ := createFat32_formatted zeroPlatform zeroDisk
  have hd := hf.wellFormed.toSound
  have hp : s₀.disk.LiveDir folderBX.parent := s₀.disk.liveDir_root
  have hacc : Accepted s₀ folderBX 2 3 :=
    hf.accepted rfl (by decide) (name_ne_rootName (by decide)) (by decide) (by decide)
  obtain ⟨s₁, hs₁, hst⟩ := hacc.write (π := zeroPlatform) hd.grounded hp
  have hi := hst.inserted hd.grounded hp (by omega)
  have hd₁ := hi.sound hd
  have hp₁ : s₁.disk.LiveDir folderBX.parent := s₁.disk.liveDir_root
  have hslot3 : s₁.disk.slot folderBX.parent 3 = default := hst.slot_unused hf rfl (Nat.le_refl 3)
  have hroom : s₁.disk.HasFreeSlot folderBX.parent := ⟨3, by omega, by omega, by rw [hslot3]; decide⟩
  have hunmatched : findEntry (s₁.disk.table folderBX.parent) folderBX.name folderBX.ext = none := by
    rw [hi.table, findEntry_store_other (by omega) ?_ ?_]
    · exact hst.unmatched
    · -- the entry that was made has no extension
      rw [Bool.eq_false_iff, ne_eq, FAT32DirectoryEntry.hasName_iff, newEntry_ext]
      rintro ⟨-, hx⟩
      exact absurd hx (by decide)
    · rw [show cell (s₀.disk.table folderBX.parent) 2 = default from hf.slot_of_ge (Nat.le_refl 2)]
      decide
  have hfree : needed folderBX ≤ (freeClusters s₁.disk.fat).length := hst.freeClusters_pos hf hp rfl
  obtain ⟨j, c, hacc₁⟩ := exists_accepted hunmatched hfree hroom
  obtain ⟨s₂, hs₂, hst₂⟩ := hacc₁.write (π := zeroPlatform) hd₁.grounded hp₁
  have hi₂ := hst₂.inserted hd₁.grounded hp₁ (hst₂.slot_hi_of_folder rfl)
  have he : s₁.disk.LiveEntry folderBX.parent 2 := (hi.liveEntry_iff hd.grounded).2 (.inr ⟨rfl, rfl⟩)
  refine ⟨s₀, s₁, s₂, h₀, hf.fits rfl, hf.hasFreeSlot, hs₁, ⟨hp₁, fun r hr hb => ?_⟩, hroom, hs₂, fun hu => ?_⟩
  · cases hr
    exact hroom
  · have hfirst : s₂.disk.slot folderBX.parent 2 = newEntry folderBX 3 :=
      (hi₂.slot_old hd₁.grounded he).trans (hi.slot_new hd.grounded)
    have hsecond := hi₂.slot_new hd₁.grounded
    have h2 := hu folderBX.parent 2 j ((hi₂.liveEntry_iff hd₁.grounded).2 (.inl he))
      ((hi₂.liveEntry_iff hd₁.grounded).2 (.inr ⟨rfl, rfl⟩)) (by rw [hfirst, hsecond, newEntry_name, newEntry_name])
      (by rw [hfirst, hsecond, newEntry_ext, newEntry_ext])
    subst h2
    exact hi₂.free he.live

end BebasOs.Fat32
