/-
What a creation that fails leaves behind. Nothing is undone: a creation without a page directory has
entered its metadata, and one that cannot read its executable keeps the directory and the frame it took, and
leaves the new directory active.
-/
import BebasOs.Fat32.Read
import BebasOs.Process.Table

namespace BebasOs.Process

open Bytes Search Memory Fat32

variable {π : Platform} {k k' : Kernel} {r : LoadRequest} {u : Unset} {i : ℕ} {d : Fin 32}

/-! ## Failures -/

/-- The process table, the page frames, the directories in use and the active directory are the same. -/
structure Untouched (k k' : Kernel) : Prop where
  processList : k'.processList = k.processList
  manager : k'.manager = k.manager
  pageFrameMap : k'.paging.pageFrameMap = k.paging.pageFrameMap
  freePageFrameCount : k'.paging.freePageFrameCount = k.paging.freePageFrameCount
  pageDirectoryUsed : k'.paging.pageDirectoryUsed = k.paging.pageDirectoryUsed
  cr3 : k'.cr3 = k.cr3

theorem Untouched.refl (k : Kernel) : Untouched k k := ⟨rfl, rfl, rfl, rfl, rfl, rfl⟩

/-- The directory holds a file under the name of the request, and the file is not one that a read refuses. -/
def Readable (s : Machine) (r : FAT32DriverRequest) : Prop :=
  ∃ idx, findEntry (loadParent s r).memory.dirTableBuf r.name r.ext = some idx ∧
    ¬ ReadRefused (cell (loadParent s r).memory.dirTableBuf idx) r

theorem read_code_iff {s : Machine} {r : FAT32DriverRequest} : (Fat32.read π s r).code = 0 ↔ Readable s r := by
  unfold Fat32.read readLoaded Readable
  rcases hf : findEntry (loadParent s r).memory.dirTableBuf r.name r.ext with _ | idx
  · simp
  · simp only [Option.some.injEq, exists_eq_left']
    by_cases hr : ReadRefused (cell (loadParent s r).memory.dirTableBuf idx) r
    · have hr' : (cell (loadParent s r).memory.dirTableBuf idx).attributeByte = 1 ∨ r.bufferSize = 0 := hr
      rw [if_pos hr']
      simp [hr]
    · have hr' : ¬ ((cell (loadParent s r).memory.dirTableBuf idx).attributeByte = 1 ∨ r.bufferSize = 0) := hr
      rw [if_neg hr']
      refine ⟨fun _ => hr, fun _ => ?_⟩
      split <;> rfl

/-- Where a creation gets past its checks, it either runs out of directories with its slot already filled in as it
would fill it, or has a directory and a file to read. -/
def Secured (k : Kernel) (r : LoadRequest) (u : Unset) : Prop :=
  ∀ i, Takes k r i →
    if Bitmap.firstClear k.paging.pageDirectoryUsed = none then (k.pcb i).metadata = newMetadata k r u
    else Readable k.fs r.toFAT32DriverRequest

/-- The condition for a creation whose slot is known. -/
theorem secured_iff (h : Takes k r i) : Secured k r u ↔
    if Bitmap.firstClear k.paging.pageDirectoryUsed = none then (k.pcb i).metadata = newMetadata k r u
    else Readable k.fs r.toFAT32DriverRequest := by
  constructor
  · intro hs
    exact hs i h
  · intro hs j hj
    obtain rfl := h.unique hj
    exact hs

/-! ## What is left behind -/

/-- The metadata are back in the slot only if they were there before. -/
theorem untouched_enterMetadata_iff (hi : i < 16) :
    Untouched k (enterMetadata k i r u) ↔ (k.pcb i).metadata = newMetadata k r u := by
  constructor
  · intro h
    have hpcb : (enterMetadata k i r u).pcb i = k.pcb i := by
      unfold Kernel.pcb
      rw [h.processList]
    rw [pcb_enterMetadata hi, if_pos rfl] at hpcb
    rw [← hpcb]
  · intro h
    refine ⟨?_, rfl, rfl, rfl, rfl, rfl⟩
    refine cell_ext fun j _ => ?_
    show (enterMetadata k i r u).pcb j = k.pcb j
    rw [pcb_enterMetadata hi]
    split
    · subst_vars
      rw [← h]
    · rfl

/-- The directory of a failed read stays in use. -/
theorem loadedKernel_used : (loadedKernel π k i d r u).paging.pageDirectoryUsed =
    store k.paging.pageDirectoryUsed d.1 true := by
  refine (pagingAllocate_used _ _ _).trans ?_
  exact opened_used _ _ _

theorem not_untouched_loadedKernel (hd : Bitmap.firstClear k.paging.pageDirectoryUsed = some d.1) :
    ¬ Untouched k (loadedKernel π k i d r u) := by
  intro h
  have hused := h.pageDirectoryUsed
  obtain ⟨hlt, hclear⟩ := Bitmap.firstClear_eq_some hd
  rw [loadedKernel_used] at hused
  rw [← hused, cell_store_self _ _ hlt] at hclear
  cases hclear

theorem Creation.untouched_iff {code : Int} (h : Creation π k r u code k') :
    (code ≠ processCreateSuccess → Untouched k k') ↔ Secured k r u := by
  cases h with
  | refused hc h =>
    refine ⟨fun _ i hi => absurd hi (h i), fun _ _ => Untouched.refl k⟩
  | @noDirectory i h hd =>
    rw [secured_iff h, if_pos hd, ← untouched_enterMetadata_iff h.lt]
    exact ⟨fun hu => hu (by decide), fun hu _ => hu⟩
  | @unread i d _ h hd hr hc =>
    rw [secured_iff h, if_neg (by rw [hd]; simp), ← read_code_iff (π := π), hr]
    exact ⟨fun hu => absurd (hu hc) (not_untouched_loadedKernel hd), fun h0 => absurd h0 hc⟩
  | @started i d h hd hr =>
    rw [secured_iff h, if_neg (by rw [hd]; simp), ← read_code_iff (π := π)]
    exact ⟨fun _ => hr, fun _ hc => absurd rfl hc⟩

/-- A failed creation changes nothing exactly when it fails at its checks, or finds no directory for a slot that
already has the metadata it enters. -/
theorem failure_untouched_iff (π : Platform) (k : Kernel) (r : LoadRequest) (u : Unset) :
    ((processCreateUserProcess π k r u).1 ≠ processCreateSuccess → Untouched k (processCreateUserProcess π k r u).2) ↔
      Secured k r u :=
  (create_spec π k r u).untouched_iff

/-- On a new disk there is no file to run: the creation fails and keeps the directory it took. -/
theorem failure_touches : ¬ ∀ (π : Platform) (k : Kernel) (r : LoadRequest) (u : Unset),
    (processCreateUserProcess π k r u).1 ≠ processCreateSuccess → Untouched k (processCreateUserProcess π k r u).2 := by
  obtain ⟨s, -, hf⟩ := createFat32_formatted zeroPlatform zeroDisk
  intro hall
  have hs : Secured (bootKernel s) loadA unsetZero := (failure_untouched_iff zeroPlatform _ _ _).1 (hall _ _ _ _)
  have hd : Bitmap.firstClear (bootKernel s).paging.pageDirectoryUsed ≠ none := by
    show Bitmap.firstClear initialPaging.pageDirectoryUsed ≠ none
    decide
  rw [secured_iff (takes_boot s), if_neg hd] at hs
  obtain ⟨idx, hfind, -⟩ := hs
  have hnone : findEntry (loadParent s fileA).memory.dirTableBuf fileA.name fileA.ext = none := by
    rw [loadParent_dirTableBuf, place_parent (by decide)]
    exact (fileA_accepted hf).unmatched
  exact absurd (hnone.symm.trans hfind) (by simp)

end BebasOs.Process
