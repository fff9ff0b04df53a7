/-
What processes take and give back. Every creation that gets past its checks takes a page directory, and
a frame with it; no destruction gives one back. So a run ends with the resources it began with exactly
when no creation in it got that far, and only as many creations succeed as there were directories.
-/
import BebasOs.Process.Table

namespace BebasOs.Process

open Bytes Search Memory Fat32

variable {π : Platform} {k k' : Kernel} {r : LoadRequest} {u : Unset} {i : ℕ} {op : ProcessOp} {ops : List ProcessOp}

/-! ## Resources -/

/-- The free frames, the frame map and the page directories in use are the same. -/
structure SameResources (k k' : Kernel) : Prop where
  count : k'.paging.freePageFrameCount = k.paging.freePageFrameCount
  map : k'.paging.pageFrameMap = k.paging.pageFrameMap
  used : k'.paging.pageDirectoryUsed = k.paging.pageDirectoryUsed

theorem SameResources.of_paging (h : k'.paging = k.paging) : SameResources k k' := by
  constructor <;> rw [h]

theorem SameResources.trans {k'' : Kernel} (h : SameResources k k') (h' : SameResources k' k'') :
    SameResources k k'' where
  count := h'.count.trans h.count
  map := h'.map.trans h.map
  used := h'.used.trans h.used

/-- How many page directories are unused. -/
def unused (k : Kernel) : ℕ := Bitmap.clear k.paging.pageDirectoryUsed

/-- A creation that passes its checks while a page directory is unused. -/
def TakesDirectory (k : Kernel) : ProcessOp → Prop
  | .create r _ => (∃ i, Takes k r i) ∧ Bitmap.firstClear k.paging.pageDirectoryUsed ≠ none
  | _ => False

/-! ## One step -/

theorem unused_opened {d : Fin 32} (hd : Bitmap.firstClear k.paging.pageDirectoryUsed = some d.1)
    {e : PageDirectoryEntry}
    (h : k'.paging.pageDirectoryUsed = (opened k.paging d e).pageDirectoryUsed) : unused k' + 1 = unused k := by
  obtain ⟨h1, h2⟩ := Bitmap.firstClear_eq_some hd
  unfold unused
  rw [h, opened_used]
  exact Bitmap.clear_set h1 h2

theorem takesDirectory_of_some {d : ℕ} (h : Takes k r i) (hd : Bitmap.firstClear k.paging.pageDirectoryUsed = some d) :
    TakesDirectory k (.create r u) := by
  refine ⟨⟨i, h⟩, fun hn => ?_⟩
  rw [hn] at hd
  cases hd

theorem Creation.takes {code : Int} (h : Creation π k r u code k') :
    TakesDirectory k (.create r u) ∧ unused k' + 1 = unused k ∨
      ¬ TakesDirectory k (.create r u) ∧ SameResources k k' := by
  cases h with
  | refused _ h => exact .inr ⟨fun ⟨⟨i, hi⟩, _⟩ => h i hi, .of_paging rfl⟩
  | noDirectory _ hd => exact .inr ⟨fun ⟨_, h⟩ => h hd, .of_paging rfl⟩
  | unread h hd => exact .inl ⟨takesDirectory_of_some h hd, unused_opened hd (pagingAllocate_used _ _ _)⟩
  | started h hd => exact .inl ⟨takesDirectory_of_some h hd, unused_opened hd (pagingAllocate_used _ _ _)⟩

theorem Creation.takesDirectory (h : Creation π k r u 0 k') : TakesDirectory k (.create r u) := by
  cases h with
  | refused hc _ => exact absurd rfl hc
  | unread _ _ _ hc => exact absurd rfl hc
  | started h hd => exact takesDirectory_of_some h hd

theorem Destruction.paging {c : UInt32} {found : Bool} (h : Destruction k c found k') : k'.paging = k.paging := by
  cases h with
  | unknown _ => rfl
  | cleared _ => rfl

/-- What an operation takes: nothing, or one page directory. -/
theorem perform_takes (h : performProcess π k op = some k') :
    TakesDirectory k op ∧ unused k' + 1 = unused k ∨ ¬ TakesDirectory k op ∧ SameResources k k' := by
  cases op with
  | create r u =>
    cases h
    exact (create_spec π k r u).takes
  | destroy c =>
    cases h
    exact .inr ⟨id, .of_paging (destroy_spec k c).paging⟩
  | switch =>
    unfold performProcess at h
    rw [Option.map_eq_some_iff] at h
    obtain ⟨⟨index, ctx, k''⟩, h1, h2⟩ := h
    cases h2
    obtain ⟨-, -, -, rfl⟩ := switch_spec h1
    exact .inr ⟨id, .of_paging rfl⟩

/-- A creation that succeeds. -/
def succeeds (π : Platform) (k : Kernel) : ProcessOp → Bool
  | .create r u => (processCreateUserProcess π k r u).1 == processCreateSuccess
  | _ => false

theorem takesDirectory_of_succeeds (h : succeeds π k op = true) : TakesDirectory k op := by
  cases op with
  | create r u =>
    have hcode : (processCreateUserProcess π k r u).1 = 0 := by simpa [succeeds, processCreateSuccess] using h
    have hspec := create_spec π k r u
    rw [hcode] at hspec
    exact hspec.takesDirectory
  | destroy => cases h
  | switch => cases h

/-! ## Runs -/

/-- No creation of a run takes a page directory. -/
def NoneTaken (π : Platform) : Kernel → List ProcessOp → Prop
  | _, [] => True
  | k, op :: ops => ¬ TakesDirectory k op ∧ ∀ k', performProcess π k op = some k' → NoneTaken π k' ops

/-- How many creations of a run succeed. -/
def creations (π : Platform) : Kernel → List ProcessOp → ℕ
  | _, [] => 0
  | k, op :: ops => (succeeds π k op).toNat + ((performProcess π k op).map fun k' => creations π k' ops).getD 0

/-- A run that takes nothing keeps the resources, any other leaves fewer page directories; and every
successful creation takes one. -/
theorem run_takes (h : ops.foldlM (performProcess π) k = some k') :
    (NoneTaken π k ops → SameResources k k') ∧ (¬ NoneTaken π k ops → unused k' < unused k) ∧
      creations π k ops + unused k' ≤ unused k := by
  induction ops generalizing k with
  | nil =>
    cases h
    exact ⟨fun _ => .of_paging rfl, fun h => absurd trivial h, by simp [creations]⟩
  | cons op ops ih =>
    rw [List.foldlM_cons, Option.bind_eq_bind, Option.bind_eq_some_iff] at h
    obtain ⟨k₁, h1, h2⟩ := h
    obtain ⟨hsame, hless, hcount⟩ := ih h2
    -- the condition and the count of a run are those of its first step and of the rest
    have hnone : NoneTaken π k (op :: ops) ↔ ¬ TakesDirectory k op ∧ NoneTaken π k₁ ops := by
      refine and_congr_right fun _ => ⟨fun h => h k₁ h1, fun h k₂ h3 => ?_⟩
      obtain rfl := Option.some.inj (h1.symm.trans h3)
      exact h
    have hcreations : creations π k (op :: ops) = (succeeds π k op).toNat + creations π k₁ ops := by
      rw [creations, h1]
      rfl
    rw [hnone, hcreations]
    rcases perform_takes h1 with ⟨ht, hunused⟩ | ⟨ht, hs⟩
    · -- one directory fewer, whether the creation succeeded or not
      have hone := Bool.toNat_le (succeeds π k op)
      exact ⟨fun h => absurd ht h.1, fun _ => by omega, by omega⟩
    · have hzero : (succeeds π k op).toNat = 0 := by
        rcases hb : succeeds π k op with _ | _
        · rfl
        · exact absurd (takesDirectory_of_succeeds hb) ht
      have hunused : unused k₁ = unused k := by
        unfold unused
        rw [hs.used]
      refine ⟨fun h => hs.trans (hsame h.2), fun h => ?_, by omega⟩
      have := hless fun hn => h ⟨ht, hn⟩
      omega

/-- A run ends with the frames and the page directories it began with exactly when no creation in it takes
a page directory; and only as many creations succeed as there were unused page directories. -/
theorem run_resources (h : ops.foldlM (performProcess π) k = some k') :
    (SameResources k k' ↔ NoneTaken π k ops) ∧ creations π k ops ≤ Bitmap.clear k.paging.pageDirectoryUsed := by
  obtain ⟨hsame, hless, hcount⟩ := run_takes h
  refine ⟨⟨fun hs => ?_, hsame⟩, ?_⟩
  · by_contra hn
    have hunused : unused k' = unused k := by
      unfold unused
      rw [hs.used]
    have := hless hn
    omega
  · exact (Nat.le_add_right _ _).trans hcount

/-- One process is created and destroyed. -/
theorem run_resources_loadA : ∃ m k, [.create loadA unsetZero, .destroy 0].foldlM (performProcess zeroPlatform)
      (bootKernel m) = some k ∧ creations zeroPlatform (bootKernel m) [.create loadA unsetZero, .destroy 0] = 1 ∧
    ¬ SameResources (bootKernel m) k := by
  obtain ⟨-, m, -, -, -, hm⟩ := exists_holdsA
  have hcreate := create_boot hm
  have hsucceeds : succeeds zeroPlatform (bootKernel m) (.create loadA unsetZero) = true := by
    show ((processCreateUserProcess zeroPlatform (bootKernel m) loadA unsetZero).1 == processCreateSuccess) = true
    rw [hcreate]
    rfl
  have hcreations : creations zeroPlatform (bootKernel m) [.create loadA unsetZero, .destroy 0] = 1 := by
    rw [creations, hsucceeds]
    rfl
  obtain ⟨k, hrun⟩ : ∃ k,
      [.create loadA unsetZero, .destroy 0].foldlM (performProcess zeroPlatform) (bootKernel m) = some k :=
    ⟨_, rfl⟩
  refine ⟨m, k, hrun, hcreations, fun hsame => ?_⟩
  have hnone := (run_resources hrun).1.1 hsame
  exact hnone.1 (takesDirectory_of_succeeds hsucceeds)

/-- A process is created and destroyed, and its page directory stays in use. -/
theorem resources_lost : ∃ m k₁ k₂, processCreateUserProcess zeroPlatform (bootKernel m) loadA unsetZero = (0, k₁) ∧
    processDestroy k₁ 0 = (true, k₂) ∧ ¬ SameResources (bootKernel m) k₂ := by
  obtain ⟨-, m, -, -, -, hm⟩ := exists_holdsA
  have hslot : slotOf (firstKernel m) 0 = some 0 := (takes_first m).slot
  refine ⟨m, firstKernel m, _, create_boot hm, destroy_of_slotOf hslot, fun h => ?_⟩
  have hused : (firstKernel m).paging.pageDirectoryUsed = initialPaging.pageDirectoryUsed := h.used
  rw [firstKernel_used] at hused
  revert hused
  decide

end BebasOs.Process
