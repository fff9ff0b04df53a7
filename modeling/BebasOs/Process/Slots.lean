/-
What a creation, a destruction and a switch do to the slots of the process table. A creation that is not refused
writes into the first slot whose pid is zero, whether a process is in it or not, and goes on to take a
page directory, a frame and a read; a destruction clears the first slot with the pid, occupied or not.
-/
import BebasOs.Memory.Frames
import BebasOs.Process.Scheduler

namespace BebasOs.Process

open Bytes Search Memory Fat32

variable {π : Platform} {k k' : Kernel} {r : LoadRequest} {u : Unset} {i j : ℕ} {d : Fin 32} {c : UInt32} {code : Int}

/-! ## Slots -/

namespace Kernel

theorem pcb_setPcb (k : Kernel) (pcb : ProcessControlBlock) (hi : i < 16) (j : ℕ) :
    (k.setPcb i pcb).pcb j = if j = i then pcb else k.pcb j := cell_store _ _ _ hi

theorem pid_of_pcb (h : k'.pcb j = k.pcb j) : k'.pid j = k.pid j := by
  unfold pid
  rw [h]

end Kernel

theorem inactive_lt (h : processListGetInactiveIndex k = some i) : i < 16 ∧ k.pid i = 0 := by
  obtain ⟨-, h1, h2, -⟩ := first_eq_some.1 h
  exact ⟨h1, by simpa using h2⟩

/-! ## Creations -/

/-- The checks of a creation that come before it touches anything. -/
structure Admits (k : Kernel) (r : LoadRequest) : Prop where
  room : k.manager.activeProcessCount < 16
  entrypoint : r.address < kernelVirtualAddressBase
  frames : pagingAllocateCheck k.paging (pageFrameCountNeeded r) = true
  size : pageFrameCountNeeded r ≤ 8

/-- A creation that passes the checks goes into slot `i`. -/
structure Takes (k : Kernel) (r : LoadRequest) (i : ℕ) : Prop extends Admits k r where
  slot : processListGetInactiveIndex k = some i

theorem Takes.lt (h : Takes k r i) : i < 16 := (inactive_lt h.slot).1

/-- The executable can be read into a new page directory. -/
structure Loads (π : Platform) (k : Kernel) (r : LoadRequest) : Prop where
  directory : Bitmap.firstClear k.paging.pageDirectoryUsed ≠ none
  code : (read π k.fs r.toFAT32DriverRequest).code = 0

/-- The kernel once the read for slot `i` into directory `d` is done. -/
def loadedKernel (π : Platform) (k : Kernel) (i : ℕ) (d : Fin 32) (r : LoadRequest) (u : Unset) : Kernel :=
  (readExecutable π { enterMetadata k i r u with paging := opened k.paging d u.entry } (.list d) r).2

/-- The kernel after a successful creation in slot `i` with directory `d`. -/
def startedKernel (π : Platform) (k : Kernel) (i : ℕ) (d : Fin 32) (r : LoadRequest) (u : Unset) : Kernel :=
  startProcess (loadedKernel π k i d r u) k.cr3 i (.list d) r

/-- The four ways a creation ends. -/
inductive Creation (π : Platform) (k : Kernel) (r : LoadRequest) (u : Unset) : Int → Kernel → Prop
  | refused {code : Int} (hc : code ≠ 0) (h : ∀ i, ¬ Takes k r i) : Creation π k r u code k
  | noDirectory {i : ℕ} (h : Takes k r i) (hd : Bitmap.firstClear k.paging.pageDirectoryUsed = none) :
      Creation π k r u processCreateFailNotEnoughMemory (enterMetadata k i r u)
  | unread {i : ℕ} {d : Fin 32} {code : Int} (h : Takes k r i)
      (hd : Bitmap.firstClear k.paging.pageDirectoryUsed = some d.1)
      (hr : (read π k.fs r.toFAT32DriverRequest).code = code) (hc : code ≠ 0) :
      Creation π k r u code (loadedKernel π k i d r u)
  | started {i : ℕ} {d : Fin 32} (h : Takes k r i) (hd : Bitmap.firstClear k.paging.pageDirectoryUsed = some d.1)
      (hr : (read π k.fs r.toFAT32DriverRequest).code = 0) : Creation π k r u 0 (startedKernel π k i d r u)

/-- The checks are all that a creation asks for before it takes a slot. -/
theorem create_refused (h : ¬ Admits k r) : ∃ code, code ≠ 0 ∧ processCreateUserProcess π k r u = (code, k) := by
  unfold processCreateUserProcess
  split
  · exact ⟨_, by decide, rfl⟩
  split
  · exact ⟨_, by decide, rfl⟩
  split
  · exact ⟨_, by decide, rfl⟩
  · rename_i h1 h2 h3
    rw [Bool.or_eq_true, not_or, Bool.not_eq_true', Bool.not_eq_false, decide_eq_true_iff, UInt32.not_lt] at h3
    exact absurd ⟨by omega, UInt32.not_le.1 h2, h3.1, h3.2⟩ h

theorem create_admitted (h : Admits k r) : processCreateUserProcess π k r u =
    match processListGetInactiveIndex k with
    | none => (processCreateFailNoAvailableSlot, k)
    | some i =>
      match pagingCreateNewPageDirectory k.paging u.entry with
      | (none, paging) => (processCreateFailNotEnoughMemory, { enterMetadata k i r u with paging := paging })
      | (some pageDir, paging) =>
        let (retcode, k') := readExecutable π { enterMetadata k i r u with paging := paging } pageDir r
        if retcode ≠ processCreateSuccess then (retcode, k') else (retcode, startProcess k' k.cr3 i pageDir r) := by
  have h3 : (!pagingAllocateCheck k.paging (pageFrameCountNeeded r) || decide (8 < pageFrameCountNeeded r)) =
      false := by
    rw [h.frames, decide_eq_false (UInt32.not_lt.2 h.size)]
    rfl
  have hroom := h.room
  unfold processCreateUserProcess
  rw [if_neg (by omega), if_neg (UInt32.not_le.2 h.entrypoint), h3, if_neg Bool.false_ne_true]
  rfl

theorem create_spec (π : Platform) (k : Kernel) (r : LoadRequest) (u : Unset) :
    Creation π k r u (processCreateUserProcess π k r u).1 (processCreateUserProcess π k r u).2 := by
  by_cases hadmits : Admits k r
  · rw [create_admitted hadmits]
    rcases hi : processListGetInactiveIndex k with _ | i
    · have hc : processCreateFailNoAvailableSlot ≠ 0 := by decide
      refine .refused hc fun i h => ?_
      rw [h.slot] at hi
      cases hi
    -- from here on the slot is written, whatever the code
    have htakes : Takes k r i := ⟨hadmits, hi⟩
    rcases hd : Bitmap.firstClear k.paging.pageDirectoryUsed with _ | d
    · simp only [create_none _ hd]
      exact .noDirectory htakes hd
    · obtain ⟨hlt, -⟩ := Bitmap.firstClear_eq_some hd
      simp only [create_some (i := ⟨d, hlt⟩) _ hd]
      by_cases hr : (read π k.fs r.toFAT32DriverRequest).code = 0
      · have hnot : ¬ (readExecutable π { enterMetadata k i r u with paging := opened k.paging ⟨d, hlt⟩ u.entry }
            (.list ⟨d, hlt⟩) r).1 ≠ processCreateSuccess := fun h => h hr
        simp only [if_neg hnot]
        have h := Creation.started (d := ⟨d, hlt⟩) (u := u) htakes hd hr
        rw [← hr] at h
        exact h
      · have hne : (readExecutable π { enterMetadata k i r u with paging := opened k.paging ⟨d, hlt⟩ u.entry }
            (.list ⟨d, hlt⟩) r).1 ≠ processCreateSuccess := hr
        simp only [if_pos hne]
        exact .unread (d := ⟨d, hlt⟩) htakes hd rfl hr
  · obtain ⟨code, hc, h⟩ := create_refused (π := π) (u := u) hadmits
    rw [h]
    exact .refused hc fun i h => hadmits h.toAdmits

/-- What a successful creation does. -/
theorem create_success (h : processCreateUserProcess π k r u = (0, k')) : ∃ i d, Takes k r i ∧
    Bitmap.firstClear k.paging.pageDirectoryUsed = some d.1 ∧ k' = startedKernel π k i d r u := by
  have hspec := create_spec π k r u
  rw [h] at hspec
  generalize hk : (0, k').2 = k₁ at hspec
  have hk' : k' = k₁ := hk
  rw [hk']
  cases hspec with
  | refused hc _ => exact absurd rfl hc
  | unread _ _ _ hc => exact absurd rfl hc
  | @started i d ht hd _ => exact ⟨i, d, ht, hd, rfl⟩

/-- A creation that passes its checks, finds a directory and can read its executable succeeds. -/
theorem Takes.started (h : Takes k r i) (hd : Bitmap.firstClear k.paging.pageDirectoryUsed = some d.1)
    (hr : (read π k.fs r.toFAT32DriverRequest).code = 0) :
    processCreateUserProcess π k r u = (0, startedKernel π k i d r u) := by
  have hspec := create_spec π k r u
  obtain ⟨code, k', hc⟩ : ∃ code k', processCreateUserProcess π k r u = (code, k') := ⟨_, _, rfl⟩
  rw [hc] at hspec ⊢
  cases hspec with
  | refused _ hn => exact absurd h (hn i)
  | noDirectory _ hn =>
    rw [hd] at hn
    cases hn
  | unread _ _ hr' hn => exact absurd (hr'.symm.trans hr) hn
  | @started i' d' h' hd' _ =>
    obtain rfl : i = i' := Option.some.inj (h.slot.symm.trans h'.slot)
    obtain rfl : d = d' := Fin.ext (Option.some.inj (hd.symm.trans hd'))
    rfl

/-! ## Slots after a creation -/

/-- The metadata of a process created in the state. -/
def newMetadata (k : Kernel) (r : LoadRequest) (u : Unset) : ProcessControlBlock.Metadata :=
  ⟨k.manager.currentRunningPid, processName r u, .ready⟩

theorem pcb_enterMetadata (hi : i < 16) (j : ℕ) : (enterMetadata k i r u).pcb j =
    if j = i then { k.pcb i with metadata := newMetadata k r u } else k.pcb j := Kernel.pcb_setPcb k _ hi j

theorem pcb_loadedKernel (hi : i < 16) (j : ℕ) : (loadedKernel π k i d r u).pcb j =
    if j = i then { k.pcb i with metadata := newMetadata k r u } else k.pcb j := pcb_enterMetadata hi j

theorem pcb_startedKernel (hi : i < 16) (j : ℕ) : (startedKernel π k i d r u).pcb j =
    if j = i then { k.pcb i with
      metadata := newMetadata k r u
      context := { initialContext r.address with pageDirectoryVirtualAddr := some (.list d) } } else k.pcb j := by
  have h := pcb_loadedKernel (π := π) (d := d) (r := r) (u := u) (k := k) hi
  refine (Kernel.pcb_setPcb (loadedKernel π k i d r u) _ hi j).trans ?_
  by_cases hj : j = i
  · rw [if_pos hj, if_pos hj, h i, if_pos rfl]
  · rw [if_neg hj, if_neg hj, h j, if_neg hj]

theorem pid_enterMetadata (hi : i < 16) (j : ℕ) :
    (enterMetadata k i r u).pid j = if j = i then k.manager.currentRunningPid else k.pid j := by
  unfold Kernel.pid
  rw [pcb_enterMetadata hi]
  split <;> rfl

theorem pid_startedKernel (hi : i < 16) (j : ℕ) :
    (startedKernel π k i d r u).pid j = if j = i then k.manager.currentRunningPid else k.pid j := by
  unfold Kernel.pid
  rw [pcb_startedKernel hi]
  split <;> rfl

theorem occupied_startedKernel (hi : i < 16) (j : ℕ) :
    (startedKernel π k i d r u).occupied j = if j = i then true else k.occupied j := cell_store _ _ _ hi

theorem startedKernel_manager : (startedKernel π k i d r u).manager =
    ⟨store k.manager.processSlotOccupied i true, k.manager.activeProcessCount + 1,
      k.manager.currentRunningPid + 1⟩ := rfl

theorem startedKernel_fs : (startedKernel π k i d r u).fs = (read π k.fs r.toFAT32DriverRequest).machine := rfl

theorem startedKernel_paging : (startedKernel π k i d r u).paging =
    (pagingAllocateUserPageFrame (opened k.paging d u.entry) (.list d) r.address).2 := rfl

/-! ## Destructions -/

/-- The kernel after the process in slot `i` is destroyed. -/
def clearedKernel (k : Kernel) (i : ℕ) : Kernel :=
  { k.setPcb i zeroPcb with
    manager := { k.manager with
      processSlotOccupied := store k.manager.processSlotOccupied i false
      activeProcessCount := k.manager.activeProcessCount - 1 } }

/-- The first slot with a pid, occupied or not. -/
def slotOf (k : Kernel) (c : UInt32) : Option ℕ := first (fun i => k.pid i == c) 0 16

/-- The two ways a destruction ends. -/
inductive Destruction (k : Kernel) (c : UInt32) : Bool → Kernel → Prop
  | unknown (h : slotOf k c = none) : Destruction k c false k
  | cleared {i : ℕ} (h : slotOf k c = some i) : Destruction k c true (clearedKernel k i)

theorem destroy_spec (k : Kernel) (c : UInt32) : Destruction k c (processDestroy k c).1 (processDestroy k c).2 := by
  unfold processDestroy
  rcases h : first (fun i => k.pid i == c) 0 16 with _ | i
  · exact .unknown h
  · exact .cleared h

theorem destroy_of_slotOf (h : slotOf k c = some i) : processDestroy k c = (true, clearedKernel k i) := by
  unfold slotOf at h
  unfold processDestroy
  rw [h]
  rfl

theorem slotOf_some (h : slotOf k c = some i) : i < 16 ∧ k.pid i = c := by
  obtain ⟨-, h1, h2, -⟩ := first_eq_some.1 h
  exact ⟨h1, by simpa using h2⟩

theorem slotOf_none (h : slotOf k c = none) (hj : j < 16) : k.pid j ≠ c := by
  have := first_eq_none.1 h j (Nat.zero_le j) hj
  simpa using this

theorem pcb_clearedKernel (hi : i < 16) (j : ℕ) : (clearedKernel k i).pcb j = if j = i then zeroPcb else k.pcb j :=
  Kernel.pcb_setPcb k _ hi j

theorem pid_clearedKernel (hi : i < 16) (j : ℕ) : (clearedKernel k i).pid j = if j = i then 0 else k.pid j := by
  unfold Kernel.pid
  rw [pcb_clearedKernel hi]
  split <;> rfl

theorem occupied_clearedKernel (hi : i < 16) (j : ℕ) :
    (clearedKernel k i).occupied j = if j = i then false else k.occupied j := cell_store _ _ _ hi

/-! ## Switches -/

theorem nextOccupied_some {o : Vector Bool 16} {n : ℕ} {index start : UInt32}
    (h : nextOccupied o n start = some index) : index.toNat < 16 ∧ cell o index.toNat = true := by
  induction n generalizing start with
  | zero => cases h
  | succ n ih =>
    rw [nextOccupied] at h
    split at h
    · rename_i ho
      cases h
      refine ⟨?_, ho⟩
      rw [UInt32.toNat_mod]
      exact Nat.mod_lt _ (by decide)
    · exact ih h

theorem pcb_switchTo {index : UInt32} (hi : index.toNat < 16) (j : ℕ) : (switchTo k index).pcb j =
    if j = index.toNat then { k.pcb index.toNat with metadata.state := .running } else k.pcb j :=
  Kernel.pcb_setPcb k _ hi j

theorem pid_switchTo {index : UInt32} (hi : index.toNat < 16) (j : ℕ) : (switchTo k index).pid j = k.pid j := by
  unfold Kernel.pid
  rw [pcb_switchTo hi]
  split
  · subst_vars
    rfl
  · rfl

theorem context_switchTo {index : UInt32} (hi : index.toNat < 16) (j : ℕ) :
    ((switchTo k index).pcb j).context = (k.pcb j).context := by
  rw [pcb_switchTo hi]
  split
  · subst_vars
    rfl
  · rfl

/-- A switch goes to an occupied slot and loads its context. -/
theorem switch_spec {index : UInt32} {ctx : Context} (h : schedulerSwitchToNextProcess k = some (index, ctx, k')) :
    index.toNat < 16 ∧ k.occupied index.toNat = true ∧ ctx = (k.pcb index.toNat).context ∧ k' = switchTo k index := by
  unfold schedulerSwitchToNextProcess at h
  rw [Option.map_eq_some_iff] at h
  obtain ⟨i, h1, h2⟩ := h
  cases h2
  obtain ⟨h3, h4⟩ := nextOccupied_some h1
  exact ⟨h3, h4, rfl, rfl⟩

end BebasOs.Process
