/-
The process table over runs of creations, destructions and switches. The slots, their pids and the
counter form a table of keys, and for every operation it is said exactly when it keeps the table
consistent and answers for the processes that there are: no creation may go into a slot in use or
give a pid away twice, and no destruction may find a slot that is not in use.
-/
import BebasOs.Fat32.Kind
import BebasOs.Lib.KeyTable
import BebasOs.Process.Slots

namespace BebasOs.Process

open Bytes Search Memory Fat32 Relation

variable {π : Platform} {k k' : Kernel} {r : LoadRequest} {u : Unset} {i : ℕ} {c : UInt32}

/-! ## The table of the slots -/

/-- The occupied slots, the pids of all, and the counter. -/
def table (k : Kernel) : KeyTable (Fin 16) UInt32 where
  occupied := Finset.univ.filter fun i => k.occupied i.1 = true
  key i := k.pid i.1
  count := k.manager.activeProcessCount

theorem mem_table {x : Fin 16} : x ∈ (table k).occupied ↔ k.occupied x.1 = true := by
  unfold table
  simp

theorem table_key_update (hi : i < 16) (hp : ∀ j, k'.pid j = if j = i then c else k.pid j) :
    (table k').key = Function.update (table k).key ⟨i, hi⟩ c := by
  funext x
  rw [Function.update_apply]
  refine (hp x.1).trans ?_
  simp only [Fin.ext_iff]
  rfl

theorem table_rekey (hi : i < 16) (ho : ∀ j, k'.occupied j = k.occupied j)
    (hp : ∀ j, k'.pid j = if j = i then c else k.pid j)
    (hc : k'.manager.activeProcessCount = k.manager.activeProcessCount) :
    (table k).Rekey (table k') ⟨i, hi⟩ c where
  occupied := by
    ext x
    rw [mem_table, mem_table, ho]
  key := table_key_update hi hp
  count := hc

theorem table_enter (hi : i < 16) (ho : ∀ j, k'.occupied j = if j = i then true else k.occupied j)
    (hp : ∀ j, k'.pid j = if j = i then c else k.pid j)
    (hc : k'.manager.activeProcessCount = k.manager.activeProcessCount + 1) :
    (table k).Enter (table k') ⟨i, hi⟩ c where
  occupied := by
    ext x
    rw [Finset.mem_insert, mem_table, mem_table, ho, Fin.ext_iff]
    split <;> simp [*]
  key := table_key_update hi hp
  count := hc

theorem table_leave (hi : i < 16) (ho : ∀ j, k'.occupied j = if j = i then false else k.occupied j)
    (hp : ∀ j, k'.pid j = if j = i then c else k.pid j)
    (hc : k'.manager.activeProcessCount = k.manager.activeProcessCount - 1) :
    (table k).Leave (table k') ⟨i, hi⟩ c where
  occupied := by
    ext x
    rw [Finset.mem_erase, mem_table, mem_table, ho, ne_eq, Fin.ext_iff]
    split <;> simp [*]
  key := table_key_update hi hp
  count := hc

/-! ## Operations -/

/-- An operation on the process table. -/
inductive ProcessOp where
  | create (r : LoadRequest) (u : Unset)
  | destroy (pid : UInt32)
  | switch

/-- The kernel after an operation. -/
def performProcess (π : Platform) (k : Kernel) : ProcessOp → Option Kernel
  | .create r u => some (processCreateUserProcess π k r u).2
  | .destroy pid => some (processDestroy k pid).2
  | .switch => (schedulerSwitchToNextProcess k).map (·.2.2)

/-- A successful creation leaves the occupied slots as they are, and a destruction succeeds exactly when
an occupied slot has the pid. -/
def Truthful (π : Platform) (k : Kernel) : ProcessOp → Prop
  | .create r u => (processCreateUserProcess π k r u).1 = processCreateSuccess →
      ∀ j < 16, k.occupied j = true → (processCreateUserProcess π k r u).2.pcb j = k.pcb j
  | .destroy pid => (processDestroy k pid).1 = true ↔ ∃ j < 16, k.occupied j = true ∧ k.pid j = pid
  | .switch => True

/-- No occupied slot but `i` has the pid that the next process gets. -/
def FreshPid (k : Kernel) (i : ℕ) : Prop :=
  ∀ j < 16, k.occupied j = true → j ≠ i → k.pid j ≠ k.manager.currentRunningPid

/-- A creation that loads its executable goes into a slot that is not occupied, one that loads it or goes
into an occupied slot finds its pid unused, and a destruction finds an occupied slot if any. -/
def Fits (π : Platform) (k : Kernel) : ProcessOp → Prop
  | .create r _ => ∀ i, Takes k r i →
      (Loads π k r → k.occupied i = false) ∧ (Loads π k r ∨ k.occupied i = true → FreshPid k i)
  | .destroy pid => ∀ i, slotOf k pid = some i → k.occupied i = true
  | .switch => True

theorem freshFor_iff (hi : i < 16) :
    (table k).FreshFor ⟨i, hi⟩ k.manager.currentRunningPid ↔ FreshPid k i := by
  constructor
  · intro h j hj hoj hji
    exact h ⟨j, hj⟩ (mem_table.2 hoj) fun he => hji (Fin.mk.inj he)
  · intro h x hx hxi
    exact h x.1 x.2 (mem_table.1 hx) fun he => hxi (Fin.ext he)

theorem Takes.unique {i j : ℕ} (hi : Takes k r i) (hj : Takes k r j) : i = j :=
  Option.some.inj (hi.slot.symm.trans hj.slot)

/-- The condition on a creation whose slot is known. -/
theorem fits_create_iff (h : Takes k r i) : Fits π k (.create r u) ↔
    (Loads π k r → k.occupied i = false) ∧ (Loads π k r ∨ k.occupied i = true → FreshPid k i) := by
  refine ⟨fun hf => hf i h, fun hf j hj => ?_⟩
  obtain rfl := h.unique hj
  exact hf

/-! ## One step -/

/-- A creation that fails after its slot is found only gives the slot another pid. -/
theorem rekeyed_iff (ht : (table k).Consistent) (h : Takes k r i) (hl : ¬ Loads π k r)
    (hr : (table k).Rekey (table k') ⟨i, h.lt⟩ k.manager.currentRunningPid) :
    (table k').Consistent ↔ Fits π k (.create r u) := by
  rw [hr.consistent_iff ht, freshFor_iff h.lt, fits_create_iff h, mem_table]
  constructor
  · intro hf
    exact ⟨fun h => absurd h hl, fun h => hf (h.resolve_left hl)⟩
  · rintro ⟨-, hf⟩ ho
    exact hf (.inr ho)

/-- A successful creation keeps the table consistent exactly when its slot is free and its pid unused. -/
theorem started_consistent_iff {d : Fin 32} (ht : (table k).Consistent) (hi : i < 16) :
    (table (startedKernel π k i d r u)).Consistent ↔ k.occupied i = false ∧ FreshPid k i := by
  have hent : (table k).Enter (table (startedKernel π k i d r u)) ⟨i, hi⟩ k.manager.currentRunningPid :=
    table_enter hi (occupied_startedKernel hi) (pid_startedKernel hi) rfl
  rw [hent.consistent_iff ht, freshFor_iff hi, mem_table, Bool.not_eq_true]

/-- Clearing a slot keeps the table consistent exactly when the slot was occupied. -/
theorem cleared_consistent_iff (ht : (table k).Consistent) (hi : i < 16) :
    (table (clearedKernel k i)).Consistent ↔ k.occupied i = true := by
  have hleave : (table k).Leave (table (clearedKernel k i)) ⟨i, hi⟩ 0 :=
    table_leave hi (occupied_clearedKernel hi) (pid_clearedKernel hi) rfl
  rw [hleave.consistent_iff ht, mem_table]

theorem Creation.fits_iff {code : Int} (ht : (table k).Consistent) (h : Creation π k r u code k') :
    (table k').Consistent ∧ (code = processCreateSuccess → ∀ j < 16, k.occupied j = true → k'.pcb j = k.pcb j) ↔
      Fits π k (.create r u) := by
  -- a creation that fails is truthful
  have fails {k' : Kernel} {code : Int} {P : Prop} (hcode : code ≠ 0) (h : (table k').Consistent ↔ P) :
      (table k').Consistent ∧
        (code = processCreateSuccess → ∀ j < 16, k.occupied j = true → k'.pcb j = k.pcb j) ↔ P := by
    rw [← h]
    exact ⟨fun h => h.1, fun h => ⟨h, fun he => absurd he hcode⟩⟩
  cases h with
  | refused hcode h =>
    refine fails hcode ⟨fun _ i hi => absurd hi (h i), fun _ => ht⟩
  | @noDirectory i h hd =>
    refine fails (by decide) (rekeyed_iff ht h (fun hl => hl.directory hd) ?_)
    exact table_rekey h.lt (fun _ => rfl) (pid_enterMetadata h.lt) rfl
  | @unread i d _ h hd hr hc =>
    refine fails hc (rekeyed_iff ht h (fun hl => hc (hr.symm.trans hl.code)) ?_)
    exact table_rekey h.lt (fun _ => rfl) (pid_enterMetadata h.lt) rfl
  | @started i d h hd hr =>
    have hl : Loads π k r := ⟨fun hn => (by rw [hn] at hd; cases hd), hr⟩
    rw [started_consistent_iff ht h.lt, fits_create_iff h]
    constructor
    · rintro ⟨⟨ho, hf⟩, -⟩
      exact ⟨fun _ => ho, fun _ => hf⟩
    · rintro ⟨ho, hf⟩
      refine ⟨⟨ho hl, hf (.inl hl)⟩, fun _ j _ hoj => ?_⟩
      rw [pcb_startedKernel h.lt, if_neg]
      rintro rfl
      rw [ho hl] at hoj
      cases hoj

theorem Destruction.fits_iff {found : Bool} (ht : (table k).Consistent) (h : Destruction k c found k') :
    (table k').Consistent ∧ (found = true ↔ ∃ j < 16, k.occupied j = true ∧ k.pid j = c) ↔
      Fits π k (.destroy c) := by
  cases h with
  | unknown h =>
    refine ⟨fun _ i hi => ?_, fun _ => ⟨ht, ?_⟩⟩
    · rw [h] at hi
      cases hi
    · refine ⟨fun h => absurd h Bool.false_ne_true, ?_⟩
      rintro ⟨j, hj, -, hp⟩
      exact absurd hp (slotOf_none h hj)
  | @cleared i h =>
    obtain ⟨hi, hp⟩ := slotOf_some h
    have hfits : Fits π k (.destroy c) ↔ k.occupied i = true :=
      ⟨fun hf => hf i h, fun ho j hj => by rw [h] at hj; cases hj; exact ho⟩
    rw [cleared_consistent_iff ht hi, hfits]
    exact ⟨fun h => h.1, fun ho => ⟨ho, fun _ => ⟨i, hi, ho, hp⟩, fun _ => rfl⟩⟩

/-- After an operation on a consistent table the table is consistent, and the operation answered
truthfully, exactly when the operation fits. -/
theorem perform_iff {op : ProcessOp} (ht : (table k).Consistent) (h : performProcess π k op = some k') :
    (table k').Consistent ∧ Truthful π k op ↔ Fits π k op := by
  cases op with
  | create r u =>
    cases h
    exact (create_spec π k r u).fits_iff ht
  | destroy c =>
    cases h
    exact (destroy_spec k c).fits_iff ht
  | switch =>
    unfold performProcess at h
    rw [Option.map_eq_some_iff] at h
    obtain ⟨⟨index, ctx, k''⟩, h1, h2⟩ := h
    cases h2
    obtain ⟨hi, -, -, rfl⟩ := switch_spec h1
    refine ⟨fun _ => trivial, fun _ => ⟨?_, trivial⟩⟩
    -- a switch changes neither a pid nor an occupied slot
    have htable : table (switchTo k index) = table k := by
      unfold table
      simp only [pid_switchTo hi]
      rfl
    rw [htable]
    exact ht

/-! ## Runs -/

/-- An operation that fits is performed. -/
def ProcessStep (π : Platform) (k k' : Kernel) : Prop := ∃ op, Fits π k op ∧ performProcess π k op = some k'

theorem Kernel.Zeroed.pcb (h : k.Zeroed) (i : ℕ) : k.pcb i = zeroPcb := by
  unfold Kernel.pcb cell
  rw [h.processList]
  split
  · exact Vector.getElem_replicate _
  · rfl

theorem Kernel.Zeroed.occupied (h : k.Zeroed) (i : ℕ) : k.occupied i = false := by
  unfold Kernel.occupied cell
  rw [h.manager]
  split
  · exact Vector.getElem_replicate _
  · rfl

theorem Kernel.Zeroed.consistent (h : k.Zeroed) : (table k).Consistent := by
  have hnone : (table k).occupied = ∅ := by
    refine Finset.eq_empty_of_forall_notMem fun x hx => ?_
    rw [mem_table, h.occupied] at hx
    cases hx
  refine ⟨?_, ?_⟩
  · rw [hnone]
    show k.manager.activeProcessCount = 0
    rw [h.manager]
  · rw [hnone]
    simp

theorem run_tableConsistent {k₀ : Kernel} (h₀ : k₀.Zeroed) (h : ReflTransGen (ProcessStep π) k₀ k) :
    (table k).Consistent := by
  induction h with
  | refl => exact h₀.consistent
  | tail _ hstep ih =>
    obtain ⟨op, hf, hop⟩ := hstep
    exact ((perform_iff ih hop).2 hf).1

/-! ## A first process -/

/-- The kernel at start, over a file system. -/
def bootKernel (m : Machine) : Kernel where
  processList := Vector.replicate 16 zeroPcb
  manager := ⟨Vector.replicate 16 false, 0, 0⟩
  paging := initialPaging
  cr3 := some .kernel
  fs := m

theorem bootKernel_zeroed (m : Machine) : (bootKernel m).Zeroed := ⟨rfl, rfl⟩

/-- The request for a process that runs the file `a` at address 0. -/
def loadA : LoadRequest := { fileA with address := 0 }

def unsetZero : Unset := ⟨default, Vector.replicate 12 0⟩

theorem admits_loadA (hroom : k.manager.activeProcessCount < 16) (hfree : 2 ≤ k.paging.freePageFrameCount) :
    Admits k loadA where
  room := hroom
  entrypoint := by decide
  frames := decide_eq_true hfree
  size := by decide

theorem read_loadA (h : HoldsA k.fs) : (read zeroPlatform k.fs loadA.toFAT32DriverRequest).code = 0 := by
  refine read_code (by decide) h.resolves ?_ (by decide)
  show (k.fs.disk.slot 2 2).attributeByte ≠ 1
  rw [h.slot, newEntry_attribute]
  decide

/-- The kernel with one process, in slot 0. -/
def firstKernel (m : Machine) : Kernel := startedKernel zeroPlatform (bootKernel m) 0 0 loadA unsetZero

theorem takes_boot (m : Machine) : Takes (bootKernel m) loadA 0 where
  toAdmits := admits_loadA (by show (0 : Int) < 16; decide) (by show (2 : UInt32) ≤ 31; decide)
  slot := first_eq_some.2 ⟨Nat.le_refl 0, by decide, by
    show ((bootKernel m).pcb 0).metadata.pid == 0
    rw [(bootKernel_zeroed m).pcb]
    decide, fun j _ hj => absurd hj (Nat.not_lt_zero j)⟩

theorem loads_boot {m : Machine} (h : HoldsA m) : Loads zeroPlatform (bootKernel m) loadA where
  directory := by
    show Bitmap.firstClear initialPaging.pageDirectoryUsed ≠ none
    decide
  code := read_loadA (k := bootKernel m) h

theorem create_boot {m : Machine} (h : HoldsA m) :
    processCreateUserProcess zeroPlatform (bootKernel m) loadA unsetZero = (0, firstKernel m) :=
  (takes_boot m).started (i := 0) (by show Bitmap.firstClear initialPaging.pageDirectoryUsed = some 0; decide)
    (loads_boot h).code

theorem fits_boot (m : Machine) : Fits zeroPlatform (bootKernel m) (.create loadA unsetZero) := by
  have hnone := (bootKernel_zeroed m).occupied
  refine (fits_create_iff (takes_boot m)).2 ⟨fun _ => hnone 0, fun _ j _ hj => ?_⟩
  rw [hnone] at hj
  cases hj

theorem firstKernel_occupied (m : Machine) : (firstKernel m).occupied 0 = true := by
  unfold firstKernel
  rw [occupied_startedKernel (by decide), if_pos rfl]

theorem HoldsA.read {s : Machine} (h : HoldsA s) (r : FAT32DriverRequest) : HoldsA (read zeroPlatform s r).machine := by
  unfold Fat32.read
  rw [readLoaded_machine]
  exact ⟨h.wellFormed, h.tree, h.slot, h.unused, h.file, h.owns, h.free, h.resolves, h.data, h.memory⟩

/-- The kernel after a second creation, again in slot 0. -/
def secondKernel (m : Machine) : Kernel := startedKernel zeroPlatform (firstKernel m) 0 1 loadA unsetZero

theorem takes_first (m : Machine) : Takes (firstKernel m) loadA 0 where
  toAdmits := by
    refine admits_loadA ?_ ?_
    · rw [firstKernel, startedKernel_manager]
      show (0 : Int) + 1 < 16
      decide
    · rw [firstKernel, startedKernel_paging]
      rcases pagingAllocate_count (opened (bootKernel m).paging 0 unsetZero.entry) (.list 0) loadA.address with h | h
      · rw [h, opened_count]
        show (2 : UInt32) ≤ 31
        decide
      · rw [h, opened_count]
        show (2 : UInt32) ≤ 31 - 1
        decide
  slot := by
    refine first_eq_some.2 ⟨Nat.le_refl 0, by decide, ?_, fun j _ hj => absurd hj (Nat.not_lt_zero j)⟩
    rw [firstKernel, pid_startedKernel (by decide), if_pos rfl]
    rfl

theorem firstKernel_used (m : Machine) :
    (firstKernel m).paging.pageDirectoryUsed = store (Vector.replicate 32 false) 0 true := by
  rw [firstKernel, startedKernel_paging, pagingAllocate_used, opened_used]
  rfl

theorem create_first {m : Machine} (h : HoldsA m) :
    processCreateUserProcess zeroPlatform (firstKernel m) loadA unsetZero = (0, secondKernel m) := by
  have hread : HoldsA (firstKernel m).fs := by
    rw [firstKernel, startedKernel_fs]
    exact HoldsA.read h _
  have hd : Bitmap.firstClear (firstKernel m).paging.pageDirectoryUsed = some (1 : Fin 32).1 := by
    rw [firstKernel_used]
    decide
  exact (takes_first m).started hd (read_loadA hread)

/-! ## Every run -/

/-- From a zeroed table, as long as every operation fits, the counter counts the occupied slots, no two of
them share a pid, and every operation answers truthfully; the first operation that does not fit breaks it. -/
theorem run_table {k₀ : Kernel} (h₀ : k₀.Zeroed) (h : ReflTransGen (ProcessStep π) k₀ k) :
    (table k).Consistent ∧ ∀ op k', performProcess π k op = some k' →
      ((table k').Consistent ∧ Truthful π k op ↔ Fits π k op) := by
  have ht := run_tableConsistent h₀ h
  exact ⟨ht, fun op k' hop => perform_iff ht hop⟩

theorem run_table_first : ∃ m : Machine, ReflTransGen (ProcessStep zeroPlatform) (bootKernel m) (firstKernel m) ∧
    (table (firstKernel m)).Consistent := by
  obtain ⟨-, m, -, -, -, hm⟩ := exists_holdsA
  have hstep : performProcess zeroPlatform (bootKernel m) (.create loadA unsetZero) = some (firstKernel m) := by
    simp only [performProcess, create_boot hm]
  have hfirst : ProcessStep zeroPlatform (bootKernel m) (firstKernel m) := ⟨_, fits_boot m, hstep⟩
  have hrun := ReflTransGen.single hfirst
  exact ⟨m, hrun, (run_table (bootKernel_zeroed m) hrun).1⟩

/-- A process that there is not is destroyed, and a process is created in the slot of another. -/
theorem table_broken : ∃ m : Machine,
    (processDestroy (bootKernel m) 0).1 = true ∧ (∀ i, (bootKernel m).occupied i = false) ∧
      ¬ (table (processDestroy (bootKernel m) 0).2).Consistent ∧
    ∃ k, processCreateUserProcess zeroPlatform (firstKernel m) loadA unsetZero = (0, k) ∧
      (firstKernel m).occupied 0 = true ∧ k.pcb 0 ≠ (firstKernel m).pcb 0 ∧ ¬ (table k).Consistent := by
  obtain ⟨-, m, -, -, -, hm⟩ := exists_holdsA
  have hzero := bootKernel_zeroed m
  have hslot : slotOf (bootKernel m) 0 = some 0 := (takes_boot m).slot
  refine ⟨m, ?_, hzero.occupied, ?_, _, create_first hm, firstKernel_occupied m, ?_, ?_⟩
  · rw [destroy_of_slotOf hslot]
  · rw [destroy_of_slotOf hslot, cleared_consistent_iff hzero.consistent (by decide), hzero.occupied]
    decide
  · -- the second process has pid 1
    intro h
    have hpid : (secondKernel m).pid 0 = (firstKernel m).pid 0 := Kernel.pid_of_pcb h
    rw [secondKernel, pid_startedKernel (by decide), if_pos rfl, firstKernel, pid_startedKernel (by decide), if_pos rfl,
      startedKernel_manager] at hpid
    revert hpid
    show (0 : UInt32) + 1 = 0 → False
    decide
  · have hfirst : (table (firstKernel m)).Consistent := by
      refine (started_consistent_iff hzero.consistent (by decide)).2 ⟨hzero.occupied 0, fun j _ hj => ?_⟩
      rw [hzero.occupied] at hj
      cases hj
    rw [secondKernel, started_consistent_iff hfirst (by decide), firstKernel_occupied]
    rintro ⟨h, -⟩
    cases h

end BebasOs.Process
