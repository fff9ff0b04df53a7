/-
The contexts of processes over runs of creations and timer interrupts. An interrupt saves what it
captured under the pid that is current, and a switch leaves the index of its slot as the current pid;
a slot resumes with what was captured last while it ran as long as the two name the same slot.
-/
import BebasOs.Process.Table

namespace BebasOs.Process

open Bytes Search Memory Fat32 Relation

variable {π : Platform} {k k' : Kernel} {r : LoadRequest} {u : Unset} {ctx loaded : Context} {index : UInt32} {i j : ℕ}

/-! ## What is due -/

/-- The part of a context that an interrupt captures and a switch loads. -/
structure Captured where
  cpu : CPURegister
  eip : UInt32
  eflags : UInt32
deriving DecidableEq, Inhabited

def Context.captured (c : Context) : Captured := ⟨c.cpu, c.eip, c.eflags⟩

/-- What has happened to the slots: the one switched to last, what was captured last while each ran, and
the context each was created with. -/
structure History where
  running : Option ℕ
  captured : ℕ → Option Captured
  initial : ℕ → Captured

namespace History

/-- Nothing has happened. -/
def start : History := ⟨none, fun _ => none, fun _ => default⟩

/-- A process is created in slot `i`. -/
def created (η : History) (i : ℕ) (entryPoint : UInt32) : History :=
  { η with initial := Function.update η.initial i (initialContext entryPoint).captured }

/-- A timer interrupt captures `ctx` and ends with a switch to slot `i`. -/
def ticked (η : History) (ctx : Context) (i : ℕ) : History :=
  { η with
    running := some i
    captured := match η.running with
      | none => η.captured
      | some j => Function.update η.captured j (some ctx.captured) }

/-- What slot `i` is to be loaded with: what was captured last while it ran, else its initial context. -/
def due (η : History) (i : ℕ) : Captured := (η.captured i).getD (η.initial i)

theorem due_created {η : History} (h : η.captured i = none) (entryPoint : UInt32) (j : ℕ) :
    (η.created i entryPoint).due j = if j = i then (initialContext entryPoint).captured else η.due j := by
  unfold due created
  by_cases hj : j = i
  · subst hj
    simp [h]
  · simp [hj]

theorem due_ticked_none {η : History} (h : η.running = none) (ctx : Context) (i j : ℕ) :
    (η.ticked ctx i).due j = η.due j := by
  unfold due ticked
  simp only [h]

theorem due_ticked_some {η : History} {s : ℕ} (h : η.running = some s) (ctx : Context) (i j : ℕ) :
    (η.ticked ctx i).due j = if j = s then ctx.captured else η.due j := by
  unfold due ticked
  simp only [h]
  by_cases hj : j = s
  · simp [hj]
  · simp [hj]

end History

variable {η η' : History}

/-- Every occupied slot holds what it is due, and only the slot that runs is in the state RUNNING. -/
structure Kept (k : Kernel) (η : History) : Prop where
  stored : ∀ i < 16, k.occupied i = true → (k.pcb i).context.captured = η.due i
  state : ∀ i < 16, (k.pcb i).metadata.state = .running → η.running = some i
  running : ∀ i, η.running = some i → i < 16 ∧ k.occupied i = true

/-! ## Saving -/

theorem saved_some (h : processGetCurrentRunningPcb k = some i) : i < 16 ∧ k.occupied i = true := by
  obtain ⟨-, h1, h2, -⟩ := first_eq_some.1 h
  rw [Bool.and_eq_true] at h2
  exact ⟨h1, h2.1⟩

theorem save_none (ctx : Context) (h : processGetCurrentRunningPcb k = none) : schedulerSaveContext k ctx = k := by
  unfold schedulerSaveContext
  rw [h]

theorem pcb_save (ctx : Context) (h : processGetCurrentRunningPcb k = some i) (j : ℕ) :
    ((schedulerSaveContext k ctx).pcb j).context.captured =
      (if j = i then ctx.captured else (k.pcb j).context.captured) ∧
    ((schedulerSaveContext k ctx).pcb j).metadata.state = if j = i then .ready else (k.pcb j).metadata.state := by
  unfold schedulerSaveContext
  simp only [h]
  rw [Kernel.pcb_setPcb _ _ (saved_some h).1]
  split
  · exact ⟨rfl, rfl⟩
  · exact ⟨rfl, rfl⟩

theorem occupied_save (k : Kernel) (ctx : Context) (j : ℕ) :
    (schedulerSaveContext k ctx).occupied j = k.occupied j := by
  unfold schedulerSaveContext
  split <;> rfl

/-! ## One step -/

/-- A process created in a slot that was never interrupted while it ran is due its initial context. -/
theorem Kept.created (h : Kept k η) (hi : processListGetInactiveIndex k = some i) (hc : η.captured i = none)
    (hk : processCreateUserProcess π k r u = (0, k')) : Kept k' (η.created i r.address) := by
  obtain ⟨i', d, ht, -, rfl⟩ := create_success hk
  obtain rfl : i' = i := Option.some.inj (ht.slot.symm.trans hi)
  have hpcb := pcb_startedKernel (π := π) (d := d) (r := r) (u := u) (k := k) ht.lt
  refine ⟨fun j hj ho => ?_, fun j hj hs => ?_, fun j hj => ?_⟩
  · -- the new slot holds its initial context, the others what they held
    rw [hpcb, History.due_created hc]
    split
    · rfl
    · rw [occupied_startedKernel ht.lt, if_neg ‹_›] at ho
      exact h.stored j hj ho
  · rw [hpcb] at hs
    split at hs
    · cases hs
    · exact h.state j hj hs
  · obtain ⟨h1, h2⟩ := h.running j hj
    refine ⟨h1, ?_⟩
    rw [occupied_startedKernel ht.lt]
    split
    · rfl
    · exact h2

/-- A switch loads what is stored, and the slot switched to is the one that runs. -/
theorem Kept.switched (hi : index.toNat < 16) (ho : k.occupied index.toNat = true)
    (hstored : ∀ j < 16, k.occupied j = true → (k.pcb j).context.captured = (η.ticked ctx index.toNat).due j)
    (hstate : ∀ j < 16, (k.pcb j).metadata.state ≠ .running) : Kept (switchTo k index) (η.ticked ctx index.toNat) := by
  refine ⟨fun j hj hoj => ?_, fun j hj hs => ?_, fun j hj => ?_⟩
  · rw [← hstored j hj hoj, context_switchTo hi]
  · rw [pcb_switchTo hi] at hs
    split at hs
    · subst_vars
      rfl
    · exact absurd hs (hstate j hj)
  · obtain rfl : index.toNat = j := Option.some.inj hj
    exact ⟨hi, ho⟩

/-- What a save into the slot that runs, or into none when none runs, leaves in the slots. -/
theorem Kept.saved (h : Kept k η) (hr : processGetCurrentRunningPcb k = η.running) (ctx : Context) (next : ℕ) :
    (∀ j < 16, k.occupied j = true →
      ((schedulerSaveContext k ctx).pcb j).context.captured = (η.ticked ctx next).due j) ∧
    ∀ j < 16, ((schedulerSaveContext k ctx).pcb j).metadata.state ≠ .running := by
  rcases hrun : η.running with _ | s
  · rw [hrun] at hr
    rw [save_none ctx hr]
    refine ⟨fun j hj hoj => ?_, fun j hj hs => ?_⟩
    · rw [History.due_ticked_none hrun]
      exact h.stored j hj hoj
    · have := h.state j hj hs
      rw [hrun] at this
      cases this
  · rw [hrun] at hr
    refine ⟨fun j hj hoj => ?_, fun j hj hs => ?_⟩
    · rw [(pcb_save ctx hr j).1, History.due_ticked_some hrun]
      split
      · rfl
      · exact h.stored j hj hoj
    · rw [(pcb_save ctx hr j).2] at hs
      split at hs
      · cases hs
      · -- only the slot that runs was in the state RUNNING
        have := h.state j hj hs
        rw [hrun] at this
        exact absurd (Option.some.inj this).symm ‹_›

/-- An interrupt that saves into the slot that runs, or into none when none runs, keeps every context. -/
theorem Kept.ticked (h : Kept k η) (hr : processGetCurrentRunningPcb k = η.running)
    (ht : timerInterrupt k ctx = some (index, loaded, k')) :
    Kept k' (η.ticked ctx index.toNat) ∧ loaded.captured = (η.ticked ctx index.toNat).due index.toNat := by
  obtain ⟨hi, ho, rfl, rfl⟩ := switch_spec ht
  rw [occupied_save] at ho
  -- the switch comes after the save and changes no context
  obtain ⟨hstored, hstate⟩ := h.saved hr ctx index.toNat
  refine ⟨Kept.switched hi (by rw [occupied_save]; exact ho) (fun j hj hoj => ?_) hstate, hstored _ hi ho⟩
  rw [occupied_save] at hoj
  exact hstored j hj hoj

/-- For every capture there is one that differs. -/
theorem exists_captured_ne (c : Captured) : ∃ ctx : Context, ctx.captured ≠ c := by
  refine ⟨⟨c.cpu, c.eip + 1, c.eflags, none⟩, fun he => ?_⟩
  have heip : c.eip + 1 = c.eip := congrArg Captured.eip he
  simp at heip

/-- An interrupt leaves the contexts as the save left them, and the occupied slots as they were. -/
theorem slots_of_tick (ht : timerInterrupt k ctx = some (index, loaded, k')) (j : ℕ) :
    k'.occupied j = k.occupied j ∧
      (k'.pcb j).context.captured = ((schedulerSaveContext k ctx).pcb j).context.captured := by
  obtain ⟨hi, -, -, rfl⟩ := switch_spec ht
  exact ⟨occupied_save k ctx j, by rw [context_switchTo hi]⟩

/-- An interrupt that saves anywhere else can lose a context. -/
theorem Kept.lost (h : Kept k η) (hr : processGetCurrentRunningPcb k ≠ η.running) : ∃ ctx, ∀ index loaded k',
    timerInterrupt k ctx = some (index, loaded, k') → ∃ i < 16, k'.occupied i = true ∧
      (k'.pcb i).context.captured ≠ (η.ticked ctx index.toNat).due i := by
  rcases hsave : processGetCurrentRunningPcb k with _ | s
  · -- nothing is saved, although a process runs
    rcases hrun : η.running with _ | s
    · rw [hsave, hrun] at hr
      exact absurd rfl hr
    · obtain ⟨hs, hos⟩ := h.running s hrun
      obtain ⟨ctx, hctx⟩ := exists_captured_ne (k.pcb s).context.captured
      refine ⟨ctx, fun index loaded k' ht => ⟨s, hs, (slots_of_tick ht s).1.trans hos, ?_⟩⟩
      rw [(slots_of_tick ht s).2, save_none ctx hsave, History.due_ticked_some hrun, if_pos rfl]
      exact hctx.symm
  · -- what is captured goes to a process that does not run
    obtain ⟨hs, hos⟩ := saved_some hsave
    obtain ⟨ctx, hctx⟩ := exists_captured_ne (η.due s)
    refine ⟨ctx, fun index loaded k' ht => ⟨s, hs, (slots_of_tick ht s).1.trans hos, ?_⟩⟩
    have hdue : (η.ticked ctx index.toNat).due s = η.due s := by
      rcases hrun : η.running with _ | j
      · exact History.due_ticked_none hrun ctx index.toNat s
      · rw [History.due_ticked_some hrun, if_neg]
        rintro rfl
        rw [hsave, hrun] at hr
        exact hr rfl
    rw [(slots_of_tick ht s).2, (pcb_save ctx hsave s).1, if_pos rfl, hdue]
    exact hctx

/-! ## Runs -/

/-- A process is created in a slot that was not interrupted while it ran, or a timer interrupt comes while
the current pid is that of the slot that runs, and of no process if none runs. -/
inductive ContextStep (π : Platform) : Kernel × History → Kernel × History → Prop
  | created {k k' : Kernel} {η : History} {r : LoadRequest} {u : Unset} {i : ℕ}
      (hk : processCreateUserProcess π k r u = (0, k')) (hi : processListGetInactiveIndex k = some i)
      (hc : η.captured i = none) : ContextStep π (k, η) (k', η.created i r.address)
  | ticked {k k' : Kernel} {η : History} {ctx loaded : Context} {index : UInt32}
      (ht : timerInterrupt k ctx = some (index, loaded, k')) (hr : processGetCurrentRunningPcb k = η.running) :
      ContextStep π (k, η) (k', η.ticked ctx index.toNat)

theorem Kernel.Zeroed.kept (h : k.Zeroed) : Kept k .start where
  stored i _ ho := by
    rw [h.occupied] at ho
    cases ho
  state i _ hs := by
    rw [h.pcb] at hs
    cases hs
  running i hr := by cases hr

theorem run_kept {k₀ : Kernel} (h₀ : k₀.Zeroed) (h : ReflTransGen (ContextStep π) (k₀, .start) (k, η)) : Kept k η := by
  generalize hx : (k, η) = x at h
  induction h generalizing k η with
  | refl =>
    cases hx
    exact h₀.kept
  | @tail y z _ hstep ih =>
    subst hx
    cases hstep with
    | created hk hi hc => exact (ih rfl).created hi hc hk
    | ticked ht hr => exact ((ih rfl).ticked hr ht).1

/-! ## One slot -/

/-- Slot 0 alone is occupied. -/
def onlyFirst : Vector Bool 16 := store (Vector.replicate 16 false) 0 true

theorem occupied_onlyFirst (h : k.manager.processSlotOccupied = onlyFirst) (j : ℕ) :
    k.occupied j = true ↔ j = 0 := by
  unfold Kernel.occupied
  rw [h, onlyFirst, cell_store _ _ _ (by decide)]
  split
  · simp [*]
  · refine ⟨fun h => ?_, fun h => absurd h ‹_›⟩
    unfold cell at h
    split at h
    · rw [Vector.getElem_replicate] at h
      cases h
    · cases h

/-- With slot 0 alone, the context is saved there exactly when its pid is the current one. -/
theorem saved_onlyFirst (h : k.manager.processSlotOccupied = onlyFirst) :
    processGetCurrentRunningPcb k = if k.pid 0 = k.manager.currentRunningPid then some 0 else none := by
  split
  · rename_i hp
    refine first_eq_some.2 ⟨Nat.le_refl 0, by decide, ?_, fun j _ hj => absurd hj (Nat.not_lt_zero j)⟩
    rw [(occupied_onlyFirst h 0).2 rfl, hp]
    simp
  · rename_i hp
    refine first_eq_none.2 fun j _ _ => ?_
    by_cases hj : j = 0
    · subst hj
      simp [hp]
    · have hoj : k.occupied j = false := by
        rw [← Bool.not_eq_true, occupied_onlyFirst h]
        exact hj
      rw [hoj]
      rfl

theorem save_manager (k : Kernel) (ctx : Context) : (schedulerSaveContext k ctx).manager = k.manager := by
  unfold schedulerSaveContext
  split <;> rfl

/-- With slot 0 alone, the switch goes to it, wherever the search starts. -/
theorem tick_onlyFirst (ctx : Context) (h : k.manager.processSlotOccupied = onlyFirst)
    (hc : k.manager.currentRunningPid < 3) : timerInterrupt k ctx =
      some (0, ((schedulerSaveContext k ctx).pcb 0).context, switchTo (schedulerSaveContext k ctx) 0) := by
  have hstart (c : UInt32) (hc : c < 3) :
      nextOccupied onlyFirst 16 (if c = noProcessRunning then 0 else c) = some 0 := by
    obtain rfl | rfl | rfl : c = 0 ∨ c = 1 ∨ c = 2 := by
      have hlt : c.toNat < 3 := hc
      simp only [← UInt32.toNat_inj]
      show c.toNat = 0 ∨ c.toNat = 1 ∨ c.toNat = 2
      omega
    · decide
    · decide
    · decide
  unfold timerInterrupt schedulerSwitchToNextProcess startIndex
  rw [save_manager, h, hstart _ hc]
  rfl

theorem firstKernel_pid (m : Machine) : (firstKernel m).pid 0 = 0 := by
  rw [firstKernel, pid_startedKernel (by decide), if_pos rfl]
  rfl

theorem firstKernel_manager (m : Machine) : (firstKernel m).manager = ⟨onlyFirst, 1, 1⟩ := by
  rw [firstKernel, startedKernel_manager]
  rfl

theorem secondKernel_manager (m : Machine) : (secondKernel m).manager = ⟨onlyFirst, 2, 2⟩ := by
  have h : store onlyFirst 0 true = onlyFirst := by decide
  rw [secondKernel, startedKernel_manager, firstKernel_manager, h]
  rfl

theorem secondKernel_pid (m : Machine) : (secondKernel m).pid 0 = 1 := by
  rw [secondKernel, pid_startedKernel (by decide), if_pos rfl, firstKernel_manager]

/-- The first interrupt after the creations: nothing is saved, and slot 0 is switched to. -/
theorem tick_unsaved (ctx : Context) (h : k.manager.processSlotOccupied = onlyFirst)
    (hc : k.manager.currentRunningPid < 3) (hp : k.pid 0 ≠ k.manager.currentRunningPid) :
    processGetCurrentRunningPcb k = none ∧ timerInterrupt k ctx = some (0, (k.pcb 0).context, switchTo k 0) := by
  have hnone : processGetCurrentRunningPcb k = none := by rw [saved_onlyFirst h, if_neg hp]
  refine ⟨hnone, ?_⟩
  rw [tick_onlyFirst ctx h hc, save_none ctx hnone]

/-! ## Every run -/

/-- From a zeroed table, in a run of creations and interrupts that meet the condition, at most one process
is in the state RUNNING, and the next interrupt that meets the condition loads what is due; one that does not
meet it can leave a process with another context. -/
theorem run_contexts {k₀ : Kernel} (h₀ : k₀.Zeroed) (h : ReflTransGen (ContextStep π) (k₀, .start) (k, η)) :
    (∀ i < 16, ∀ j < 16, (k.pcb i).metadata.state = .running → (k.pcb j).metadata.state = .running → i = j) ∧
    (processGetCurrentRunningPcb k = η.running → ∀ ctx index loaded k',
      timerInterrupt k ctx = some (index, loaded, k') → loaded.captured = (η.ticked ctx index.toNat).due index.toNat) ∧
    (processGetCurrentRunningPcb k ≠ η.running → ∃ ctx, ∀ index loaded k',
      timerInterrupt k ctx = some (index, loaded, k') → ∃ i < 16, k'.occupied i = true ∧
        (k'.pcb i).context.captured ≠ (η.ticked ctx index.toNat).due i) := by
  have hk := run_kept h₀ h
  refine ⟨fun i hi j hj hsi hsj => ?_, fun hr ctx index loaded k' ht => (hk.ticked hr ht).2, hk.lost⟩
  exact Option.some.inj ((hk.state i hi hsi).symm.trans (hk.state j hj hsj))

theorem run_contexts_first : ∃ (m : Machine) (k : Kernel) (η : History),
    ReflTransGen (ContextStep zeroPlatform) (bootKernel m, .start) (k, η) ∧
    ∀ ctx, ∃ loaded k', timerInterrupt k ctx = some (0, loaded, k') ∧ loaded.captured = ctx.captured := by
  obtain ⟨-, m, -, -, -, hm⟩ := exists_holdsA
  have hman := firstKernel_manager m
  have hpid := firstKernel_pid m
  obtain ⟨hnone, htick⟩ := tick_unsaved (k := firstKernel m) default (by rw [hman]) (by rw [hman]; decide)
    (by rw [hman, hpid]; decide)
  have hcreate : ContextStep zeroPlatform (bootKernel m, .start)
      (firstKernel m, History.start.created 0 loadA.address) :=
    .created (create_boot hm) (takes_boot m).slot rfl
  have hrun := (ReflTransGen.single hcreate).tail (.ticked htick hnone)
  -- the process runs now, and its pid is the current one
  have hocc : (switchTo (firstKernel m) 0).manager.processSlotOccupied = onlyFirst :=
    congrArg (·.processSlotOccupied) hman
  have hsaved : processGetCurrentRunningPcb (switchTo (firstKernel m) 0) = some 0 := by
    rw [saved_onlyFirst hocc, if_pos]
    exact (pid_switchTo (by decide) 0).trans hpid
  refine ⟨m, _, _, hrun, fun ctx => ⟨_, _, tick_onlyFirst ctx hocc ?_, ?_⟩⟩
  · show (0 : UInt32) < 3
    decide
  · refine ((run_contexts (bootKernel_zeroed m) hrun).2.1 hsaved ctx 0 _ _ (tick_onlyFirst ctx hocc ?_)).trans ?_
    · show (0 : UInt32) < 3
      decide
    · rw [History.due_ticked_some rfl, if_pos rfl]

/-- Of two processes the second takes the slot of the first, and what an interrupt captures while it runs is
not what the switch back to it loads. -/
theorem context_lost : ∃ m k₁ k₂ k₃ k₄ c loaded ctx,
    processCreateUserProcess zeroPlatform (bootKernel m) loadA unsetZero = (0, k₁) ∧
    processCreateUserProcess zeroPlatform k₁ loadA unsetZero = (0, k₂) ∧
    timerInterrupt k₂ default = some (0, c, k₃) ∧ timerInterrupt k₃ ctx = some (0, loaded, k₄) ∧
    loaded.captured ≠ ctx.captured := by
  obtain ⟨-, m, -, -, -, hm⟩ := exists_holdsA
  have hman := secondKernel_manager m
  have hpid := secondKernel_pid m
  obtain ⟨-, htick⟩ := tick_unsaved (k := secondKernel m) default (by rw [hman]) (by rw [hman]; decide)
    (by rw [hman, hpid]; decide)
  have hocc : (switchTo (secondKernel m) 0).manager.processSlotOccupied = onlyFirst :=
    congrArg (·.processSlotOccupied) hman
  have hpid' : (switchTo (secondKernel m) 0).pid 0 ≠ (switchTo (secondKernel m) 0).manager.currentRunningPid := by
    rw [pid_switchTo (by decide), hpid]
    show (1 : UInt32) ≠ 0
    decide
  obtain ⟨-, htick'⟩ := tick_unsaved { (default : Context) with eip := 1 } hocc (by show (0 : UInt32) < 3; decide) hpid'
  refine ⟨m, firstKernel m, secondKernel m, _, _, _, _, _, create_boot hm, create_first hm, htick, htick', fun h => ?_⟩
  -- the entry point is loaded again
  rw [context_switchTo (by decide), secondKernel, pcb_startedKernel (by decide), if_pos rfl] at h
  have heip := congrArg Captured.eip h
  revert heip
  show (0 : UInt32) = 1 → False
  decide

end BebasOs.Process
