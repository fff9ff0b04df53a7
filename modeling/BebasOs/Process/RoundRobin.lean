/-
The order of the switches. The search for the next slot is a search on a ring of 16 places, and a
switch leaves its slot as the place where the next search starts. So the occupied slots take turns.
-/
import BebasOs.Lib.Ring
import BebasOs.Process.Contexts

namespace BebasOs.Process

open Bytes Search Memory Fat32

variable {k k' : Kernel} {ctx loaded : Context} {index : UInt32}

/-! ## The search -/

/-- The slots in use. -/
def occupiedSlots (k : Kernel) : Finset ℕ := (Finset.range 16).filter fun i => k.occupied i = true

/-- Consecutive timer interrupts, each with the context it captures: the slots switched to and the kernel after the
last switch. -/
def ticks : List Context → Kernel → Option (List UInt32 × Kernel)
  | [], k => some ([], k)
  | ctx :: ctxs, k => do
    let (index, _, k) ← timerInterrupt k ctx
    let (indices, k) ← ticks ctxs k
    some (index :: indices, k)

/-- The rounds of the loop look at one place of the ring after another. -/
theorem nextOccupied_eq_find (o : Vector Bool 16) (n : ℕ) (start : UInt32) : (nextOccupied o n start).map UInt32.toNat =
    ((List.range n).map fun d => (start.toNat + 1 + d) % 16).find? (cell o) := by
  induction n generalizing start with
  | zero => rfl
  | succ n ih =>
    have hindex : ((start + 1) % 16).toNat = (start.toNat + 1) % 16 := by
      simp only [UInt32.toNat_mod, UInt32.toNat_add, UInt32.reduceToNat]
      omega
    -- the places of the rounds after the first, seen from the index of the first
    have hrest : ((List.range n).map Nat.succ).map (fun d => (start.toNat + 1 + d) % 16) =
        (List.range n).map fun d => (((start + 1) % 16).toNat + 1 + d) % 16 := by
      rw [List.map_map, hindex]
      refine List.map_congr_left fun d _ => ?_
      show (start.toNat + 1 + (d + 1)) % 16 = _
      omega
    rw [nextOccupied, List.range_succ_eq_map, List.map_cons, hrest, Nat.add_zero, ← hindex]
    by_cases ho : cell o ((start + 1) % 16).toNat = true
    · rw [if_pos ho, List.find?_cons_of_pos ho]
      rfl
    · rw [if_neg ho, List.find?_cons_of_neg ho]
      exact ih _

/-- The search of a switch is the search on the ring. -/
theorem nextOccupied_eq_next (o : Vector Bool 16) (start : UInt32) :
    (nextOccupied o 16 start).map UInt32.toNat = Ring.next (cell o) 16 start.toNat := by
  unfold Ring.next
  rw [nextOccupied_eq_find, Ring.round_eq_map]

theorem length_marked (k : Kernel) (i : ℕ) : (Ring.marked k.occupied 16 i).length = (occupiedSlots k).card := by
  rw [← List.toFinset_card_of_nodup Ring.nodup_marked]
  congr 1
  ext x
  rw [List.mem_toFinset, Ring.mem_marked, occupiedSlots, Finset.mem_filter, Finset.mem_range]

theorem mem_occupiedSlots {i : ℕ} : i ∈ occupiedSlots k ↔ i < 16 ∧ k.occupied i = true := by
  rw [occupiedSlots, Finset.mem_filter, Finset.mem_range]

/-! ## Switches -/

/-- Where there is an occupied slot, the search comes to one within a round. -/
theorem nextOccupied_total (h : (occupiedSlots k).Nonempty) (start : UInt32) :
    ∃ index, nextOccupied k.manager.processSlotOccupied 16 start = some index := by
  rcases hn : nextOccupied k.manager.processSlotOccupied 16 start with _ | index
  · have hring := nextOccupied_eq_next k.manager.processSlotOccupied start
    rw [hn] at hring
    have hempty := congrArg List.length (Ring.next_eq_none.1 hring.symm)
    rw [show Ring.marked (cell k.manager.processSlotOccupied) 16 start.toNat =
      Ring.marked k.occupied 16 start.toNat from rfl,
      length_marked] at hempty
    exact absurd (Finset.card_pos.2 h) (by rw [hempty]; simp)
  · exact ⟨index, rfl⟩

/-- A timer interrupt with an occupied slot: it switches to the next one, which the next search starts from, and leaves
the occupied slots as they are. -/
theorem tick_spec (h : (occupiedSlots k).Nonempty) (ctx : Context) : ∃ index loaded k',
    timerInterrupt k ctx = some (index, loaded, k') ∧
      Ring.next k.occupied 16 (startIndex k).toNat = some index.toNat ∧
      startIndex k' = index ∧ k'.occupied = k.occupied := by
  obtain ⟨index, hindex⟩ := nextOccupied_total h (startIndex k)
  have hmanager := save_manager k ctx
  have hring := nextOccupied_eq_next k.manager.processSlotOccupied (startIndex k)
  rw [hindex] at hring
  have hstart : startIndex (schedulerSaveContext k ctx) = startIndex k := by
    unfold startIndex
    rw [hmanager]
  refine ⟨index, ((schedulerSaveContext k ctx).pcb index.toNat).context,
    switchTo (schedulerSaveContext k ctx) index, ?_,
    hring.symm, ?_, ?_⟩
  · unfold timerInterrupt schedulerSwitchToNextProcess
    rw [hstart, hmanager, hindex]
    rfl
  · -- an index is no `NO_PROCESS_RUNNING`
    have hlt := (nextOccupied_some hindex).1
    show (if index = noProcessRunning then 0 else index) = index
    rw [if_neg]
    rintro rfl
    exact absurd hlt (by decide)
  · funext j
    exact occupied_save k ctx j

theorem occupiedSlots_congr (h : k'.occupied = k.occupied) : occupiedSlots k' = occupiedSlots k := by
  unfold occupiedSlots
  rw [h]

/-- Consecutive interrupts switch to the places of consecutive searches. -/
theorem ticks_eq_picks (h : (occupiedSlots k).Nonempty) (ctxs : List Context) : ∃ indices k',
    ticks ctxs k = some (indices, k') ∧ indices.length = ctxs.length ∧
      indices.map UInt32.toNat = Ring.picks k.occupied 16 ctxs.length (startIndex k).toNat := by
  induction ctxs generalizing k with
  | nil => exact ⟨[], k, rfl, rfl, rfl⟩
  | cons ctx ctxs ih =>
    obtain ⟨index, loaded, k₁, htick, hnext, hstart, hocc⟩ := tick_spec h ctx
    obtain ⟨indices, k', hticks, hlen, hpicks⟩ := ih (k := k₁) (by rwa [occupiedSlots_congr hocc])
    refine ⟨index :: indices, k', ?_, congrArg (· + 1) hlen, ?_⟩
    · rw [ticks, htick]
      simp only [Option.bind_eq_bind, Option.bind_some, hticks]
    · rw [List.map_cons, hpicks, List.length_cons, Ring.picks_succ hnext, hocc, hstart]

/-- Whatever the current pid is, the search comes to an occupied slot within 16 rounds; and of consecutive switches,
any as many as there are occupied slots go to each of them once. -/
theorem round_robin (h : (occupiedSlots k).Nonempty) :
    (∃ index, nextOccupied k.manager.processSlotOccupied 16 (startIndex k) = some index ∧
      index.toNat ∈ occupiedSlots k) ∧
    ∀ ctxs, ∃ indices k', ticks ctxs k = some (indices, k') ∧ indices.length = ctxs.length ∧
      ∀ w, w <:+: indices.map UInt32.toNat → w.length = (occupiedSlots k).card →
        ∀ i, w.count i = if i ∈ occupiedSlots k then 1 else 0 := by
  constructor
  · obtain ⟨index, hindex⟩ := nextOccupied_total h (startIndex k)
    exact ⟨index, hindex, mem_occupiedSlots.2 (nextOccupied_some hindex)⟩
  · intro ctxs
    obtain ⟨indices, k', hticks, hlength, hpicks⟩ := ticks_eq_picks h ctxs
    refine ⟨indices, k', hticks, hlength, fun w hw hlen i => ?_⟩
    rw [hpicks] at hw
    simp only [mem_occupiedSlots]
    exact Ring.count_of_infix hw (hlen.trans (length_marked k _).symm) i

/-- A kernel with processes in slots 0 and 2, after the creation of two. -/
def twoProcesses : Kernel :=
  { bootKernel (powerOn zeroDisk) with manager := ⟨store (store (Vector.replicate 16 false) 0 true) 2 true, 2, 2⟩ }

/-- Two processes: of three switches the first two go to both, and so do the last two. -/
theorem round_robin_two : ∃ indices k', ticks [default, default, default] twoProcesses = some (indices, k') ∧
    ∀ w, w <:+: indices.map UInt32.toNat → w.length = 2 → w.count 0 = 1 ∧ w.count 2 = 1 := by
  have hslots : occupiedSlots twoProcesses = {0, 2} := by decide
  have hcard : (occupiedSlots twoProcesses).card = 2 := by rw [hslots]; rfl
  have hnonempty : (occupiedSlots twoProcesses).Nonempty := Finset.card_pos.1 (by omega)
  obtain ⟨indices, k', hticks, -, hcount⟩ := (round_robin hnonempty).2 [default, default, default]
  refine ⟨indices, k', hticks, fun w hw hlen => ?_⟩
  have h := hcount w hw (hlen.trans hcard.symm)
  rw [h 0, h 2, hslots]
  simp

end BebasOs.Process
