/-
`scheduler.c` and the timer interrupt: the context of the interrupted process is saved, and the next
occupied slot of the process table is switched to. The search for it does not return when no slot is
occupied.
-/
import BebasOs.Process.Process

namespace BebasOs.Process

open Bytes Search Memory

def noProcessRunning : UInt32 := 0xFFFFFFFF

/-- `scheduler_save_context_to_current_running_pcb`. -/
def schedulerSaveContext (k : Kernel) (ctx : Context) : Kernel :=
  match processGetCurrentRunningPcb k with
  | none => k
  | some i =>
    let pcb := k.pcb i
    k.setPcb i { pcb with
      metadata.state := .ready
      context := { ctx with pageDirectoryVirtualAddr := pcb.context.pageDirectoryVirtualAddr } }

/-- The loop of `scheduler_switch_to_next_process`, at most `n` rounds of it. -/
def nextOccupied (processSlotOccupied : Vector Bool 16) : (n : ℕ) → (index : UInt32) → Option UInt32
  | 0, _ => none
  | n + 1, index =>
    let index := (index + 1) % 16
    if cell processSlotOccupied index.toNat then some index else nextOccupied processSlotOccupied n index

/-- The index the loop starts from. -/
def startIndex (k : Kernel) : UInt32 :=
  if k.manager.currentRunningPid = noProcessRunning then 0 else k.manager.currentRunningPid

/-- The kernel after a switch to a slot. -/
def switchTo (k : Kernel) (index : UInt32) : Kernel :=
  let pcb := k.pcb index.toNat
  { k.setPcb index.toNat { pcb with metadata.state := .running } with
    manager.currentRunningPid := index
    cr3 := pcb.context.pageDirectoryVirtualAddr }

/-- `scheduler_switch_to_next_process`: the slot switched to, the context loaded, and the kernel after it.
The index comes round after 16 rounds, so the loop finds a slot by then or never. -/
def schedulerSwitchToNextProcess (k : Kernel) : Option (UInt32 × Context × Kernel) :=
  (nextOccupied k.manager.processSlotOccupied 16 (startIndex k)).map fun index =>
    (index, (k.pcb index.toNat).context, switchTo k index)

/-- The timer branch of `main_interrupt_handler`. -/
def timerInterrupt (k : Kernel) (ctx : Context) : Option (UInt32 × Context × Kernel) :=
  schedulerSwitchToNextProcess (schedulerSaveContext k ctx)

end BebasOs.Process
