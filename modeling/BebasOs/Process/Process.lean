/-
`process.c`: the process table and the creation and destruction of processes, as the code computes
them. Creation goes through the page directories and reads the executable from the file system; where
it puts the executable's bytes is the memory of the new process, which is not modelled here.
-/
import BebasOs.Fat32.Driver
import BebasOs.Memory.Paging
import BebasOs.Stdlib.String

namespace BebasOs.Process

open Bytes Search Memory Fat32

/-! ## State -/

structure CPURegister.Index where
  edi : UInt32
  esi : UInt32
deriving DecidableEq, Inhabited

structure CPURegister.Stack where
  ebp : UInt32
  esp : UInt32
deriving DecidableEq, Inhabited

structure CPURegister.General where
  ebx : UInt32
  edx : UInt32
  ecx : UInt32
  eax : UInt32
deriving DecidableEq, Inhabited

structure CPURegister.Segment where
  gs : UInt32
  fs : UInt32
  es : UInt32
  ds : UInt32
deriving DecidableEq, Inhabited

structure CPURegister where
  index : CPURegister.Index
  stack : CPURegister.Stack
  general : CPURegister.General
  segment : CPURegister.Segment
deriving DecidableEq, Inhabited

/-- `struct Context`; a null `page_directory_virtual_addr` is `none`. -/
structure Context where
  cpu : CPURegister
  eip : UInt32
  eflags : UInt32
  pageDirectoryVirtualAddr : Option PageDirectoryPtr
deriving DecidableEq, Inhabited

/-- `PROCESS_STATE`. -/
inductive ProcessState where
  | noProcess
  | ready
  | running
  | blocked
deriving DecidableEq, Inhabited

structure ProcessControlBlock.Metadata where
  pid : UInt32
  name : Vector UInt8 32
  state : ProcessState
deriving DecidableEq, Inhabited

/-- `struct ProcessControlBlock`; of `memory` only `page_frame_used_count` is ever read. -/
structure ProcessControlBlock where
  metadata : ProcessControlBlock.Metadata
  context : Context
  pageFrameUsedCount : UInt32
deriving DecidableEq, Inhabited

structure ProcessManagerState where
  processSlotOccupied : Vector Bool 16
  activeProcessCount : Int
  currentRunningPid : UInt32
deriving DecidableEq

/-- The kernel's state: the process table, the page directories, the one that `CR3` holds, and the file
system. -/
structure Kernel where
  processList : Vector ProcessControlBlock 16
  manager : ProcessManagerState
  paging : PagingState
  cr3 : Option PageDirectoryPtr
  fs : Machine

/-- `struct FAT32DriverRequest` with the address in its `buf`. -/
structure LoadRequest extends FAT32DriverRequest where
  address : UInt32

/-- What a creation reads without having set it: the bits of a new kernel entry, and the bytes behind the
request, up to which `strncpy` may copy. -/
structure Unset where
  entry : PageDirectoryEntry
  tail : Vector UInt8 12

/-- A process control block of zeros, as `memset` leaves it. -/
def zeroPcb : ProcessControlBlock := default

namespace Kernel

/-- `_process_list[i]`. -/
def pcb (k : Kernel) (i : ℕ) : ProcessControlBlock := cell k.processList i

/-- `_process_list[i].metadata.pid`. -/
def pid (k : Kernel) (i : ℕ) : UInt32 := (k.pcb i).metadata.pid

/-- `process_manager_state.process_slot_occupied[i]`. -/
def occupied (k : Kernel) (i : ℕ) : Bool := cell k.manager.processSlotOccupied i

def setPcb (k : Kernel) (i : ℕ) (pcb : ProcessControlBlock) : Kernel :=
  { k with processList := store k.processList i pcb }

/-- The process table is zero. -/
structure Zeroed (k : Kernel) : Prop where
  processList : k.processList = Vector.replicate 16 zeroPcb
  manager : k.manager = ⟨Vector.replicate 16 false, 0, 0⟩

end Kernel

/-! ## Return codes -/

def processCreateSuccess : Int := 0

def processCreateFailMaxProcessExceeded : Int := 1

def processCreateFailInvalidEntrypoint : Int := 2

def processCreateFailNotEnoughMemory : Int := 3

def processCreateFailNoAvailableSlot : Int := 5

/-! ## Creation -/

def ceilDiv (numerator denominator : UInt32) : UInt32 := (numerator + denominator - 1) / denominator

def processListGetInactiveIndex (k : Kernel) : Option ℕ := first (fun i => k.pid i == 0) 0 16

/-- The bytes from `request.name` on. -/
def nameBytes (r : LoadRequest) (u : Unset) : List UInt8 :=
  r.name.toList ++ r.ext.toList ++ (u32 r.parentClusterNumber).toList ++ (u32 r.bufferSize).toList ++ u.tail.toList

/-- The name of a process: 31 bytes copied by `strncpy` and a null byte. -/
def processName (r : LoadRequest) (u : Unset) : Vector UInt8 32 :=
  Vector.ofFn fun j => (strncpy (nameBytes r u) 31).getD j.1 0

def userDataSegmentSelector : UInt32 := 0x23

def cpuStack : UInt32 := 0x400000 - 4

/-- `process_initialize_context`, the context it leaves. -/
def initialContext (entryPoint : UInt32) : Context :=
  { (default : Context) with
    eip := entryPoint
    cpu.segment := ⟨userDataSegmentSelector, userDataSegmentSelector, userDataSegmentSelector, userDataSegmentSelector⟩
    cpu.stack := ⟨cpuStack, cpuStack⟩
    eflags := 0x2 ||| 0x200 }

/-- `page_frame_count_needed`. -/
def pageFrameCountNeeded (r : LoadRequest) : UInt32 := ceilDiv (r.bufferSize + pageFrameSize) pageFrameSize

/-- The metadata of a new process is written into its slot. -/
def enterMetadata (k : Kernel) (i : ℕ) (r : LoadRequest) (u : Unset) : Kernel :=
  k.setPcb i { k.pcb i with metadata := ⟨k.manager.currentRunningPid, processName r u, .ready⟩ }

/-- The new page directory is loaded, one frame is allocated at `request.buf`, and the executable read. -/
def readExecutable (π : Platform) (k : Kernel) (pageDir : PageDirectoryPtr) (r : LoadRequest) : Int × Kernel :=
  let paging := (pagingAllocateUserPageFrame k.paging pageDir r.address).2
  let result := read π k.fs r.toFAT32DriverRequest
  (result.code, { k with cr3 := some pageDir, paging := paging, fs := result.machine })

/-- The rest of a creation whose executable is read. -/
def startProcess (k : Kernel) (oldPageDir : Option PageDirectoryPtr) (i : ℕ) (pageDir : PageDirectoryPtr)
    (r : LoadRequest) : Kernel :=
  let context := { initialContext r.address with pageDirectoryVirtualAddr := some pageDir }
  { k.setPcb i { k.pcb i with context := context } with
    cr3 := oldPageDir
    manager := {
      processSlotOccupied := store k.manager.processSlotOccupied i true
      activeProcessCount := k.manager.activeProcessCount + 1
      currentRunningPid := k.manager.currentRunningPid + 1 } }

/-- `process_create_user_process`: the code it returns and the kernel after it. -/
def processCreateUserProcess (π : Platform) (k : Kernel) (r : LoadRequest) (u : Unset) : Int × Kernel :=
  if 16 ≤ k.manager.activeProcessCount then (processCreateFailMaxProcessExceeded, k)
  else if kernelVirtualAddressBase ≤ r.address then (processCreateFailInvalidEntrypoint, k)
  else if !pagingAllocateCheck k.paging (pageFrameCountNeeded r) || 8 < pageFrameCountNeeded r then
    (processCreateFailNotEnoughMemory, k)
  else
    match processListGetInactiveIndex k with
    | none => (processCreateFailNoAvailableSlot, k)
    | some i =>
      let k := enterMetadata k i r u
      match pagingCreateNewPageDirectory k.paging u.entry with
      | (none, paging) => (processCreateFailNotEnoughMemory, { k with paging := paging })
      | (some pageDir, paging) =>
        let oldPageDir := k.cr3
        let (retcode, k) := readExecutable π { k with paging := paging } pageDir r
        if retcode ≠ processCreateSuccess then (retcode, k)
        else (retcode, startProcess k oldPageDir i pageDir r)

/-! ## Destruction -/

/-- `process_destroy`: whether a process with the pid was found, and the kernel after it. -/
def processDestroy (k : Kernel) (pid : UInt32) : Bool × Kernel :=
  match first (fun i => k.pid i == pid) 0 16 with
  | none => (false, k)
  | some i =>
    (true, { k.setPcb i zeroPcb with
      manager := { k.manager with
        processSlotOccupied := store k.manager.processSlotOccupied i false
        activeProcessCount := k.manager.activeProcessCount - 1 } })

/-- `process_get_current_running_pcb_pointer`, the slot it points into. -/
def processGetCurrentRunningPcb (k : Kernel) : Option ℕ :=
  first (fun i => k.occupied i && k.pid i == k.manager.currentRunningPid) 0 16

end BebasOs.Process
