/-
`kernel.c`: from the disk image that the inserter has made to the first instruction of the shell. The shell is read into
a frame of its own through its page directory, which the switch to its process leaves active.
-/
import BebasOs.Cpu.Preemption
import BebasOs.Fat32.Inserter
import BebasOs.Process.Isolation

namespace BebasOs.Process

open Bytes Memory Fat32 Relation

/-- The name `shell`. -/
def shellName : Vector UInt8 8 := #v[115, 104, 101, 108, 108, 0, 0, 0]

/-- The `request` of `kernel_setup`. What is at its address is not read. -/
def shellRequest : LoadRequest where
  buf := fun _ => 0
  name := shellName
  ext := Vector.replicate 3 0
  parentClusterNumber := rootClusterNumber
  bufferSize := 0x100000
  address := 0

/-- The system when the file system is initialized: the statics have their initial values. -/
def setupSystem (fs : Machine) (memory : ℕ → UInt8) : System :=
  ⟨{ bootKernel fs with paging := loadedPaging }, memory⟩

variable {π κ : Platform} {s : Machine} {memory m : ℕ → UInt8} {u : Unset} {x y : System} {image : Disk}
  {as : List Arguments} {shell : Arguments}

/-! ## The first switch -/

theorem Booted.manager (h : Booted x) (r : LoadRequest) (u : Unset) : (startedKernel π x.kernel 0 0 r u).manager =
    ⟨store (Vector.replicate 16 false) 0 true, 0 + 1, 0 + 1⟩ := by
  rw [startedKernel_manager, h.zeroed.manager]

/-- The search goes past the empty slots to slot 0. -/
theorem Booted.switch (h : Booted x) (r : LoadRequest) (u : Unset) :
    schedulerSwitchToNextProcess (startedKernel π x.kernel 0 0 r u) =
      some (0, ((startedKernel π x.kernel 0 0 r u).pcb 0).context, switchTo (startedKernel π x.kernel 0 0 r u) 0) := by
  have hnext : nextOccupied (startedKernel π x.kernel 0 0 r u).manager.processSlotOccupied 16
      (startIndex (startedKernel π x.kernel 0 0 r u)) = some 0 := by
    unfold startIndex
    rw [h.manager]
    decide
  unfold schedulerSwitchToNextProcess
  rw [hnext]
  rfl

/-- No process is taken for the running one, so a timer interrupt would do the same. -/
theorem Booted.timer (h : Booted x) (r : LoadRequest) (u : Unset) (ctx : Context) :
    timerInterrupt (startedKernel π x.kernel 0 0 r u) ctx =
      some (0, ((startedKernel π x.kernel 0 0 r u).pcb 0).context, switchTo (startedKernel π x.kernel 0 0 r u) 0) := by
  have hnone : processGetCurrentRunningPcb (startedKernel π x.kernel 0 0 r u) = none := by
    refine Search.first_eq_none.2 fun j _ _ => ?_
    rw [occupied_startedKernel (by decide), pid_startedKernel (by decide), h.manager]
    by_cases hj : j = 0
    · rw [if_pos hj, if_pos hj, h.zeroed.manager]
      rfl
    · rw [if_neg hj, h.zeroed.occupied, Bool.false_and]
  unfold timerInterrupt
  rw [save_none ctx hnone, h.switch]

theorem paging_switchTo (k : Kernel) (index : UInt32) : (switchTo k index).paging = k.paging := rfl

/-- The process sees the page of its entry point. -/
theorem Booted.userView (h : Booted x) (u : Unset) {a : ℕ} (ha : r.address < kernelVirtualAddressBase)
    (hin : r.address.toNat % 2 ^ 22 + a < 2 ^ 22) :
    System.userView ⟨switchTo (startedKernel π x.kernel 0 0 r u) 0, m⟩ (.list 0) (r.address + UInt32.ofNat a) =
      some (2 ^ 22 + (r.address.toNat % 2 ^ 22 + a)) := by
  unfold System.userView
  dsimp only
  rw [paging_switchTo, paging_startedKernel]
  exact h.translate _ u ha hin

theorem booted_setupSystem (s : Machine) (memory : ℕ → UInt8) : Booted (setupSystem s memory) := ⟨⟨rfl, rfl⟩, rfl, rfl⟩

theorem address_shell : shellRequest.address.toNat % 2 ^ 22 = 0 := rfl

/-- A read that the shell is loaded by. -/
structure LoadsShell (π : Platform) (s : Machine) (shell : Arguments) : Prop where
  code : (Fat32.read π s shellRequest.toFAT32DriverRequest).code = 0
  loads : ∀ l ∈ (Fat32.read π s shellRequest.toFAT32DriverRequest).loads, l.offset + 2048 ≤ 510 * 2048
  buf : ∀ buf, ∀ a < shell.filesize,
    (Fat32.read π s (withBuffer shellRequest.toFAT32DriverRequest buf)).buf a = shell.fileBuffer a

/-- The creation of `kernel_setup`. -/
theorem LoadsShell.created (h : LoadsShell π s shell) (hsize : shell.filesize ≤ 510 * 2048) (memory : ℕ → UInt8)
    (hu : u.entry.lowerAddress = 0) : ∃ m, createUserProcess π (setupSystem s memory) shellRequest u =
        some (0, ⟨startedKernel π (setupSystem s memory).kernel 0 0 shellRequest u, m⟩) ∧
      ∀ a < shell.filesize, m (2 ^ 22 + a) = shell.fileBuffer a := by
  have hfit : shellRequest.address.toNat % 2 ^ 22 + 510 * 2048 ≤ 2 ^ 22 := by
    rw [address_shell]
    norm_num
  obtain ⟨m, hm, hbytes⟩ := (booted_setupSystem s memory).started u (by decide) (by decide) hu h.code h.loads hfit
  refine ⟨m, hm, fun a ha => ?_⟩
  have hbyte := (hbytes a (ha.trans_le hsize)).trans (h.buf _ a ha)
  rwa [address_shell, Nat.zero_add] at hbyte

end BebasOs.Process
