/-
`paging.c`: 32 page frames of 4 MiB with a map and a counter, the 32 page directories of the kernel's
pool, and the operations on them, as the code computes them. Of an entry the fields are kept that the
code reads or sets; the bits it leaves unset in a new kernel entry are a parameter of its creation.
-/
import BebasOs.Lib.Bitmap

namespace BebasOs.Memory

open Bytes Search

/-! ## State -/

/-- The `PageDirectoryEntryFlag` bits that are set and read. -/
structure PageDirectoryEntryFlag where
  presentBit : Bool
  writeBit : Bool
  user : Bool
  usePagesize4Mb : Bool
deriving DecidableEq, Inhabited

/-- A `PageDirectoryEntry`: its flag and the ten bits of `lower_address`. -/
structure PageDirectoryEntry where
  flag : PageDirectoryEntryFlag
  lowerAddress : BitVec 10
deriving DecidableEq, Inhabited

/-- `struct PageDirectory`, its one field `table`. -/
abbrev PageDirectory := Vector PageDirectoryEntry 1024

/-- The pool of page directories is not empty, so that its first index is `0`. -/
instance neZeroPool : NeZero 32 := ⟨by decide⟩

/-- A pointer to a page directory: `&_paging_kernel_page_directory` or `&page_directory_list[i]`. -/
inductive PageDirectoryPtr where
  | kernel
  | list (i : Fin 32)
deriving DecidableEq

/-- The static state of `paging.c`: the page directories, which of the pool are used, and the
`page_manager_state`. -/
structure PagingState where
  kernelPageDirectory : PageDirectory
  pageDirectoryList : Vector PageDirectory 32
  pageDirectoryUsed : Vector Bool 32
  pageFrameMap : Vector Bool 32
  freePageFrameCount : UInt32

/-- Where the kernel's half of the address space begins. -/
def kernelVirtualAddressBase : UInt32 := 0xC0000000

def pageFrameSize : UInt32 := 0x400000

/-- A page directory of zeros, as `memset` leaves it. -/
def zeroDirectory : PageDirectory := Vector.replicate 1024 default

/-- The entry that maps the first frame for the kernel. -/
def kernelEntry : PageDirectoryEntry := ⟨⟨true, true, false, true⟩, 0⟩

/-- The initial values of the statics. -/
def initialPaging : PagingState where
  kernelPageDirectory := store (store zeroDirectory 0 kernelEntry) 0x300 kernelEntry
  pageDirectoryList := Vector.replicate 32 zeroDirectory
  pageDirectoryUsed := Vector.replicate 32 false
  pageFrameMap := store (Vector.replicate 32 false) 0 true
  freePageFrameCount := 31

namespace PagingState

/-- The directory a pointer points to. -/
def directory (s : PagingState) : PageDirectoryPtr → PageDirectory
  | .kernel => s.kernelPageDirectory
  | .list i => s.pageDirectoryList[i.1]

def setDirectory (s : PagingState) (dir : PageDirectory) : PageDirectoryPtr → PagingState
  | .kernel => { s with kernelPageDirectory := dir }
  | .list i => { s with pageDirectoryList := s.pageDirectoryList.set i.1 dir }

@[simp] theorem setDirectory_map (s : PagingState) (dir : PageDirectory) (p : PageDirectoryPtr) :
    (s.setDirectory dir p).pageFrameMap = s.pageFrameMap := by cases p <;> rfl

@[simp] theorem setDirectory_count (s : PagingState) (dir : PageDirectory) (p : PageDirectoryPtr) :
    (s.setDirectory dir p).freePageFrameCount = s.freePageFrameCount := by cases p <;> rfl

@[simp] theorem setDirectory_used (s : PagingState) (dir : PageDirectory) (p : PageDirectoryPtr) :
    (s.setDirectory dir p).pageDirectoryUsed = s.pageDirectoryUsed := by cases p <;> rfl

theorem directory_setDirectory (s : PagingState) (dir : PageDirectory) (p q : PageDirectoryPtr) :
    (s.setDirectory dir p).directory q = if q = p then dir else s.directory q := by
  cases p <;> cases q <;> simp only [setDirectory, directory, reduceCtorEq, if_false, if_true,
    PageDirectoryPtr.list.injEq]
  rename_i i k
  rw [Vector.getElem_set]
  simp only [Fin.val_inj, eq_comm]

end PagingState

/-! ## The operations -/

/-- `((uint32_t) virtual_addr >> 22) & 0x3FF`. -/
def pageIndex (virtualAddr : UInt32) : ℕ := (virtualAddr >>> 22 &&& 0x3FF).toNat

def updatePageDirectoryEntry (s : PagingState) (pageDir : PageDirectoryPtr) (physicalAddr virtualAddr : UInt32)
    (flag : PageDirectoryEntryFlag) : PagingState :=
  let lowerAddress := BitVec.ofNat 10 (physicalAddr >>> 22 &&& 0x3FF).toNat
  s.setDirectory (store (s.directory pageDir) (pageIndex virtualAddr) ⟨flag, lowerAddress⟩) pageDir

def pagingAllocateCheck (s : PagingState) (amount : UInt32) : Bool := amount ≤ s.freePageFrameCount

def pagingAllocateUserPageFrame (s : PagingState) (pageDir : PageDirectoryPtr) (virtualAddr : UInt32) :
    Bool × PagingState :=
  match Bitmap.firstClear s.pageFrameMap with
  | none => (false, s)
  | some i =>
    let s := { s with pageFrameMap := store s.pageFrameMap i true }
    let s := updatePageDirectoryEntry s pageDir (UInt32.ofNat i * pageFrameSize) virtualAddr ⟨true, true, true, true⟩
    (true, { s with freePageFrameCount := s.freePageFrameCount - 1 })

theorem pagingAllocate_used (s : PagingState) (p : PageDirectoryPtr) (va : UInt32) :
    (pagingAllocateUserPageFrame s p va).2.pageDirectoryUsed = s.pageDirectoryUsed := by
  unfold pagingAllocateUserPageFrame
  split
  · rfl
  · exact PagingState.setDirectory_used _ _ _

/-- An allocation takes one frame off the counter, or none. -/
theorem pagingAllocate_count (s : PagingState) (p : PageDirectoryPtr) (va : UInt32) :
    (pagingAllocateUserPageFrame s p va).2.freePageFrameCount = s.freePageFrameCount ∨
      (pagingAllocateUserPageFrame s p va).2.freePageFrameCount = s.freePageFrameCount - 1 := by
  unfold pagingAllocateUserPageFrame
  split
  · exact .inl rfl
  · right
    simp only [updatePageDirectoryEntry, PagingState.setDirectory_count]

/-- The frame an entry maps: `(lower_address << 22) / PAGE_FRAME_SIZE`. -/
def mappedFrame (e : PageDirectoryEntry) : ℕ := (UInt32.ofNat e.lowerAddress.toNat <<< 22 / pageFrameSize).toNat

/-- Freeing a frame past the end of the map has no result. -/
def pagingFreeUserPageFrame (s : PagingState) (pageDir : PageDirectoryPtr) (virtualAddr : UInt32) :
    Option (Bool × PagingState) :=
  let entry := cell (s.directory pageDir) (pageIndex virtualAddr)
  if entry.flag.presentBit then
    if mappedFrame entry < 32 then
      let s := { s with pageFrameMap := store s.pageFrameMap (mappedFrame entry) false }
      let s := updatePageDirectoryEntry s pageDir 0 virtualAddr ⟨false, false, false, false⟩
      some (true, { s with freePageFrameCount := s.freePageFrameCount + 1 })
    else none
  else some (false, s)

/-- `paging_create_new_page_directory`; `unset` is what the local `entry` holds before three of its bits
are set. -/
def pagingCreateNewPageDirectory (s : PagingState) (unset : PageDirectoryEntry) :
    Option PageDirectoryPtr × PagingState :=
  match Bitmap.firstClear s.pageDirectoryUsed with
  | none => (none, s)
  | some i =>
    let s := { s with pageDirectoryUsed := store s.pageDirectoryUsed i true }
    let entry := { unset with flag := { unset.flag with presentBit := true, writeBit := true, usePagesize4Mb := true } }
    let pageDir := PageDirectoryPtr.list (Fin.ofNat 32 i)
    (some pageDir, s.setDirectory (store zeroDirectory 0x300 entry) pageDir)

/-- `paging_free_page_directory`: the directory is looked up in the pool by its address. -/
def pagingFreePageDirectory (s : PagingState) (pageDir : PageDirectoryPtr) : Bool × PagingState :=
  match pageDir with
  | .kernel => (false, s)
  | .list i =>
    (true, { s with pageDirectoryUsed := store s.pageDirectoryUsed i.1 false }.setDirectory zeroDirectory pageDir)

end BebasOs.Memory
