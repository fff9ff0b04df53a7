/-
Address spaces: the memory behind the page directories. Executables and answers are stored through the directory that
`CR3` holds, and so is what a process stores itself; the processor lets a process use the pages that are marked as the
user's, and the kernel use every page. The kernel is itself in a page of each directory, and what it loads into `CR3`
has to have it there. Of an entry the bits that `PageDirectoryEntry` leaves out are zero.
-/
import BebasOs.Fat32.BufferSize
import BebasOs.Fat32.Move
import BebasOs.Lib.View
import BebasOs.Process.Memory

namespace BebasOs.Process

open Bytes Memory Fat32

/-! ## Translation -/

/-- An access to memory: by a process or by the kernel, a store or a load. -/
structure Access where
  user : Bool
  write : Bool

/-- The translation by the processor, with pages of 4 MiB. The kernel may store to every page. -/
def translate (dir : PageDirectory) (access : Access) : View UInt32 ℕ := fun va =>
  let entry := cell dir (pageIndex va)
  let flag := entry.flag
  if flag.presentBit && flag.usePagesize4Mb && (!access.user || flag.user && (!access.write || flag.writeBit)) then
    some (2 ^ 22 * entry.lowerAddress.toNat + va.toNat % 2 ^ 22)
  else none

/-- The kernel may use every page that is there. -/
theorem translate_kernel (dir : PageDirectory) (write : Bool) (va : UInt32) : translate dir ⟨false, write⟩ va =
    if (cell dir (pageIndex va)).flag.presentBit && (cell dir (pageIndex va)).flag.usePagesize4Mb then
      some (2 ^ 22 * (cell dir (pageIndex va)).lowerAddress.toNat + va.toNat % 2 ^ 22)
    else none := by
  unfold translate
  simp only [Bool.not_false, Bool.true_or, Bool.and_true]

/-- A store of the kernel. -/
def kernelStore : Access := ⟨false, true⟩

/-- The kernel gets on under a page directory that has the first frame where the kernel is linked to. -/
def kernelMapped (dir : PageDirectory) : Bool := translate dir ⟨false, false⟩ kernelVirtualAddressBase = some 0

/-! ## The system -/

/-- The kernel's state and the physical memory. -/
structure System where
  kernel : Kernel
  memory : ℕ → UInt8

/-- The bytes that a read delivers, each at its place in the buffer. -/
def deliveredBytes (d : Disk) (loads : List Load) : List (ℕ × UInt8) :=
  loads.flatMap fun l => (List.range 2048).map fun b => (l.offset + b, cell (d.readClusters l.cluster) b)

/-- The same as stores from the address of the buffer on. -/
def deliveredStores (address : UInt32) (d : Disk) (loads : List Load) : List (UInt32 × UInt8) :=
  (deliveredBytes d loads).map fun p => (address + UInt32.ofNat p.1, p.2)

/-- The stores of the kernel under a page directory. It never gets on without its own page, nor at a page that is not
there. -/
def kernelStores (paging : PagingState) (p : PageDirectoryPtr) (memory : ℕ → UInt8)
    (stores : List (UInt32 × UInt8)) : Option (ℕ → UInt8) :=
  if kernelMapped (paging.directory p) then (translate (paging.directory p) kernelStore).storeAll memory stores
  else none

/-- The system after a switch to another kernel state, whose `CR3` is loaded. -/
def System.switch (x : System) (k : Kernel) : Option System :=
  k.cr3.bind fun p => if kernelMapped (k.paging.directory p) then some { x with kernel := k } else none

/-- `readExecutable` with the memory it stores to. -/
def loadExecutable (π : Platform) (x : System) (pageDir : PageDirectoryPtr) (r : LoadRequest) : Option (Int × System) :=
  let (retcode, k) := readExecutable π x.kernel pageDir r
  let loads := (Fat32.read π x.kernel.fs r.toFAT32DriverRequest).loads
  (kernelStores k.paging pageDir x.memory (deliveredStores r.address x.kernel.fs.disk loads)).map fun m =>
    (retcode, ⟨k, m⟩)

/-- `process_create_user_process` with the memory it stores to. -/
def createUserProcess (π : Platform) (x : System) (r : LoadRequest) (u : Unset) : Option (Int × System) :=
  let k := x.kernel
  if 16 ≤ k.manager.activeProcessCount then some (processCreateFailMaxProcessExceeded, x)
  else if kernelVirtualAddressBase ≤ r.address then some (processCreateFailInvalidEntrypoint, x)
  else if !pagingAllocateCheck k.paging (pageFrameCountNeeded r) || 8 < pageFrameCountNeeded r then
    some (processCreateFailNotEnoughMemory, x)
  else
    match processListGetInactiveIndex k with
    | none => some (processCreateFailNoAvailableSlot, x)
    | some i =>
      let k := enterMetadata k i r u
      match pagingCreateNewPageDirectory k.paging u.entry with
      | (none, paging) => some (processCreateFailNotEnoughMemory, { x with kernel := { k with paging := paging } })
      | (some pageDir, paging) =>
        let oldPageDir := k.cr3
        (loadExecutable π { x with kernel := { k with paging := paging } } pageDir r).map fun (retcode, x) =>
          if retcode ≠ processCreateSuccess then (retcode, x)
          else (retcode, { x with kernel := startProcess x.kernel oldPageDir i pageDir r })

/-- What a request to the file system loads into the buffer of the caller. -/
def loadsOf (π : Platform) (s : Machine) : Request → List Load
  | .write _ | .delete _ => []
  | .read r => (Fat32.read π s r).loads
  | .readDirectory r => (Fat32.readDirectory s r).loads

/-- The branches 0 to 3 of `syscall`: a request with its buffer at `address`, and the place for its code. -/
structure FileCall where
  request : Request
  address : UInt32
  code : UInt32

/-- The stores of a request: what it loads, and last its code as an `int8_t`. -/
def FileCall.stores (c : FileCall) (π : Platform) (s : Machine) (code : Int) : List (UInt32 × UInt8) :=
  deliveredStores c.address s.disk (loadsOf π s c.request) ++ [(c.code, UInt8.ofInt code)]

/-! ## Steps -/

/-- What happens to the system. Of `syscall`, the branches that draw on the screen are left out, which store to the
kernel's frame at 0xB8000, and the ones that switch the keyboard on and off, which store to a variable there. -/
inductive Event where
  | create (r : LoadRequest) (u : Unset)
  | destroy (pid : UInt32)
  | timer (ctx : Context)
  | file (c : FileCall)
  /-- Branch 11 of `syscall`, which stores to the disk only. -/
  | move (srcTable destTable : FAT32DirectoryTable) (srcIdx : UInt32)
  /-- A branch of `syscall` that answers at a pointer: the character typed, the column, the greatest number of processes
  or what is known of a process. Any bytes at any places are more than these. -/
  | answer (stores : List (UInt32 × UInt8))
  /-- A store of the process that runs. -/
  | store (va : UInt32) (byte : UInt8)

/-- The system after an event. A store to a page that a process may not use is a page fault, which
`main_interrupt_handler` leaves alone, so the process tries it again for ever. -/
def step (π : Platform) (x : System) : Event → Option System
  | .create r u => (createUserProcess π x r u).map (·.2)
  | .destroy pid => some { x with kernel := (processDestroy x.kernel pid).2 }
  | .timer ctx => (timerInterrupt x.kernel ctx).bind fun (_, _, k) => x.switch k
  | .file c =>
    x.kernel.cr3.bind fun p =>
      (perform π x.kernel.fs c.request).bind fun (code, fs) =>
        (kernelStores x.kernel.paging p x.memory (c.stores π x.kernel.fs code)).map fun m =>
          ⟨{ x.kernel with fs := fs }, m⟩
  | .move srcTable destTable srcIdx =>
    (moveEntry x.kernel.fs srcTable destTable srcIdx).map fun fs => { x with kernel := { x.kernel with fs := fs } }
  | .answer stores =>
    x.kernel.cr3.bind fun p =>
      (kernelStores x.kernel.paging p x.memory stores).map fun m => { x with memory := m }
  | .store va byte =>
    x.kernel.cr3.map fun p =>
      { x with
        memory := ((translate (x.kernel.paging.directory p) ⟨true, true⟩).store x.memory va byte).getD x.memory }

variable {π : Platform} {x x' : System} {k : Kernel} {r : LoadRequest} {u : Unset} {i : ℕ} {d : Fin 32} {code : Int}

/-! ## Creation -/

/-- The paging state in which a creation reads its executable. -/
def readingPaging (k : Kernel) (d : Fin 32) (r : LoadRequest) (u : Unset) : PagingState :=
  (pagingAllocateUserPageFrame (opened k.paging d u.entry) (.list d) r.address).2

theorem paging_startedKernel : (startedKernel π k i d r u).paging = readingPaging k d r u := startedKernel_paging

/-- The stores of a creation. -/
def executableStores (π : Platform) (k : Kernel) (r : LoadRequest) : List (UInt32 × UInt8) :=
  deliveredStores r.address k.fs.disk (Fat32.read π k.fs r.toFAT32DriverRequest).loads

theorem createUserProcess_refused (h : ¬ Admits x.kernel r) : ∃ code, createUserProcess π x r u = some (code, x) ∧
    processCreateUserProcess π x.kernel r u = (code, x.kernel) := by
  unfold createUserProcess processCreateUserProcess
  by_cases h1 : 16 ≤ x.kernel.manager.activeProcessCount
  · simp only [if_pos h1]
    exact ⟨_, rfl, rfl⟩
  by_cases h2 : kernelVirtualAddressBase ≤ r.address
  · simp only [if_neg h1, if_pos h2]
    exact ⟨_, rfl, rfl⟩
  by_cases h3 : (!pagingAllocateCheck x.kernel.paging (pageFrameCountNeeded r) || 8 < pageFrameCountNeeded r) = true
  · simp only [if_neg h1, if_neg h2, if_pos h3]
    exact ⟨_, rfl, rfl⟩
  · rw [Bool.or_eq_true, Bool.not_eq_true', decide_eq_true_iff, not_or, Bool.not_eq_false, UInt32.not_lt] at h3
    exact absurd ⟨by omega, UInt32.not_le.1 h2, h3.1, h3.2⟩ h

theorem createUserProcess_admitted (h : Admits x.kernel r) : createUserProcess π x r u =
    match processListGetInactiveIndex x.kernel with
    | none => some (processCreateFailNoAvailableSlot, x)
    | some i =>
      match pagingCreateNewPageDirectory x.kernel.paging u.entry with
      | (none, paging) =>
        some (processCreateFailNotEnoughMemory,
          { x with kernel := { enterMetadata x.kernel i r u with paging := paging } })
      | (some pageDir, paging) =>
        (loadExecutable π { x with kernel := { enterMetadata x.kernel i r u with paging := paging } } pageDir r).map
          fun (retcode, x') =>
            if retcode ≠ processCreateSuccess then (retcode, x')
            else (retcode, { x' with kernel := startProcess x'.kernel x.kernel.cr3 i pageDir r }) := by
  have h3 : (!pagingAllocateCheck x.kernel.paging (pageFrameCountNeeded r) || decide (8 < pageFrameCountNeeded r)) =
      false := by
    rw [h.frames, decide_eq_false (UInt32.not_lt.2 h.size)]
    rfl
  have hroom := h.room
  unfold createUserProcess
  rw [if_neg (by omega), if_neg (UInt32.not_le.2 h.entrypoint), h3, if_neg Bool.false_ne_true]
  rfl

/-- A creation that comes to its read: the kernel after it is the one without memory, if the read comes to its end. -/
theorem createUserProcess_taken (h : Takes x.kernel r i)
    (hd : Bitmap.firstClear x.kernel.paging.pageDirectoryUsed = some d.1) : createUserProcess π x r u =
      (kernelStores (readingPaging x.kernel d r u) (.list d) x.memory (executableStores π x.kernel r)).map fun m =>
        ((processCreateUserProcess π x.kernel r u).1, ⟨(processCreateUserProcess π x.kernel r u).2, m⟩) := by
  rw [createUserProcess_admitted h.toAdmits, create_admitted h.toAdmits]
  simp only [h.slot, create_some _ hd]
  unfold loadExecutable
  rw [Option.map_map]
  refine congrArg (fun f => Option.map f _) (funext fun m => ?_)
  show ite _ _ _ = _
  dsimp only
  split
  · rfl
  · rfl

/-- The kernel of a creation is the one without memory, and the memory changes by the stores of its read. -/
theorem createUserProcess_spec (h : createUserProcess π x r u = some (code, x')) :
    processCreateUserProcess π x.kernel r u = (code, x'.kernel) ∧
      (x'.memory = x.memory ∧ x'.kernel.paging = x.kernel.paging ∧ x'.kernel.cr3 = x.kernel.cr3 ∨
        ∃ i d, Takes x.kernel r i ∧ Bitmap.firstClear x.kernel.paging.pageDirectoryUsed = some d.1 ∧
          x'.kernel.paging = readingPaging x.kernel d r u ∧
          (x'.kernel.cr3 = x.kernel.cr3 ∨ x'.kernel.cr3 = some (.list d)) ∧
          kernelStores x'.kernel.paging (.list d) x.memory (executableStores π x.kernel r) = some x'.memory) := by
  by_cases hadmits : Admits x.kernel r
  · rcases hi : processListGetInactiveIndex x.kernel with _ | i
    · rw [createUserProcess_admitted hadmits, hi] at h
      cases h
      exact ⟨by rw [create_admitted hadmits, hi], .inl ⟨rfl, rfl, rfl⟩⟩
    have ht : Takes x.kernel r i := ⟨hadmits, hi⟩
    rcases hd : Bitmap.firstClear x.kernel.paging.pageDirectoryUsed with _ | d
    · rw [createUserProcess_admitted hadmits, hi] at h
      simp only [create_none _ hd] at h
      cases h
      refine ⟨?_, .inl ⟨rfl, rfl, rfl⟩⟩
      rw [create_admitted hadmits, hi]
      simp only [create_none _ hd]
    · obtain ⟨hlt, -⟩ := Bitmap.firstClear_eq_some hd
      rw [createUserProcess_taken (d := ⟨d, hlt⟩) ht hd, Option.map_eq_some_iff] at h
      obtain ⟨m, hm, h⟩ := h
      obtain ⟨hcode, hx⟩ := Prod.mk.inj h
      subst hcode hx
      have hk : (processCreateUserProcess π x.kernel r u).2.paging = readingPaging x.kernel ⟨d, hlt⟩ r u ∧
          ((processCreateUserProcess π x.kernel r u).2.cr3 = x.kernel.cr3 ∨
            (processCreateUserProcess π x.kernel r u).2.cr3 = some (.list ⟨d, hlt⟩)) := by
        rw [create_admitted hadmits]
        simp only [hi, create_some (i := ⟨d, hlt⟩) _ hd]
        split
        · exact ⟨rfl, .inr rfl⟩
        · exact ⟨rfl, .inl rfl⟩
      exact ⟨rfl, .inr ⟨i, ⟨d, hlt⟩, ht, rfl, hk.1, hk.2, by rw [hk.1]; exact hm⟩⟩
  · obtain ⟨c, h1, h2⟩ := createUserProcess_refused (π := π) (u := u) hadmits
    rw [h1] at h
    cases h
    exact ⟨h2, .inl ⟨rfl, rfl, rfl⟩⟩

/-! ## The bytes of a read -/

/-- What is put into a buffer is what the read delivers. -/
theorem put_deliveredBytes (d : Disk) (loads : List Load) (buf : ℕ → UInt8) :
    View.put buf (deliveredBytes d loads) = deliver d loads buf := by
  induction loads generalizing buf with
  | nil => rfl
  | cons l loads ih =>
    have hone : View.put buf ((List.range 2048).map fun b => (l.offset + b, cell (d.readClusters l.cluster) b)) =
        blit buf l.offset (d.readClusters l.cluster) := funext fun a => View.put_range buf l.offset _ 2048 a
    have hcons : deliveredBytes d (l :: loads) = ((List.range 2048).map fun b =>
        (l.offset + b, cell (d.readClusters l.cluster) b)) ++ deliveredBytes d loads := List.flatMap_cons
    rw [hcons, View.put_append, hone, ih]
    rfl

theorem mem_deliveredBytes {p : ℕ × UInt8} {d : Disk} {loads : List Load} (h : p ∈ deliveredBytes d loads) :
    ∃ l ∈ loads, l.offset ≤ p.1 ∧ p.1 < l.offset + 2048 := by
  obtain ⟨l, hl, hp⟩ := List.mem_flatMap.1 h
  obtain ⟨b, hb, rfl⟩ := List.mem_map.1 hp
  exact ⟨l, hl, by simp, by simpa using hb⟩

/-! ## The pages of a new directory -/

/-- The paging state of a read is the one with the new directory, with or without a frame for the entry point. -/
theorem readingPaging_cases (k : Kernel) (d : Fin 32) (u : Unset) (h : r.address < kernelVirtualAddressBase) :
    readingPaging k d r u = opened k.paging d u.entry ∨
      ∃ f, f < 32 ∧ cell k.paging.pageFrameMap f = false ∧
        readingPaging k d r u = allocated (opened k.paging d u.entry) d ⟨r.address, h⟩ f := by
  have hmap := opened_map k.paging d u.entry
  unfold readingPaging
  rcases hf : Bitmap.firstClear k.paging.pageFrameMap with _ | f
  · exact .inl (by rw [allocate_none d ⟨r.address, h⟩ (by rw [hmap, hf])])
  · obtain ⟨hlt, hfree⟩ := Bitmap.firstClear_eq_some hf
    exact .inr ⟨f, hlt, hfree, by rw [allocate_some d ⟨r.address, h⟩ (by rw [hmap, hf])]⟩

/-- The kernel's page is the one that was entered first. -/
theorem entryAt_reading (k : Kernel) (d : Fin 32) (u : Unset) (h : r.address < kernelVirtualAddressBase) :
    entryAt (readingPaging k d r u) d 0x300 = ⟨⟨true, true, u.entry.flag.user, true⟩, u.entry.lowerAddress⟩ := by
  have hopened : entryAt (opened k.paging d u.entry) d 0x300 =
      ⟨⟨true, true, u.entry.flag.user, true⟩, u.entry.lowerAddress⟩ := by
    unfold entryAt opened
    rw [PagingState.directory_setDirectory, if_pos rfl, cell_store_self _ _ (by decide)]
  rcases readingPaging_cases k d u h with he | ⟨f, -, -, he⟩
  · rw [he, hopened]
  · have hne : 0x300 ≠ pageIndex r.address := (pageIndex_lt ⟨r.address, h⟩).ne'
    rw [he, entryAt_allocated _ d ⟨r.address, h⟩ f hne, hopened]

theorem kernelMapped_of {dir : PageDirectory} (hp : (cell dir 0x300).flag.presentBit = true)
    (hs : (cell dir 0x300).flag.usePagesize4Mb = true) (h : (cell dir 0x300).lowerAddress = 0) :
    kernelMapped dir = true := by
  have hpage : pageIndex kernelVirtualAddressBase = 0x300 := by decide
  refine decide_eq_true ?_
  rw [translate_kernel, hpage, hp, hs, h]
  rfl

/-- The kernel gets on under a new directory if the bits of the frame's number happen to be zero. -/
theorem kernelMapped_reading (h : r.address < kernelVirtualAddressBase) (hu : u.entry.lowerAddress = 0) :
    kernelMapped ((readingPaging k d r u).directory (.list d)) = true := by
  have he := entryAt_reading (u := u) k d h
  unfold entryAt at he
  exact kernelMapped_of (by rw [he]) (by rw [he]) (by rw [he]; exact hu)

theorem kernelStores_some {paging : PagingState} {p : PageDirectoryPtr} {m m' : ℕ → UInt8}
    {stores : List (UInt32 × UInt8)} (h : kernelStores paging p m stores = some m') :
    kernelMapped (paging.directory p) = true ∧
    (translate (paging.directory p) kernelStore).storeAll m stores = some m' := by
  unfold kernelStores at h
  split at h
  · next hmapped => exact ⟨hmapped, h⟩
  · cases h

/-- The new directory maps the page of the entry point to the frame that was taken, for the process and the kernel. -/
theorem translate_reading (access : Access) {f a : ℕ} (ha : r.address < kernelVirtualAddressBase)
    (hf : Bitmap.firstClear k.paging.pageFrameMap = some f) (h : r.address.toNat % 2 ^ 22 + a < 2 ^ 22) :
    translate ((readingPaging k d r u).directory (.list d)) access (r.address + UInt32.ofNat a) =
      some (2 ^ 22 * f + (r.address.toNat % 2 ^ 22 + a)) := by
  have hbase : r.address.toNat < 0xC0000000 := ha
  have haddr : (r.address + UInt32.ofNat a).toNat = r.address.toNat + a := by
    rw [UInt32.toNat_add, UInt32.toNat_ofNat']
    omega
  have hpage : pageIndex (r.address + UInt32.ofNat a) = pageIndex r.address := by
    rw [pageIndex_eq, pageIndex_eq, haddr]
    omega
  have he : readingPaging k d r u = allocated (opened k.paging d u.entry) d ⟨r.address, ha⟩ f := by
    unfold readingPaging
    rw [allocate_some d ⟨r.address, ha⟩ (by rw [opened_map, hf])]
  obtain ⟨hflag, hframe⟩ := entryAt_allocated_self (opened k.paging d u.entry) d ⟨r.address, ha⟩
    (Bitmap.firstClear_eq_some hf).1
  rw [mappedFrame_eq] at hframe
  unfold entryAt at hflag hframe
  unfold translate
  rw [he]
  simp only [hpage, hflag, hframe, haddr, Bool.true_and, Bool.or_true, if_true]
  congr 2
  omega

/-- A creation under which the kernel gets on and whose executable stays in the page of its entry point has a result.
The bytes of the executable are in the frame taken. -/
theorem createUserProcess_started {f n : ℕ} (h : Takes x.kernel r i)
    (hd : Bitmap.firstClear x.kernel.paging.pageDirectoryUsed = some d.1)
    (hf : Bitmap.firstClear x.kernel.paging.pageFrameMap = some f) (hu : u.entry.lowerAddress = 0)
    (hcode : (Fat32.read π x.kernel.fs r.toFAT32DriverRequest).code = 0)
    (hn : ∀ l ∈ (Fat32.read π x.kernel.fs r.toFAT32DriverRequest).loads, l.offset + 2048 ≤ n)
    (hfit : r.address.toNat % 2 ^ 22 + n ≤ 2 ^ 22) :
    ∃ m, createUserProcess π x r u = some (0, ⟨startedKernel π x.kernel i d r u, m⟩) ∧ ∀ a < n,
      m (2 ^ 22 * f + (r.address.toNat % 2 ^ 22 + a)) = (Fat32.read π x.kernel.fs (withBuffer
        r.toFAT32DriverRequest fun a => x.memory (2 ^ 22 * f + (r.address.toNat % 2 ^ 22 + a)))).buf a := by
  have hfits : ∀ p ∈ deliveredBytes x.kernel.fs.disk (Fat32.read π x.kernel.fs r.toFAT32DriverRequest).loads,
      p.1 ∈ { a | a < n } := fun p hp => by
    obtain ⟨l, hl, -, h2⟩ := mem_deliveredBytes hp
    exact h2.trans_le (hn l hl)
  obtain ⟨m, hm, hplaces⟩ := View.storeAll_places
    (t := translate ((readingPaging x.kernel d r u).directory (.list d)) kernelStore)
    (e := fun a => r.address + UInt32.ofNat a) (g := fun a => 2 ^ 22 * f + (r.address.toNat % 2 ^ 22 + a))
    (fun a ha => translate_reading kernelStore h.entrypoint hf (by have : a < n := ha; omega))
    (fun a _ b _ hab => by dsimp only at hab; omega) hfits x.memory
  refine ⟨m, ?_, fun a ha => ?_⟩
  · have hstores : kernelStores (readingPaging x.kernel d r u)
        (.list d) x.memory (executableStores π x.kernel r) = some m :=
      (if_pos (kernelMapped_reading h.entrypoint hu)).trans hm
    rw [createUserProcess_taken h hd, h.started hd hcode, hstores]
    rfl
  · rw [hplaces a ha, put_deliveredBytes, read_buf, read_withBuffer]
    rfl

end BebasOs.Process
