/-
The memory of a new process. The check before a creation counts the frames of the executable and one more for
the stack, but modulo 2^32; and the creation itself takes one frame, at the entry point, however large the
executable is.
-/
import BebasOs.Process.Table
import Mathlib.Algebra.Order.Floor.Div

namespace BebasOs.Process

open Bytes Search Memory Fat32

variable {π : Platform} {k k' : Kernel} {r : LoadRequest} {u : Unset} {i j : ℕ} {d : Fin 32} {s : PagingState}

/-! ## The memory check -/

/-- The frames that an executable of `n` bytes and a stack need. -/
def framesNeeded (n : ℕ) : ℕ := (n + 2 ^ 22) ⌈/⌉ 2 ^ 22

/-- The memory check of `process_create_user_process` lets the request pass. -/
structure PassesMemoryCheck (k : Kernel) (r : LoadRequest) : Prop where
  frames : pagingAllocateCheck k.paging (pageFrameCountNeeded r) = true
  size : pageFrameCountNeeded r ≤ 8

/-- The memory check is what a creation asks for besides room in the table and an entry point of the user's. -/
theorem admits_iff : Admits k r ↔
    (k.manager.activeProcessCount < 16 ∧ r.address < kernelVirtualAddressBase) ∧ PassesMemoryCheck k r := by
  constructor
  · intro h
    exact ⟨⟨h.room, h.entrypoint⟩, h.frames, h.size⟩
  · rintro ⟨⟨h1, h2⟩, h⟩
    exact ⟨h1, h2, h.frames, h.size⟩

theorem framesNeeded_eq (n : ℕ) : framesNeeded n = (n + 2 ^ 22 + 2 ^ 22 - 1) / 2 ^ 22 := Nat.ceilDiv_eq_add_pred_div _ _

/-- What the two additions of the code leave, each modulo 2^32. -/
theorem pageFrameCountNeeded_toNat (r : LoadRequest) :
    (pageFrameCountNeeded r).toNat = (r.bufferSize.toNat + 2 ^ 22 + 2 ^ 22 - 1) % 2 ^ 32 / 2 ^ 22 := by
  unfold pageFrameCountNeeded ceilDiv pageFrameSize
  simp only [UInt32.toNat_div, UInt32.toNat_sub, UInt32.toNat_add, UInt32.reduceToNat]
  omega

theorem passesMemoryCheck_iff : PassesMemoryCheck k r ↔
    (pageFrameCountNeeded r).toNat ≤ 8 ∧ (pageFrameCountNeeded r).toNat ≤ k.paging.freePageFrameCount.toNat := by
  constructor
  · intro h
    exact ⟨h.size, of_decide_eq_true h.frames⟩
  · rintro ⟨h1, h2⟩
    exact ⟨decide_eq_true h2, h1⟩

/-- The check is right for every size whose sum with two frames stays within 32 bits. Past that it counts no
frame at all, or one, which a kernel without free frames still refuses. -/
theorem memoryCheck_iff (k : Kernel) (r : LoadRequest) :
    (PassesMemoryCheck k r ↔ framesNeeded r.bufferSize.toNat ≤ 8 ∧
      framesNeeded r.bufferSize.toNat ≤ k.paging.freePageFrameCount.toNat) ↔
      r.bufferSize.toNat ≤ 2 ^ 32 - 2 ^ 23 ∨ 2 ^ 32 - 2 ^ 22 < r.bufferSize.toNat ∧
      k.paging.freePageFrameCount = 0 := by
  have hsize := r.bufferSize.toNat_lt
  have hzero : k.paging.freePageFrameCount = 0 ↔ k.paging.freePageFrameCount.toNat = 0 := UInt32.toNat_inj.symm
  rw [passesMemoryCheck_iff, pageFrameCountNeeded_toNat, framesNeeded_eq, hzero]
  omega

/-- A request for almost 4 GiB passes the check. -/
theorem memoryCheck_fooled : ¬ ∀ (k : Kernel) (r : LoadRequest), PassesMemoryCheck k r ↔
    framesNeeded r.bufferSize.toNat ≤ 8 ∧ framesNeeded r.bufferSize.toNat ≤ k.paging.freePageFrameCount.toNat := by
  intro h
  have hpass : PassesMemoryCheck (bootKernel (powerOn zeroDisk)) { loadA with bufferSize := 0xFFFFFFFF } :=
    ⟨by decide, by decide⟩
  have hfew := ((h _ _).1 hpass).1
  rw [framesNeeded_eq] at hfew
  exact absurd hfew (by decide)

/-! ## The memory a process gets -/

/-- The page has bytes of the executable. -/
def Spans (r : LoadRequest) (j : ℕ) : Prop :=
  ∃ a, r.address.toNat ≤ a ∧ a < r.address.toNat + r.bufferSize.toNat ∧ a / 2 ^ 22 = j

/-- The page has bytes of the executable, or it is the page of the initial stack pointer. -/
def Wanted (r : LoadRequest) (j : ℕ) : Prop := Spans r j ∨ j = pageIndex cpuStack

/-- The page directory of the process in slot `i`. -/
def directoryOf (k : Kernel) (i : ℕ) : Option PageDirectory :=
  (k.pcb i).context.pageDirectoryVirtualAddr.map k.paging.directory

/-- The pages that a process wants are present and the user's, each mapped to a frame of its own that was free. -/
structure PagesMapped (before : PagingState) (dir : PageDirectory) (r : LoadRequest) : Prop where
  present : ∀ j, Wanted r j → (cell dir j).flag.presentBit = true ∧ (cell dir j).flag.user = true
  fresh : ∀ j, Wanted r j → mappedFrame (cell dir j) < 32 ∧ cell before.pageFrameMap (mappedFrame (cell dir j)) = false
  distinct : ∀ i j, Wanted r i → Wanted r j → mappedFrame (cell dir i) = mappedFrame (cell dir j) → i = j

/-- They are mapped, and as many frames are taken as the executable and its stack need. -/
structure MemoryMapped (before after : PagingState) (dir : PageDirectory) (r : LoadRequest) : Prop
    extends PagesMapped before dir r where
  taken : Bitmap.clear before.pageFrameMap = Bitmap.clear after.pageFrameMap + framesNeeded r.bufferSize.toNat

theorem pageIndex_eq (va : UInt32) : pageIndex va = va.toNat / 2 ^ 22 := by
  have hlt := va.toNat_lt
  have hmask (x : ℕ) : x &&& 1023 = x % 1024 := Nat.and_two_pow_sub_one_eq_mod x 10
  unfold pageIndex
  simp only [UInt32.toNat_and, UInt32.toNat_shiftRight, UInt32.reduceToNat, Nat.reduceMod, Nat.shiftRight_eq_div_pow,
    hmask]
  omega

theorem pageIndex_cpuStack : pageIndex cpuStack = 0 := by decide

/-- A request of no bytes reads no executable. -/
theorem bufferSize_of_read (h : (Fat32.read π k.fs r.toFAT32DriverRequest).code = 0) : 0 < r.bufferSize.toNat := by
  by_contra hn
  have hz : r.bufferSize = 0 := UInt32.toNat_inj.1 (Nat.eq_zero_of_not_pos hn)
  unfold Fat32.read readLoaded at h
  split at h
  · exact absurd (show (2 : Int) = 0 from h) (by decide)
  · simp only [hz, or_true, if_true] at h
    exact absurd h (by decide)

/-- A new directory has the kernel's page and no other. -/
theorem entryAt_opened (s : PagingState) (d : Fin 32) (unset : PageDirectoryEntry) (hj : j ≠ 0x300) :
    entryAt (opened s d unset) d j = default := by
  unfold entryAt opened
  rw [PagingState.directory_setDirectory, if_pos rfl, cell_store_ne _ _ (Ne.symm hj), cell_zeroDirectory]

/-- An allocation maps one page. -/
theorem entryAt_allocated (s : PagingState) (d : Fin 32) (va : UserAddress) (f : ℕ) (hj : j ≠ pageIndex va.1) :
    entryAt (allocated s d va f) d j = entryAt s d j := by
  refine (entryAt_update (i := d) _ _ va _ d j).trans ?_
  rw [if_neg fun he => hj (Prod.mk.inj he).2]
  rfl

theorem entryAt_allocated_self (s : PagingState) (d : Fin 32) (va : UserAddress) {f : ℕ} (hf : f < 32) :
    (entryAt (allocated s d va f) d (pageIndex va.1)).flag = ⟨true, true, true, true⟩ ∧
      mappedFrame (entryAt (allocated s d va f) d (pageIndex va.1)) = f := by
  have h : entryAt (allocated s d va f) d (pageIndex va.1) = _ := entryAt_update (i := d) _ _ va _ d (pageIndex va.1)
  rw [if_pos rfl] at h
  rw [h]
  exact ⟨rfl, mappedFrame_new _ hf⟩

/-- The paging state after a creation, in a kernel with a free frame and in one without. -/
theorem startedKernel_paging_cases (d : Fin 32) (h : r.address < kernelVirtualAddressBase) :
    (Bitmap.firstClear k.paging.pageFrameMap = none ∧
      (startedKernel π k i d r u).paging = opened k.paging d u.entry) ∨
    ∃ f, Bitmap.firstClear k.paging.pageFrameMap = some f ∧
      (startedKernel π k i d r u).paging = allocated (opened k.paging d u.entry) d ⟨r.address, h⟩ f := by
  have hmap := opened_map k.paging d u.entry
  rw [startedKernel_paging]
  rcases hf : Bitmap.firstClear k.paging.pageFrameMap with _ | f
  · exact .inl ⟨rfl, by rw [allocate_none d ⟨r.address, h⟩ (by rw [hmap, hf])]⟩
  · exact .inr ⟨f, rfl, by rw [allocate_some d ⟨r.address, h⟩ (by rw [hmap, hf])]⟩

/-- Only the page of the entry point can be the user's after a creation. -/
theorem entryAt_startedKernel (h : r.address < kernelVirtualAddressBase) (hj : j ≠ 0x300)
    (hp : (entryAt (startedKernel π k i d r u).paging d j).flag.presentBit = true) : j = pageIndex r.address := by
  by_contra hne
  have hdefault : entryAt (startedKernel π k i d r u).paging d j = default := by
    rcases startedKernel_paging_cases (π := π) (k := k) (i := i) (u := u) d h with ⟨-, he⟩ | ⟨f, -, he⟩
    · rw [he, entryAt_opened _ _ _ hj]
    · rw [he, entryAt_allocated _ _ ⟨r.address, h⟩ f hne, entryAt_opened _ _ _ hj]
  rw [hdefault] at hp
  cases hp

/-- A creation takes one frame at most. -/
theorem startedKernel_taken (h : r.address < kernelVirtualAddressBase) :
    Bitmap.clear k.paging.pageFrameMap ≤ Bitmap.clear (startedKernel π k i d r u).paging.pageFrameMap + 1 := by
  rcases startedKernel_paging_cases (π := π) (k := k) (i := i) (u := u) d h with ⟨-, he⟩ | ⟨f, hf, he⟩
  · rw [he, opened_map]
    omega
  · obtain ⟨h1, h2⟩ := Bitmap.firstClear_eq_some hf
    have hset := Bitmap.clear_set h1 h2
    rw [he, allocated_map, opened_map]
    omega

/-! ## Which creations map what they want -/

/-- The page of the stack is page 0 and only one page is mapped, so nothing of the executable may lie outside of
page 0. -/
theorem fits_of_pagesMapped (h : r.address < kernelVirtualAddressBase)
    (hm : PagesMapped k.paging ((startedKernel π k i d r u).paging.directory (.list d)) r) :
    r.address.toNat + r.bufferSize.toNat ≤ 2 ^ 22 := by
  have only {j : ℕ} (hw : Wanted r j) (hj : j ≠ 0x300) : j = pageIndex r.address :=
    entryAt_startedKernel (π := π) (k := k) (i := i) (d := d) (u := u) h hj (hm.present j hw).1
  have hstack : Wanted r 0 := .inr pageIndex_cpuStack.symm
  have hentry := only hstack (by decide)
  rw [pageIndex_eq] at hentry
  by_contra hlt
  have hnext : Wanted r 1 := .inl ⟨2 ^ 22, by omega, by omega, by decide⟩
  have hone := only hnext (by decide)
  rw [pageIndex_eq] at hone
  omega

/-- What is wanted of an executable that ends in page 0 is page 0. -/
theorem wanted_of_fits (hfits : r.address.toNat + r.bufferSize.toNat ≤ 2 ^ 22) (hw : Wanted r j) : j = 0 := by
  rcases hw with ⟨a, -, h2, rfl⟩ | rfl
  · omega
  · exact pageIndex_cpuStack

theorem pagesMapped_of_fits (hs : Accounted k.paging) (h : Takes k r i) (hsize : 0 < r.bufferSize.toNat)
    (hfits : r.address.toNat + r.bufferSize.toNat ≤ 2 ^ 22) :
    PagesMapped k.paging ((startedKernel π k i d r u).paging.directory (.list d)) r := by
  -- the check asked for two frames, so there is one
  obtain ⟨-, hcheck⟩ := passesMemoryCheck_iff.1 (admits_iff.1 h.toAdmits).2
  rw [pageFrameCountNeeded_toNat, hs.count] at hcheck
  obtain ⟨f, hf, he⟩ : ∃ f, Bitmap.firstClear k.paging.pageFrameMap = some f ∧
      (startedKernel π k i d r u).paging = allocated (opened k.paging d u.entry) d ⟨r.address, h.entrypoint⟩ f := by
    refine (startedKernel_paging_cases d h.entrypoint).resolve_left ?_
    rintro ⟨hnone, -⟩
    rw [Bitmap.firstClear_eq_none.1 hnone] at hcheck
    omega
  obtain ⟨hlt, hfree⟩ := Bitmap.firstClear_eq_some hf
  have hpage : pageIndex r.address = 0 := by
    rw [pageIndex_eq]
    omega
  obtain ⟨hflag, hframe⟩ := entryAt_allocated_self (opened k.paging d u.entry) d ⟨r.address, h.entrypoint⟩ hlt
  simp only [hpage] at hflag hframe
  rw [← he] at hflag hframe
  unfold entryAt at hflag hframe
  refine ⟨fun j hj => ?_, fun j hj => ?_, fun i j hi hj _ => ?_⟩
  · rw [wanted_of_fits hfits hj, hflag]
    exact ⟨rfl, rfl⟩
  · rw [wanted_of_fits hfits hj, hframe]
    exact ⟨hlt, hfree⟩
  · rw [wanted_of_fits hfits hi, wanted_of_fits hfits hj]

theorem directoryOf_startedKernel (hi : i < 16) : directoryOf (startedKernel π k i d r u) i =
    some ((startedKernel π k i d r u).paging.directory (.list d)) := by
  unfold directoryOf
  rw [pcb_startedKernel hi, if_pos rfl]
  rfl

/-- No successful creation takes the frames that were reserved for it. The pages it wants are mapped exactly when
the executable ends in the page of the stack, which is the first. -/
theorem never_memoryMapped (hs : Accounted k.paging)
    (h : processCreateUserProcess π k r u = (processCreateSuccess, k')) :
    ∃ i dir, processListGetInactiveIndex k = some i ∧ directoryOf k' i = some dir ∧
      ¬ MemoryMapped k.paging k'.paging dir r ∧
      (PagesMapped k.paging dir r ↔ r.address.toNat + r.bufferSize.toNat ≤ 2 ^ 22) := by
  obtain ⟨i, d, ht, hd, rfl⟩ := create_success h
  have hsize : 0 < r.bufferSize.toNat := by
    refine bufferSize_of_read (π := π) (k := k) ?_
    have hspec := create_spec π k r u
    rw [h] at hspec
    generalize hk : startedKernel π k i d r u = k₁ at hspec
    cases hspec with
    | refused hc _ => exact absurd rfl hc
    | unread _ _ _ hc => exact absurd rfl hc
    | started _ _ hr => exact hr
  refine ⟨i, _, ht.slot, directoryOf_startedKernel ht.lt, fun hm => ?_, fun hm => ?_, fun hfits => ?_⟩
  · have htaken := hm.taken
    have hone := startedKernel_taken (π := π) (k := k) (i := i) (d := d) (u := u) ht.entrypoint
    rw [framesNeeded_eq] at htaken
    omega
  · exact fits_of_pagesMapped ht.entrypoint hm
  · exact pagesMapped_of_fits hs ht hsize hfits

/-- A file of one byte, run at address 0: the page is mapped, and one frame is taken where two were reserved. -/
theorem never_memoryMapped_loadA : ∃ (k' : Kernel) (i : ℕ) (dir : PageDirectory), directoryOf k' i = some dir ∧
    ¬ MemoryMapped initialPaging k'.paging dir loadA ∧ PagesMapped initialPaging dir loadA := by
  obtain ⟨-, m, -, -, -, hm⟩ := exists_holdsA
  obtain ⟨i, dir, -, h2, h3, h4⟩ := never_memoryMapped (k := bootKernel m) accounted_initial (create_boot hm)
  exact ⟨_, i, dir, h2, h3, h4.2 (by decide)⟩

/-- The creation of the process leaves its second frame. -/
theorem memory_unmapped : ¬ ∀ (π : Platform) (k k' : Kernel) (r : LoadRequest) (u : Unset) (i : ℕ)
    (dir : PageDirectory),
    Accounted k.paging → processCreateUserProcess π k r u = (processCreateSuccess, k') →
      processListGetInactiveIndex k = some i → directoryOf k' i = some dir →
        MemoryMapped k.paging k'.paging dir r := by
  obtain ⟨-, m, -, -, -, hm⟩ := exists_holdsA
  intro hall
  have hi := (takes_boot m).slot
  have hmapped := hall zeroPlatform (bootKernel m)
    (firstKernel m) loadA unsetZero 0 _ accounted_initial (create_boot hm)
    hi (directoryOf_startedKernel (by decide))
  have htaken := hmapped.taken
  have hone : Bitmap.clear (bootKernel m).paging.pageFrameMap ≤ Bitmap.clear (firstKernel m).paging.pageFrameMap + 1 :=
    startedKernel_taken (by decide)
  have hneeded : framesNeeded loadA.bufferSize.toNat = 2 := by rw [framesNeeded_eq]; decide
  rw [hneeded] at htaken
  omega

end BebasOs.Process
