/-
Page frames over runs of the paging operations. The directories of the pool and the frame map form a
pool of frames, in which every operation takes a frame, gives one back or clears a directory. So no
frame is ever mapped twice, and the counter is exact.
-/
import BebasOs.Lib.Pool
import BebasOs.Memory.Paging

namespace BebasOs.Memory

open Bytes Search Relation

variable {s s' : PagingState} {i : Fin 32} {j f : ℕ} {va : UInt32}

/-! ## Addresses and frames -/

/-- An address of the user's part of the address space. -/
abbrev UserAddress := { va : UInt32 // va < kernelVirtualAddressBase }

theorem pageIndex_lt (va : UserAddress) : pageIndex va.1 < 0x300 := by
  have h : va.1.toNat < 0xC0000000 := va.2
  have hmask (x : ℕ) : x &&& 1023 = x % 1024 := Nat.and_two_pow_sub_one_eq_mod x 10
  unfold pageIndex
  simp only [UInt32.toNat_and, UInt32.toNat_shiftRight, UInt32.reduceToNat, Nat.reduceMod, Nat.shiftRight_eq_div_pow,
    hmask]
  omega

theorem mappedFrame_eq (e : PageDirectoryEntry) : mappedFrame e = e.lowerAddress.toNat := by
  have h := e.lowerAddress.isLt
  unfold mappedFrame pageFrameSize
  simp only [UInt32.toNat_div, UInt32.toNat_shiftLeft, UInt32.toNat_ofNat', UInt32.reduceToNat, Nat.reduceMod,
    Nat.shiftLeft_eq]
  omega

/-- The physical address of a frame gives its number back. -/
theorem mappedFrame_new (flag : PageDirectoryEntryFlag) (hf : f < 32) :
    mappedFrame ⟨flag, BitVec.ofNat 10 ((UInt32.ofNat f * pageFrameSize) >>> 22 &&& 0x3FF).toNat⟩ = f := by
  have hmask (x : ℕ) : x &&& 1023 = x % 1024 := Nat.and_two_pow_sub_one_eq_mod x 10
  rw [mappedFrame_eq]
  unfold pageFrameSize
  simp only [BitVec.toNat_ofNat, UInt32.toNat_and, UInt32.toNat_shiftRight, UInt32.toNat_mul, UInt32.toNat_ofNat',
    UInt32.reduceToNat, Nat.reduceMod, Nat.shiftRight_eq_div_pow, hmask]
  omega

/-! ## The pool of frames -/

/-- Page `j` of the directory `i` of the pool. -/
def entryAt (s : PagingState) (i : Fin 32) (j : ℕ) : PageDirectoryEntry := cell (s.directory (.list i)) j

/-- The frame a page of a directory is mapped to, if it is; page 0x300 is the kernel's. -/
def frameOf (s : PagingState) (x : Fin 32 × ℕ) : Option ℕ :=
  if x.2 ≠ 0x300 ∧ (entryAt s x.1 x.2).flag.presentBit then some (mappedFrame (entryAt s x.1 x.2)) else none

/-- The frames as a pool: the pages hold them, the map marks them. -/
def frames (s : PagingState) : Pool (Fin 32 × ℕ) ℕ := ⟨frameOf s, { f | cell s.pageFrameMap f = true }⟩

/-- The pages of one directory. -/
def pagesOf (i : Fin 32) : Set (Fin 32 × ℕ) := { x | x.1 = i }

theorem frameOf_congr (h : s'.directory (.list i) = s.directory (.list i)) : frameOf s' (i, j) = frameOf s (i, j) := by
  unfold frameOf entryAt
  rw [h]

theorem entryAt_update (s : PagingState) (pa : UInt32) (va : UserAddress) (flag : PageDirectoryEntryFlag)
    (k : Fin 32) (j : ℕ) : entryAt (updatePageDirectoryEntry s (.list i) pa va.1 flag) k j =
      if (k, j) = (i, pageIndex va.1) then ⟨flag, BitVec.ofNat 10 (pa >>> 22 &&& 0x3FF).toNat⟩ else entryAt s k j := by
  have hlt := pageIndex_lt va
  unfold entryAt updatePageDirectoryEntry
  simp only [PagingState.directory_setDirectory, PageDirectoryPtr.list.injEq]
  by_cases hk : k = i
  · subst hk
    rw [if_pos rfl, cell_store _ _ _ (by omega)]
    simp
  · rw [if_neg hk, if_neg (fun h => hk (Prod.mk.inj h).1)]

/-! ## What each operation does -/

theorem frameOf_update_self (s : PagingState) (pa : UInt32) (va : UserAddress) (flag : PageDirectoryEntryFlag) :
    frameOf (updatePageDirectoryEntry s (.list i) pa va.1 flag) (i, pageIndex va.1) =
      if flag.presentBit then some (mappedFrame ⟨flag, BitVec.ofNat 10 (pa >>> 22 &&& 0x3FF).toNat⟩) else none := by
  have hlt := pageIndex_lt va
  unfold frameOf
  simp only [entryAt_update, if_true]
  have hne : pageIndex va.1 ≠ 0x300 := by omega
  simp only [hne, ne_eq, not_false_eq_true, true_and]

theorem frameOf_update_ne (s : PagingState) (pa : UInt32) (va : UserAddress) (flag : PageDirectoryEntryFlag)
    {x : Fin 32 × ℕ} (hx : x ≠ (i, pageIndex va.1)) :
    frameOf (updatePageDirectoryEntry s (.list i) pa va.1 flag) x = frameOf s x := by
  unfold frameOf
  simp only [entryAt_update, if_neg hx]

/-- The state after an allocation of frame `f`. -/
def allocated (s : PagingState) (i : Fin 32) (va : UserAddress) (f : ℕ) : PagingState :=
  { updatePageDirectoryEntry { s with pageFrameMap := store s.pageFrameMap f true } (.list i)
      (UInt32.ofNat f * pageFrameSize) va.1 ⟨true, true, true, true⟩ with
    freePageFrameCount := s.freePageFrameCount - 1 }

/-- The state after a page that was mapped to frame `f` is freed. -/
def released (s : PagingState) (i : Fin 32) (va : UserAddress) (f : ℕ) : PagingState :=
  { updatePageDirectoryEntry { s with pageFrameMap := store s.pageFrameMap f false } (.list i) 0 va.1
      ⟨false, false, false, false⟩ with
    freePageFrameCount := s.freePageFrameCount + 1 }

theorem allocated_used (s : PagingState) (i : Fin 32) (va : UserAddress) (f : ℕ) :
    (allocated s i va f).pageDirectoryUsed = s.pageDirectoryUsed := PagingState.setDirectory_used _ _ _

theorem released_used (s : PagingState) (i : Fin 32) (va : UserAddress) (f : ℕ) :
    (released s i va f).pageDirectoryUsed = s.pageDirectoryUsed := PagingState.setDirectory_used _ _ _

theorem allocated_map (s : PagingState) (i : Fin 32) (va : UserAddress) (f : ℕ) :
    (allocated s i va f).pageFrameMap = store s.pageFrameMap f true := PagingState.setDirectory_map _ _ _

theorem released_map (s : PagingState) (i : Fin 32) (va : UserAddress) (f : ℕ) :
    (released s i va f).pageFrameMap = store s.pageFrameMap f false := PagingState.setDirectory_map _ _ _

theorem allocate_none (i : Fin 32) (va : UserAddress) (h : Bitmap.firstClear s.pageFrameMap = none) :
    pagingAllocateUserPageFrame s (.list i) va.1 = (false, s) := by
  unfold pagingAllocateUserPageFrame
  simp only [h]

theorem allocate_some (i : Fin 32) (va : UserAddress) (h : Bitmap.firstClear s.pageFrameMap = some f) :
    pagingAllocateUserPageFrame s (.list i) va.1 = (true, allocated s i va f) := by
  unfold pagingAllocateUserPageFrame allocated
  simp only [h]
  rfl

theorem free_none (va : UserAddress) (h : frameOf s (i, pageIndex va.1) = none) :
    pagingFreeUserPageFrame s (.list i) va.1 = some (false, s) := by
  have hlt := pageIndex_lt va
  unfold frameOf entryAt at h
  unfold pagingFreeUserPageFrame
  rw [if_neg]
  intro hp
  rw [if_pos ⟨by simp only; omega, hp⟩] at h
  cases h

theorem free_some (va : UserAddress) (h : frameOf s (i, pageIndex va.1) = some f) (hf : f < 32) :
    pagingFreeUserPageFrame s (.list i) va.1 = some (true, released s i va f) := by
  unfold frameOf entryAt at h
  split at h
  · rename_i hp
    unfold pagingFreeUserPageFrame released
    cases h
    simp only [if_pos hp.2, if_pos hf]
    rfl
  · cases h

theorem allocated_take {va : UserAddress} (hf : f < 32) (hc : cell s.pageFrameMap f = false) :
    (frames s).Take (frames (allocated s i va f)) (i, pageIndex va.1) f where
  fresh h := by rw [show cell s.pageFrameMap f = true from h] at hc; cases hc
  self := by
    show frameOf (updatePageDirectoryEntry _ _ _ _ _) _ = _
    rw [frameOf_update_self, if_pos rfl, mappedFrame_new _ hf]
  others x hx := by
    show frameOf (updatePageDirectoryEntry _ _ _ _ _) _ = _
    rw [frameOf_update_ne _ _ _ _ hx]
    rfl
  marked g := by
    show cell (allocated s i va f).pageFrameMap g = true ↔ g = f ∨ cell s.pageFrameMap g = true
    rw [allocated_map, cell_store _ _ _ hf]
    split
    · simp [*]
    · simp [*]

theorem frameOf_allocated {va : UserAddress} (hf : f < 32) (hc : cell s.pageFrameMap f = false) :
    frameOf (allocated s i va f) (i, pageIndex va.1) = some f := (allocated_take hf hc).self

theorem released_give {va : UserAddress} (h : frameOf s (i, pageIndex va.1) = some f) (hf : f < 32) :
    (frames s).Give (frames (released s i va f)) (i, pageIndex va.1) f where
  holds := h
  self := by
    show frameOf (updatePageDirectoryEntry _ _ _ _ _) _ = _
    rw [frameOf_update_self, if_neg (by decide)]
  others x hx := by
    show frameOf (updatePageDirectoryEntry _ _ _ _ _) _ = _
    rw [frameOf_update_ne _ _ _ _ hx]
    rfl
  marked g := by
    show cell (released s i va f).pageFrameMap g = true ↔ g ≠ f ∧ cell s.pageFrameMap g = true
    rw [released_map, cell_store _ _ _ hf]
    split
    · simp [*]
    · simp [*]

/-- The state after directory `i` is handed out. -/
def opened (s : PagingState) (i : Fin 32) (unset : PageDirectoryEntry) : PagingState :=
  { s with pageDirectoryUsed := store s.pageDirectoryUsed i.1 true }.setDirectory
    (store zeroDirectory 0x300 { unset with
      flag := { unset.flag with presentBit := true, writeBit := true, usePagesize4Mb := true } }) (.list i)

theorem opened_used (s : PagingState) (i : Fin 32) (unset : PageDirectoryEntry) :
    (opened s i unset).pageDirectoryUsed = store s.pageDirectoryUsed i.1 true := PagingState.setDirectory_used _ _ _

theorem opened_count (s : PagingState) (i : Fin 32) (unset : PageDirectoryEntry) :
    (opened s i unset).freePageFrameCount = s.freePageFrameCount := PagingState.setDirectory_count _ _ _

theorem opened_map (s : PagingState) (i : Fin 32) (unset : PageDirectoryEntry) :
    (opened s i unset).pageFrameMap = s.pageFrameMap := PagingState.setDirectory_map _ _ _

/-- The state after directory `i` is freed. -/
def closed (s : PagingState) (i : Fin 32) : PagingState :=
  { s with pageDirectoryUsed := store s.pageDirectoryUsed i.1 false }.setDirectory zeroDirectory (.list i)

theorem closed_used (s : PagingState) (i : Fin 32) :
    (closed s i).pageDirectoryUsed = store s.pageDirectoryUsed i.1 false := PagingState.setDirectory_used _ _ _

theorem closed_count (s : PagingState) (i : Fin 32) : (closed s i).freePageFrameCount = s.freePageFrameCount :=
  PagingState.setDirectory_count _ _ _

theorem closed_map (s : PagingState) (i : Fin 32) : (closed s i).pageFrameMap = s.pageFrameMap :=
  PagingState.setDirectory_map _ _ _

theorem create_none (unset : PageDirectoryEntry) (h : Bitmap.firstClear s.pageDirectoryUsed = none) :
    pagingCreateNewPageDirectory s unset = (none, s) := by
  unfold pagingCreateNewPageDirectory
  simp only [h]

theorem create_some (unset : PageDirectoryEntry) (h : Bitmap.firstClear s.pageDirectoryUsed = some i.1) :
    pagingCreateNewPageDirectory s unset = (some (.list i), opened s i unset) := by
  have hi : Fin.ofNat 32 i.1 = i := Fin.ext (Nat.mod_eq_of_lt i.2)
  unfold pagingCreateNewPageDirectory opened
  simp only [h, hi]

/-- The two ways a creation ends: no directory is unused, or an unused one is handed out. -/
theorem create_cases (s : PagingState) (unset : PageDirectoryEntry) :
    pagingCreateNewPageDirectory s unset = (none, s) ∨ ∃ i : Fin 32, cell s.pageDirectoryUsed i.1 = false ∧
      pagingCreateNewPageDirectory s unset = (some (.list i), opened s i unset) := by
  rcases h : Bitmap.firstClear s.pageDirectoryUsed with _ | i
  · exact .inl (create_none unset h)
  · obtain ⟨h1, h2⟩ := Bitmap.firstClear_eq_some h
    exact .inr ⟨⟨i, h1⟩, h2, create_some (i := ⟨i, h1⟩) unset h⟩

theorem cell_zeroDirectory (j : ℕ) : cell zeroDirectory j = default := by
  unfold cell zeroDirectory
  split
  · exact Vector.getElem_replicate _
  · rfl

theorem frameOf_default (h : entryAt s i j = default) : frameOf s (i, j) = none := by
  unfold frameOf
  rw [h, if_neg]
  rintro ⟨-, h⟩
  cases h

theorem opened_drop (s : PagingState) (i : Fin 32) (unset : PageDirectoryEntry) :
    (frames s).Drop (frames (opened s i unset)) (pagesOf i) where
  cleared := by
    rintro ⟨k, j⟩ hk
    obtain rfl : k = i := hk
    show frameOf _ _ = none
    -- the one entry that is set is the kernel's, which is no page of the user
    by_cases hj : j = 0x300
    · unfold frameOf
      rw [if_neg fun h => h.1 hj]
    · refine frameOf_default ?_
      unfold entryAt opened
      rw [PagingState.directory_setDirectory, if_pos rfl, cell_store_ne _ _ (Ne.symm hj), cell_zeroDirectory]
  others := by
    rintro ⟨k, j⟩ hk
    refine frameOf_congr ?_
    unfold opened
    rw [PagingState.directory_setDirectory, if_neg fun h => hk (PageDirectoryPtr.list.inj h)]
    rfl
  marked := by
    unfold frames
    rw [opened_map]

theorem frameOf_opened (s : PagingState) (i : Fin 32) (unset : PageDirectoryEntry) (j : ℕ) :
    frameOf (opened s i unset) (i, j) = none := (opened_drop s i unset).cleared (i, j) rfl

theorem closed_drop (s : PagingState) (i : Fin 32) : (frames s).Drop (frames (closed s i)) (pagesOf i) where
  cleared := by
    rintro ⟨k, j⟩ hk
    obtain rfl : k = i := hk
    refine frameOf_default ?_
    unfold entryAt closed
    rw [PagingState.directory_setDirectory, if_pos rfl, cell_zeroDirectory]
  others := by
    rintro ⟨k, j⟩ hk
    refine frameOf_congr ?_
    unfold closed
    rw [PagingState.directory_setDirectory, if_neg fun h => hk (PageDirectoryPtr.list.inj h)]
    rfl
  marked := by
    unfold frames
    rw [closed_map]

/-! ## Accounts -/

/-- The frames are accounted for: the counter is the number of unmarked frames, the kernel's frame is
marked, every page maps a marked frame that is not the kernel's, and no frame is mapped twice. -/
structure Accounted (s : PagingState) : Prop where
  count : s.freePageFrameCount.toNat = Bitmap.clear s.pageFrameMap
  kernel : cell s.pageFrameMap 0 = true
  mapped : ∀ x f, frameOf s x = some f → cell s.pageFrameMap f = true ∧ f ≠ 0
  sole : ∀ x y f, frameOf s x = some f → frameOf s y = some f → x = y

theorem Accounted.safe (h : Accounted s) : (frames s).Safe 0 := ⟨h.kernel, h.mapped, h.sole⟩

theorem accounted_of_safe (h : (frames s).Safe 0) (hc : s.freePageFrameCount.toNat = Bitmap.clear s.pageFrameMap) :
    Accounted s := ⟨hc, h.reserved, h.marked, h.sole⟩

theorem Accounted.frame_lt (h : Accounted s) {x : Fin 32 × ℕ} (hf : frameOf s x = some f) : f < 32 := by
  have hm := (h.mapped x f hf).1
  by_contra hlt
  unfold cell at hm
  rw [dif_neg hlt] at hm
  cases hm

theorem Accounted.allocated (h : Accounted s) {va : UserAddress} (hf : f < 32) (hc : cell s.pageFrameMap f = false) :
    Accounted (allocated s i va f) := by
  refine accounted_of_safe ((allocated_take hf hc).safe h.safe) ?_
  have hclear := Bitmap.clear_set hf hc
  have hcount := h.count
  have hle := Bitmap.clear_le s.pageFrameMap
  rw [allocated_map]
  show (s.freePageFrameCount - 1).toNat = _
  rw [UInt32.toNat_sub_of_le]
  · rw [hcount]
    show Bitmap.clear s.pageFrameMap - 1 = Bitmap.clear (store s.pageFrameMap f true)
    omega
  · -- the frame that was found clear is counted
    show (1 : UInt32).toNat ≤ s.freePageFrameCount.toNat
    rw [hcount]
    show 1 ≤ _
    omega

theorem Accounted.released (h : Accounted s) {va : UserAddress} (hf : frameOf s (i, pageIndex va.1) = some f) :
    Accounted (released s i va f) := by
  have hlt := h.frame_lt hf
  refine accounted_of_safe ((released_give hf hlt).safe h.safe) ?_
  have hclear := Bitmap.clear_unset hlt (h.mapped _ f hf).1
  have hcount := h.count
  have hle := Bitmap.clear_le (store s.pageFrameMap f false)
  rw [released_map]
  show (s.freePageFrameCount + 1).toNat = _
  rw [UInt32.toNat_add, hcount]
  -- at most 32 frames are counted, so the counter does not wrap
  show (Bitmap.clear s.pageFrameMap + 1) % 2 ^ 32 = Bitmap.clear (store s.pageFrameMap f false)
  omega

theorem Accounted.opened (h : Accounted s) (i : Fin 32) (unset : PageDirectoryEntry) :
    Accounted (opened s i unset) := by
  refine accounted_of_safe ((opened_drop s i unset).safe h.safe) ?_
  rw [opened_map, opened_count]
  exact h.count

theorem Accounted.closed (h : Accounted s) (i : Fin 32) : Accounted (closed s i) := by
  refine accounted_of_safe ((closed_drop s i).safe h.safe) ?_
  rw [closed_map, closed_count]
  exact h.count

theorem frameOf_initial (x : Fin 32 × ℕ) : frameOf initialPaging x = none := by
  have hdir : initialPaging.directory (.list x.1) = zeroDirectory := Vector.getElem_replicate _
  refine frameOf_default ?_
  unfold entryAt
  rw [hdir, cell_zeroDirectory]

theorem accounted_initial : Accounted initialPaging where
  count := by decide
  kernel := by decide
  mapped x f h := by rw [frameOf_initial] at h; cases h
  sole x y f h := by rw [frameOf_initial] at h; cases h

/-! ## Runs -/

/-- An operation on the directories of the pool, at addresses of the user's part. -/
inductive PagingOp where
  | create (unset : PageDirectoryEntry)
  | freeDirectory (i : Fin 32)
  | allocate (i : Fin 32) (va : UserAddress)
  | free (i : Fin 32) (va : UserAddress)

/-- The state after an operation. -/
def performPaging (s : PagingState) : PagingOp → Option PagingState
  | .create unset => some (pagingCreateNewPageDirectory s unset).2
  | .freeDirectory i => some (pagingFreePageDirectory s (.list i)).2
  | .allocate i va => some (pagingAllocateUserPageFrame s (.list i) va.1).2
  | .free i va => (pagingFreeUserPageFrame s (.list i) va.1).map (·.2)

/-- What an operation does to a state whose frames are accounted for. -/
inductive PagingEffect (s : PagingState) : PagingOp → PagingState → Prop
  | exhausted {unset : PageDirectoryEntry} : PagingEffect s (.create unset) s
  | opened {unset : PageDirectoryEntry} {i : Fin 32} (h : cell s.pageDirectoryUsed i.1 = false) :
      PagingEffect s (.create unset) (opened s i unset)
  | closed {i : Fin 32} : PagingEffect s (.freeDirectory i) (closed s i)
  | full {i : Fin 32} {va : UserAddress} (h : Bitmap.firstClear s.pageFrameMap = none) :
      PagingEffect s (.allocate i va) s
  | allocated {i : Fin 32} {va : UserAddress} {f : ℕ} (h : Bitmap.firstClear s.pageFrameMap = some f) :
      PagingEffect s (.allocate i va) (allocated s i va f)
  | unmapped {i : Fin 32} {va : UserAddress} : PagingEffect s (.free i va) s
  | released {i : Fin 32} {va : UserAddress} {f : ℕ} (h : frameOf s (i, pageIndex va.1) = some f) :
      PagingEffect s (.free i va) (released s i va f)

/-- Every operation ends. -/
theorem Accounted.perform (h : Accounted s) (op : PagingOp) :
    ∃ s', performPaging s op = some s' ∧ PagingEffect s op s' := by
  cases op with
  | create unset =>
    refine ⟨_, rfl, ?_⟩
    rcases create_cases s unset with h1 | ⟨i, h1, h2⟩
    · rw [h1]
      exact .exhausted
    · rw [h2]
      exact .opened h1
  | freeDirectory i => exact ⟨_, rfl, .closed⟩
  | allocate i va =>
    refine ⟨_, rfl, ?_⟩
    rcases hf : Bitmap.firstClear s.pageFrameMap with _ | f
    · rw [allocate_none i va hf]
      exact .full hf
    · rw [allocate_some i va hf]
      exact .allocated hf
  | free i va =>
    have hperform : performPaging s (.free i va) = (pagingFreeUserPageFrame s (.list i) va.1).map (·.2) := rfl
    rcases hf : frameOf s (i, pageIndex va.1) with _ | f
    · rw [hperform, free_none va hf]
      exact ⟨s, rfl, .unmapped⟩
    · rw [hperform, free_some va hf (h.frame_lt hf)]
      exact ⟨_, rfl, .released hf⟩

theorem PagingEffect.accounted {op : PagingOp} (h : PagingEffect s op s') (hs : Accounted s) : Accounted s' := by
  cases h with
  | exhausted => exact hs
  | full => exact hs
  | unmapped => exact hs
  | opened => exact hs.opened _ _
  | closed => exact hs.closed _
  | allocated hf =>
    obtain ⟨h1, h2⟩ := Bitmap.firstClear_eq_some hf
    exact hs.allocated h1 h2
  | released hf => exact hs.released hf

/-- The directories handed out and not freed since, after an operation. -/
def handedOut (s : PagingState) (inUse : Finset (Fin 32)) : PagingOp → Finset (Fin 32)
  | .create unset => match (pagingCreateNewPageDirectory s unset).1 with
    | some (.list i) => insert i inUse
    | _ => inUse
  | .freeDirectory i => inUse.erase i
  | _ => inUse

/-- One operation on a state and the directories in use. -/
def stepPaging (x : PagingState × Finset (Fin 32)) (op : PagingOp) : Option (PagingState × Finset (Fin 32)) :=
  (performPaging x.1 op).map fun s => (s, handedOut x.1 x.2 op)

/-- Allocates a frame for each of the given pages and tells whether every allocation succeeded. -/
def allocateEach : List (Fin 32 × UserAddress) → PagingState → Bool
  | [], _ => true
  | (i, va) :: l, s =>
    let (ok, s) := pagingAllocateUserPageFrame s (.list i) va.1
    ok && allocateEach l s

theorem allocateEach_iff (h : Accounted s) (l : List (Fin 32 × UserAddress)) :
    allocateEach l s = true ↔ l.length ≤ Bitmap.clear s.pageFrameMap := by
  induction l generalizing s with
  | nil => simp [allocateEach]
  | cons x l ih =>
    obtain ⟨i, va⟩ := x
    rw [allocateEach]
    rcases hf : Bitmap.firstClear s.pageFrameMap with _ | f
    · rw [allocate_none i va hf, Bitmap.firstClear_eq_none.1 hf]
      simp
    · obtain ⟨h1, h2⟩ := Bitmap.firstClear_eq_some hf
      have hclear := Bitmap.clear_set h1 h2
      have hs : Accounted (allocated s i va f) := h.allocated h1 h2
      rw [allocate_some i va hf]
      simp only [Bool.true_and, List.length_cons]
      rw [ih hs, allocated_map]
      omega

/-- The check of an amount tells whether as many allocations would succeed. -/
theorem allocateCheck_iff (h : Accounted s) (amount : UInt32) {l : List (Fin 32 × UserAddress)}
    (hl : l.length = amount.toNat) : pagingAllocateCheck s amount = true ↔ allocateEach l s = true := by
  rw [allocateEach_iff h, hl, ← h.count]
  unfold pagingAllocateCheck
  rw [decide_eq_true_iff]
  exact UInt32.le_iff_toNat_le

/-- The directories in use are those the code takes for used. -/
theorem perform_used (h : Accounted s) {op : PagingOp} (hs : performPaging s op = some s') {inUse : Finset (Fin 32)}
    (hu : ∀ k : Fin 32, k ∈ inUse ↔ cell s.pageDirectoryUsed k.1 = true) (k : Fin 32) :
    k ∈ handedOut s inUse op ↔ cell s'.pageDirectoryUsed k.1 = true := by
  cases op with
  | create unset =>
    simp only [performPaging, Option.some.injEq] at hs
    subst hs
    rcases create_cases s unset with h1 | ⟨i, h1, h2⟩
    · simp only [handedOut, h1]
      exact hu k
    · simp only [handedOut, h2, opened_used, Finset.mem_insert, hu]
      rw [cell_store _ _ _ i.2]
      simp only [Fin.val_inj]
      split <;> simp [*]
  | freeDirectory i =>
    obtain rfl : closed s i = s' := Option.some.inj hs
    simp only [handedOut, closed_used, Finset.mem_erase, hu]
    rw [cell_store _ _ _ i.2]
    simp only [Fin.val_inj]
    split <;> simp [*]
  | allocate i va =>
    obtain ⟨_, h1, h2⟩ := h.perform (.allocate i va)
    obtain rfl := Option.some.inj (hs.symm.trans h1)
    cases h2 with
    | full => exact hu k
    | allocated => rw [allocated_used]; exact hu k
  | free i va =>
    obtain ⟨_, h1, h2⟩ := h.perform (.free i va)
    obtain rfl := Option.some.inj (hs.symm.trans h1)
    cases h2 with
    | unmapped => exact hu k
    | released => rw [released_used]; exact hu k

theorem stepPaging_total {x : PagingState × Finset (Fin 32)} (h : Accounted x.1)
    (hu : ∀ k : Fin 32, k ∈ x.2 ↔ cell x.1.pageDirectoryUsed k.1 = true) (op : PagingOp) :
    ∃ x', stepPaging x op = some x' ∧ Accounted x'.1 ∧
      ∀ k : Fin 32, k ∈ x'.2 ↔ cell x'.1.pageDirectoryUsed k.1 = true := by
  obtain ⟨s', h1, h2⟩ := h.perform op
  refine ⟨(s', handedOut x.1 x.2 op), ?_, h2.accounted h, perform_used h h1 hu⟩
  unfold stepPaging
  rw [h1]
  rfl

theorem foldlM_stepPaging {x : PagingState × Finset (Fin 32)} (h : Accounted x.1)
    (hu : ∀ k : Fin 32, k ∈ x.2 ↔ cell x.1.pageDirectoryUsed k.1 = true) (ops : List PagingOp) :
    ∃ x', ops.foldlM stepPaging x = some x' ∧ Accounted x'.1 ∧
      ∀ k : Fin 32, k ∈ x'.2 ↔ cell x'.1.pageDirectoryUsed k.1 = true := by
  induction ops generalizing x with
  | nil => exact ⟨x, rfl, h, hu⟩
  | cons op ops ih =>
    obtain ⟨y, h1, h2, h3⟩ := stepPaging_total h hu op
    rw [List.foldlM_cons, h1]
    exact ih h2 h3

theorem cell_initial_used (k : Fin 32) : cell initialPaging.pageDirectoryUsed k.1 = false := by
  have h (v : Vector Bool 32) (hv : v = Vector.replicate 32 false) : cell v k.1 = false := by
    unfold cell
    rw [dif_pos k.2, hv, Vector.getElem_replicate]
  exact h _ rfl

/-- However the operations are ordered, no frame is mapped twice, the kernel's frame is never given, the
counter is exact, a directory in use is never handed out, and the check of an amount is exact. -/
theorem allocation_safe (ops : List PagingOp) :
    ∃ s inUse, ops.foldlM stepPaging (initialPaging, ∅) = some (s, inUse) ∧ Accounted s ∧
      (∀ unset i s', pagingCreateNewPageDirectory s unset = (some (.list i), s') → i ∉ inUse) ∧
      ∀ amount l, l.length = amount.toNat → (pagingAllocateCheck s amount = true ↔ allocateEach l s = true) := by
  have hu (k : Fin 32) : k ∈ (∅ : Finset (Fin 32)) ↔ cell initialPaging.pageDirectoryUsed k.1 = true := by
    rw [cell_initial_used]
    simp
  obtain ⟨⟨s, inUse⟩, h1, h2, h3⟩ := foldlM_stepPaging (x := (initialPaging, ∅)) accounted_initial hu ops
  refine ⟨s, inUse, h1, h2, fun unset i s' hc hi => ?_, fun amount l hl => allocateCheck_iff h2 amount hl⟩
  -- the directory handed out was not marked as used
  rcases create_cases s unset with h4 | ⟨k, h4, h5⟩
  · rw [h4] at hc
    cases hc
  · rw [h5] at hc
    cases hc
    rw [h3] at hi
    exact absurd (h4.symm.trans hi) Bool.false_ne_true

end BebasOs.Memory
