/-
Leaks of page frames: which operations leave a marked frame that no page of a used directory maps. A
frame is out of reach as soon as its page is mapped over, or its directory is freed while it maps it.
-/
import BebasOs.Memory.Frames

namespace BebasOs.Memory

open Bytes Search Relation

variable {s s' : PagingState}

/-! ## Which operations leak -/

/-- Every marked frame but the kernel's is mapped by a page of a directory in use. -/
def NoLeak (s : PagingState) : Prop :=
  ∀ f, cell s.pageFrameMap f = true → f ≠ 0 →
    ∃ x : Fin 32 × ℕ, cell s.pageDirectoryUsed x.1.1 = true ∧ frameOf s x = some f

/-- A directory is freed only when it maps nothing, and a frame is allocated only for a page of a used
directory that is not mapped. -/
def Keeps (s : PagingState) : PagingOp → Prop
  | .create _ => True
  | .freeDirectory i => ∀ j, frameOf s (i, j) = none
  | .allocate i va =>
    s.freePageFrameCount = 0 ∨ cell s.pageDirectoryUsed i.1 = true ∧ frameOf s (i, pageIndex va.1) = none
  | .free _ _ => True

/-- The pages of the directories in use. -/
def usedPages (s : PagingState) : Set (Fin 32 × ℕ) := { x | cell s.pageDirectoryUsed x.1.1 = true }

theorem noLeak_iff_covered : NoLeak s ↔ (frames s).Covered 0 (usedPages s) := Iff.rfl

/-- Opening a directory leaves what the others use as it was, and so does closing one. -/
theorem mem_usedPages_opened {i : Fin 32} {unset : PageDirectoryEntry} {x : Fin 32 × ℕ} (hx : x ∉ pagesOf i) :
    x ∈ usedPages (opened s i unset) ↔ x ∈ usedPages s := by
  show cell (opened s i unset).pageDirectoryUsed x.1.1 = true ↔ _
  rw [opened_used, cell_store_ne _ _ fun he => hx (Fin.ext he.symm)]
  rfl

theorem mem_usedPages_closed {i : Fin 32} {x : Fin 32 × ℕ} (hx : x ∉ pagesOf i) :
    x ∈ usedPages (closed s i) ↔ x ∈ usedPages s := by
  show cell (closed s i).pageDirectoryUsed x.1.1 = true ↔ _
  rw [closed_used, cell_store_ne _ _ fun he => hx (Fin.ext he.symm)]
  rfl

theorem Accounted.count_zero_iff (h : Accounted s) :
    s.freePageFrameCount = 0 ↔ Bitmap.firstClear s.pageFrameMap = none := by
  rw [Bitmap.firstClear_eq_none, ← h.count]
  exact ⟨fun h => by rw [h]; rfl, fun h => UInt32.toNat_inj.1 h⟩

/-- An operation leaks nothing exactly when it meets the condition. -/
theorem noLeak_iff_keeps {op : PagingOp} (h : PagingEffect s op s') (hs : Accounted s) (hn : NoLeak s) :
    NoLeak s' ↔ Keeps s op := by
  have hc := noLeak_iff_covered.1 hn
  cases h with
  | exhausted => exact ⟨fun _ => trivial, fun _ => hn⟩
  | unmapped => exact ⟨fun _ => trivial, fun _ => hn⟩
  | full h => exact ⟨fun _ => .inl (hs.count_zero_iff.2 h), fun _ => hn⟩
  | @opened unset i h =>
    refine ⟨fun _ => trivial, fun _ => ?_⟩
    -- the new directory was unused, so its pages held no frame
    refine ((opened_drop s i unset).covered_iff hs.safe hc ?_).2 ?_
    · exact fun x hk hx => (mem_usedPages_opened hk).2 hx
    · rintro ⟨k, j⟩ hk
      obtain rfl : k = i := hk
      refine hc.empty hs.safe fun hx => ?_
      exact absurd (h.symm.trans hx) Bool.false_ne_true
  | @closed i =>
    refine ((closed_drop s i).covered_iff hs.safe hc ?_).trans ⟨fun h j => h (i, j) rfl, ?_⟩
    · exact fun x hk hx => (mem_usedPages_closed hk).2 hx
    · rintro h ⟨k, j⟩ hk
      obtain rfl : k = i := hk
      exact h j
  | @allocated i va f h =>
    obtain ⟨h1, h2⟩ := Bitmap.firstClear_eq_some h
    have hcount : s.freePageFrameCount ≠ 0 := fun h0 => by
      rw [hs.count_zero_iff.1 h0] at h
      cases h
    have hused : usedPages (allocated s i va f) = usedPages s := by
      unfold usedPages
      rw [allocated_used]
    rw [noLeak_iff_covered, hused, (allocated_take h1 h2).covered_iff hs.safe hc]
    exact ⟨.inr, fun h => h.resolve_left hcount⟩
  | @released i va f h =>
    have hused : usedPages (released s i va f) = usedPages s := by
      unfold usedPages
      rw [released_used]
    refine ⟨fun _ => trivial, fun _ => ?_⟩
    rw [noLeak_iff_covered, hused]
    exact (released_give h (hs.frame_lt h)).covered hc

theorem noLeak_initial : NoLeak initialPaging := by
  intro f hf h0
  have h : cell (store (Vector.replicate 32 false) 0 true) f = true := hf
  rw [cell_store_ne _ _ (Ne.symm h0)] at h
  unfold cell at h
  split at h
  · rw [Vector.getElem_replicate] at h
    cases h
  · cases h

/-! ## Runs -/

/-- An operation that meets the condition. -/
def PagingStep (s s' : PagingState) : Prop := ∃ op, Keeps s op ∧ performPaging s op = some s'

theorem run_accounted (h : ReflTransGen PagingStep initialPaging s) : Accounted s ∧ NoLeak s := by
  induction h with
  | refl => exact ⟨accounted_initial, noLeak_initial⟩
  | tail _ hstep ih =>
    obtain ⟨op, hk, hop⟩ := hstep
    obtain ⟨s', h1, h2⟩ := ih.1.perform op
    obtain rfl := Option.some.inj (hop.symm.trans h1)
    exact ⟨h2.accounted ih.1, (noLeak_iff_keeps h2 ih.1 ih.2).2 hk⟩

/-! ## A page mapped twice -/

/-- The page at address zero. -/
def pageZero : UserAddress := ⟨0, by decide⟩

/-- The first directory with its page zero mapped to frame 1. -/
def pageZeroMapped : PagingState := allocated (opened initialPaging 0 default) 0 pageZero 1

theorem create_first : performPaging initialPaging (.create default) = some (opened initialPaging 0 default) := by
  have h : Bitmap.firstClear initialPaging.pageDirectoryUsed = some 0 := by decide
  simp only [performPaging, create_some (i := 0) default h]

theorem allocate_pageZero :
    performPaging (opened initialPaging 0 default) (.allocate 0 pageZero) = some pageZeroMapped := by
  have h : Bitmap.firstClear initialPaging.pageFrameMap = some 1 := by decide
  rw [← opened_map initialPaging 0 default] at h
  simp only [performPaging, allocate_some 0 pageZero h, pageZeroMapped]

theorem frameOf_pageZero : frameOf pageZeroMapped (0, pageIndex pageZero.1) = some 1 := by
  have h : cell initialPaging.pageFrameMap 1 = false := by decide
  rw [← opened_map initialPaging 0 default] at h
  exact frameOf_allocated (by decide) h

theorem run_pageZero : ReflTransGen PagingStep initialPaging pageZeroMapped := by
  have hused : cell (opened initialPaging 0 default).pageDirectoryUsed (0 : Fin 32).1 = true := by
    rw [opened_used, cell_store _ _ _ (by decide), if_pos rfl]
  have hnone := frameOf_opened initialPaging 0 default (pageIndex pageZero.1)
  have hfirst : PagingStep initialPaging (opened initialPaging 0 default) := ⟨.create default, trivial, create_first⟩
  exact (ReflTransGen.single hfirst).tail ⟨.allocate 0 pageZero, .inr ⟨hused, hnone⟩, allocate_pageZero⟩

/-- A run of operations that meet the condition leaks no frame, and the first operation that does not
meet it leaks one. -/
theorem run_noLeak (h : ReflTransGen PagingStep initialPaging s) :
    NoLeak s ∧ ∀ op s', performPaging s op = some s' → (NoLeak s' ↔ Keeps s op) := by
  obtain ⟨hs, hn⟩ := run_accounted h
  refine ⟨hn, fun op s' hop => ?_⟩
  obtain ⟨_, h1, h2⟩ := hs.perform op
  obtain rfl := Option.some.inj (hop.symm.trans h1)
  exact noLeak_iff_keeps h2 hs hn

theorem run_noLeak_pageZero : NoLeak pageZeroMapped ∧ frameOf pageZeroMapped (0, pageIndex pageZero.1) = some 1 :=
  ⟨(run_noLeak run_pageZero).1, frameOf_pageZero⟩

/-- A page that is mapped twice leaks the frame of its first mapping. -/
theorem frame_leaked : ∃ s,
    [.create default, .allocate 0 pageZero, .allocate 0 pageZero].foldlM performPaging initialPaging = some s ∧
      ¬ NoLeak s := by
  obtain ⟨hs, hn⟩ := run_accounted run_pageZero
  obtain ⟨s, h1, h2⟩ := hs.perform (.allocate 0 pageZero)
  refine ⟨s, ?_, fun h => ?_⟩
  · simp only [List.foldlM_cons, List.foldlM_nil, create_first, allocate_pageZero, h1, Option.bind_eq_bind,
      Option.bind_some, Option.pure_def]
  · -- frames are left, and the page was mapped
    rcases (noLeak_iff_keeps h2 hs hn).1 h with h | ⟨-, h⟩
    · revert h
      decide
    · rw [frameOf_pageZero] at h
      cases h

end BebasOs.Memory
