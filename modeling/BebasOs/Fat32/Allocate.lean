/-
The two loops of a file write. The allocation loop takes the first free clusters in increasing order
and links them into one chain, or runs out and leaves every taken entry of the table as it was; the
copy loop then follows that chain and writes the buffer into it, cluster by cluster.
-/
import BebasOs.Fat32.WellFormed

namespace BebasOs.Fat32

open Bytes Links Search

/-! ## The free clusters -/

/-- The clusters from 3 on whose entry is empty, in increasing order. -/
def freeClusters (t : FAT32FileAllocationTable) : List ℕ := hits (isEmptyEntry t) 3 512

@[simp] theorem isEmptyEntry_iff {t : FAT32FileAllocationTable} {i : ℕ} :
    isEmptyEntry t i = true ↔ cell t i = fatEmptyEntry := by simp [isEmptyEntry]

theorem isEmptyEntry_congr {t t' : FAT32FileAllocationTable} {i : ℕ} (h : cell t' i = cell t i) :
    isEmptyEntry t' i = isEmptyEntry t i := by unfold isEmptyEntry; rw [h]

theorem mem_freeClusters {t : FAT32FileAllocationTable} {c : ℕ} :
    c ∈ freeClusters t ↔ 3 ≤ c ∧ c < 512 ∧ cell t c = fatEmptyEntry := by
  unfold freeClusters; rw [mem_hits, isEmptyEntry_iff]

theorem freeClusters_nodup (t : FAT32FileAllocationTable) : (freeClusters t).Nodup := hits_nodup

theorem hits_store_of_lt {t : FAT32FileAllocationTable} {c lo : ℕ} (v : UInt32) (h : c < lo) :
    hits (isEmptyEntry (store t c v)) lo 512 = hits (isEmptyEntry t) lo 512 :=
  hits_congr fun _ h1 _ => isEmptyEntry_congr (cell_store_ne _ _ (by omega))

/-! ## Linking -/

/-- The end-of-file mark, stored in the last round only. -/
def markLast (t : FAT32FileAllocationTable) (c : ℕ) (rest : List ℕ) : FAT32FileAllocationTable :=
  if rest = [] then store t c fatEndOfFile else t

/-- The table after the rounds of `allocate` that take the clusters of the list, after `prev`. -/
def linkAfter : FAT32FileAllocationTable → ℕ → List ℕ → FAT32FileAllocationTable
  | t, _, [] => t
  | t, prev, c :: cs => linkAfter (markLast (store t prev (UInt32.ofNat c)) c cs) c cs

/-- The table with the clusters of the list linked into one chain. -/
def link (t : FAT32FileAllocationTable) : List ℕ → FAT32FileAllocationTable
  | [] => t
  | c :: cs => linkAfter (markLast t c cs) c cs

theorem toNat_ofNat_cluster {c : ℕ} (h : c < 512) : (UInt32.ofNat c).toNat = c := by
  rw [UInt32.toNat_ofNat']; omega

theorem ofNat_cluster_ne_empty {c : ℕ} (h1 : 0 < c) (h2 : c < 512) : UInt32.ofNat c ≠ fatEmptyEntry := by
  intro h
  have := congrArg UInt32.toNat h
  rw [toNat_ofNat_cluster h2] at this
  simp [fatEmptyEntry] at this
  omega

theorem ofNat_cluster_ne_eof {c : ℕ} (h : c < 512) : UInt32.ofNat c ≠ fatEndOfFile := by
  intro he
  have := congrArg UInt32.toNat he
  rw [toNat_ofNat_cluster h] at this
  simp [fatEndOfFile] at this
  omega

theorem next_of_eof {t : FAT32FileAllocationTable} {c : ℕ} (h : cell t c = fatEndOfFile) : next t c = none :=
  if_pos h

theorem next_of_cluster {t : FAT32FileAllocationTable} {b c : ℕ} (hc : c < 512) (h : cell t b = UInt32.ofNat c) :
    next t b = some c := by
  unfold next
  rw [h, if_neg (ofNat_cluster_ne_eof hc), toNat_ofNat_cluster hc]

/-- What a linked table holds: a chain through the list, and everything else as before. -/
structure Linked (t t' : FAT32FileAllocationTable) (a : ℕ) (l : List ℕ) : Prop where
  others : ∀ x, x ∉ l → cell t' x = cell t x
  chain : Chain (next t') a l
  used : ∀ c ∈ l, cell t' c ≠ fatEmptyEntry

theorem linked_last (t : FAT32FileAllocationTable) {c : ℕ} (hc : c < 512) :
    Linked t (store t c fatEndOfFile) c [c] where
  others x hx := cell_store_ne _ _ (by simpa [eq_comm] using hx)
  chain := .last (next_of_eof (cell_store_self _ _ hc))
  used x hx := by
    rw [List.mem_singleton.1 hx, cell_store_self _ _ hc]; decide

/-- The induction is on the list: the entry of `prev` is stored before the rounds after it, which
leave it alone. -/
theorem linked_after : ∀ (cs : List ℕ) (t : FAT32FileAllocationTable) (prev c : ℕ),
    (prev :: c :: cs).Nodup → (∀ x ∈ prev :: c :: cs, 3 ≤ x ∧ x < 512) →
      Linked t (linkAfter t prev (c :: cs)) prev (prev :: c :: cs)
  | cs, t, prev, c, hn, hr => by
    have hp := hr prev List.mem_cons_self
    have hc := hr c (by simp)
    obtain ⟨hpn, hn'⟩ := List.nodup_cons.1 hn
    have rest : Linked (store t prev (UInt32.ofNat c)) (linkAfter t prev (c :: cs)) c (c :: cs) := by
      cases cs with
      | nil => exact linked_last _ hc.2
      | cons c' cs =>
        exact linked_after cs _ c c' hn' fun x hx => hr x (List.mem_cons_of_mem _ hx)
    have hprev : cell (linkAfter t prev (c :: cs)) prev = UInt32.ofNat c := by
      rw [rest.others prev hpn, cell_store_self _ _ hp.2]
    refine ⟨fun x hx => ?_, .link (next_of_cluster hc.2 hprev) rest.chain, fun x hx => ?_⟩
    · rw [List.mem_cons, not_or] at hx
      rw [rest.others x hx.2, cell_store_ne _ _ (Ne.symm hx.1)]
    · rcases List.mem_cons.1 hx with rfl | hx
      · rw [hprev]; exact ofNat_cluster_ne_empty (by omega) hc.2
      · exact rest.used x hx

theorem linked_link (t : FAT32FileAllocationTable) {c : ℕ} {cs : List ℕ} (hn : (c :: cs).Nodup)
    (hr : ∀ x ∈ c :: cs, 3 ≤ x ∧ x < 512) : Linked t (link t (c :: cs)) c (c :: cs) := by
  cases cs with
  | nil => exact linked_last t (hr c List.mem_cons_self).2
  | cons c' cs => exact linked_after cs t c c' hn hr

/-! ## The allocation loop -/

/-- A driver state with another table. -/
def FAT32DriverState.withFat (m : FAT32DriverState) (t : FAT32FileAllocationTable) : FAT32DriverState :=
  { m with fatTable := t }

theorem storeSlot_fatTable (m : FAT32DriverState) (j : ℕ) (e : FAT32DirectoryEntry) :
    (storeSlot m j e).fatTable = m.fatTable := by
  unfold storeSlot; split <;> rfl

theorem storeSlot_dirTableBuf (m : FAT32DriverState) (j : ℕ) (e : FAT32DirectoryEntry) :
    (storeSlot m j e).dirTableBuf = store m.dirTableBuf j e := by
  unfold storeSlot
  split
  · rfl
  · exact (store_ge _ _ (by omega)).symm

variable {r : FAT32DriverRequest} {j k : ℕ}

/-- The table entry that a round links to the cluster it found. -/
def linkPrev (t : FAT32FileAllocationTable) (prev : Option ℕ) (c : ℕ) : FAT32FileAllocationTable :=
  prev.elim t fun p => store t p (UInt32.ofNat c)

theorem allocateRound_fatTable (i : ℕ) (a : Allocation) (c : ℕ) :
    (allocateRound r j k i a c).memory.fatTable =
      if i = k - 1 then store (linkPrev a.memory.fatTable a.previndex c) c fatEndOfFile
      else linkPrev a.memory.fatTable a.previndex c := by
  unfold allocateRound linkPrev
  rcases hp : a.previndex with _ | p <;> simp only <;> split_ifs <;>
    simp [hp, storeSlot_fatTable]

theorem allocateRound_memory {i : ℕ} (a : Allocation) (c : ℕ) (hi : i ≠ 0) :
    (allocateRound r j k i a c).memory =
      a.memory.withFat (allocateRound r j k i a c).memory.fatTable := by
  unfold allocateRound
  simp only [if_neg hi]
  rcases hp : a.previndex with _ | p <;> simp only <;> split <;> rfl

theorem allocateRound_memory_zero (a : Allocation) (c : ℕ) :
    (allocateRound r j k 0 a c).memory =
      (storeSlot a.memory j (fileEntry r c)).withFat (allocateRound r j k 0 a c).memory.fatTable := by
  unfold allocateRound
  simp only [if_true]
  rcases hp : a.previndex with _ | p <;> simp only <;> split <;> rfl

theorem allocateRound_firstindex (i : ℕ) (a : Allocation) (c : ℕ) :
    (allocateRound r j k i a c).firstindex = if i = 0 then c else a.firstindex := by
  unfold allocateRound
  rcases hp : a.previndex with _ | p <;> simp only <;> split_ifs <;> simp [hp]

theorem allocate_found {n i c : ℕ} {a : Allocation}
    (h : first (isEmptyEntry a.memory.fatTable) a.tempindex 512 = some c) :
    allocate r j k (n + 1) i a = allocate r j k n (i + 1) (allocateRound r j k i a c) := by
  conv_lhs => unfold allocate
  rw [h]

/-- The mark of a round is the mark of the last cluster of the list. -/
theorem allocateRound_markLast {n i c : ℕ} {a : Allocation} {rest : List ℕ} (hk : i + (n + 1) = k)
    (hn : n ≤ rest.length) :
    (allocateRound r j k i a c).memory.fatTable =
      markLast (linkPrev a.memory.fatTable a.previndex c) c (rest.take n) := by
  have hlast : i = k - 1 ↔ rest.take n = [] := by
    rw [List.take_eq_nil_iff, ← List.length_eq_zero_iff]; omega
  rw [allocateRound_fatTable]
  unfold markLast
  simp only [hlast]

/-- The search of the next round does not see the entries stored so far. -/
theorem hits_allocateRound {i c : ℕ} {a : Allocation} (hp : ∀ p, a.previndex = some p → p < c) :
    hits (isEmptyEntry (allocateRound r j k i a c).memory.fatTable) (c + 1) 512 =
      hits (isEmptyEntry a.memory.fatTable) (c + 1) 512 := by
  have hlink : hits (isEmptyEntry (linkPrev a.memory.fatTable a.previndex c)) (c + 1) 512 =
      hits (isEmptyEntry a.memory.fatTable) (c + 1) 512 := by
    rcases h : a.previndex with _ | p
    · rfl
    · exact hits_store_of_lt _ (by have := hp p h; omega)
  rw [allocateRound_fatTable]
  split
  · rw [hits_store_of_lt _ (by omega), hlink]
  · exact hlink

/-- The rounds after the first, when there are enough free clusters. -/
theorem allocate_after : ∀ (n i prev : ℕ) (a : Allocation), 1 ≤ i → i + n = k → a.previndex = some prev →
    prev < a.tempindex → n ≤ (hits (isEmptyEntry a.memory.fatTable) a.tempindex 512).length →
      ∃ a', allocate r j k n i a = .ok a' ∧ a'.firstindex = a.firstindex ∧
        a'.memory = a.memory.withFat
          (linkAfter a.memory.fatTable prev ((hits (isEmptyEntry a.memory.fatTable) a.tempindex 512).take n))
  | 0, i, prev, a, _, _, _, _, _ => ⟨a, rfl, rfl, rfl⟩
  | n + 1, i, prev, a, hi, hk, hp, hlt, hlen => by
    rcases hf : first (isEmptyEntry a.memory.fatTable) a.tempindex 512 with _ | c
    · rw [hits_of_first_none hf] at hlen
      simp at hlen
    · obtain ⟨hc, -, -, -⟩ := first_eq_some.1 hf
      -- the round only writes entries up to `c`, which the rounds after it do not search
      have hsee := hits_allocateRound (r := r) (j := j) (k := k) (i := i) (a := a) (c := c)
        fun p h => by rw [hp] at h; cases h; omega
      rw [hits_of_first_some hf] at hlen ⊢
      rw [List.length_cons, Nat.add_le_add_iff_right] at hlen
      rw [List.take_succ_cons, allocate_found hf]
      obtain ⟨a', h1, h2, h3⟩ := allocate_after n (i + 1) c (allocateRound r j k i a c) (by omega) (by omega) rfl
        (Nat.lt_succ_self c) (by
          show n ≤ (hits (isEmptyEntry (allocateRound r j k i a c).memory.fatTable) (c + 1) 512).length
          rw [hsee]; exact hlen)
      have ht : (allocateRound r j k i a c).tempindex = c + 1 := rfl
      refine ⟨a', h1, ?_, ?_⟩
      · rw [h2, allocateRound_firstindex, if_neg (by omega)]
      · rw [h3, ht, hsee, allocateRound_markLast hk hlen, hp, allocateRound_memory a c (by omega)]
        rfl

/-- The loop succeeds when there are enough free clusters: it takes the first of them. -/
theorem allocate_ok {m : FAT32DriverState} {c : ℕ} (hk : 1 ≤ k)
    (hf : first (isEmptyEntry m.fatTable) 3 512 = some c) (hlen : k ≤ (freeClusters m.fatTable).length) :
    ∃ a, allocate r j k k 0 ⟨m, c, none, 0⟩ = .ok a ∧ a.firstindex = c ∧
      a.memory = (storeSlot m j (fileEntry r c)).withFat (link m.fatTable ((freeClusters m.fatTable).take k)) := by
  obtain ⟨n, rfl⟩ : ∃ n, k = n + 1 := ⟨k - 1, by omega⟩
  have hh : freeClusters m.fatTable = c :: hits (isEmptyEntry m.fatTable) (c + 1) 512 := hits_of_first_some hf
  obtain ⟨hc1, hc2, hc3, -⟩ := first_eq_some.1 hf
  have hf' : first (isEmptyEntry m.fatTable) c 512 = some c :=
    first_eq_some.2 ⟨Nat.le_refl _, hc2, hc3, fun j h1 h2 => absurd h1 (by omega)⟩
  -- the first round finds `c` again, and has no entry before it to link
  have hsee := hits_allocateRound (r := r) (j := j) (k := n + 1) (i := 0) (a := ⟨m, c, none, 0⟩) (c := c)
    fun p h => by cases h
  rw [hh] at hlen ⊢
  rw [List.length_cons, Nat.add_le_add_iff_right] at hlen
  rw [List.take_succ_cons, allocate_found (by exact hf')]
  obtain ⟨a, h1, h2, h3⟩ := allocate_after (k := n + 1) n 1 c (allocateRound r j (n + 1) 0 ⟨m, c, none, 0⟩ c)
    (Nat.le_refl 1) (Nat.add_comm 1 n) rfl (Nat.lt_succ_self c) (by
      show n ≤ (hits (isEmptyEntry (allocateRound r j (n + 1) 0 ⟨m, c, none, 0⟩ c).memory.fatTable)
        (c + 1) 512).length
      rw [hsee]; exact hlen)
  have ht : (allocateRound r j (n + 1) 0 ⟨m, c, none, 0⟩ c).tempindex = c + 1 := rfl
  refine ⟨a, h1, ?_, ?_⟩
  · rw [h2, allocateRound_firstindex, if_pos rfl]
  · rw [h3, ht, hsee, allocateRound_markLast (Nat.zero_add (n + 1)) hlen, allocateRound_memory_zero]
    rfl

/-- The stores of a round fall on empty entries, at or before the cluster it takes. -/
theorem allocateRound_other {t : FAT32FileAllocationTable} {a : Allocation} {i c x : ℕ} (hc : cell t c = fatEmptyEntry)
    (hle : a.tempindex ≤ c) (hprev : ∀ p, a.previndex = some p → cell t p = fatEmptyEntry ∧ p < a.tempindex)
    (hx : cell t x ≠ fatEmptyEntry ∨ c + 1 ≤ x) :
    cell (allocateRound r j k i a c).memory.fatTable x = cell a.memory.fatTable x := by
  have hxc : c ≠ x := by
    rintro rfl
    rcases hx with hx | hx
    · exact hx hc
    · omega
  have hlink : cell (linkPrev a.memory.fatTable a.previndex c) x = cell a.memory.fatTable x := by
    rcases hp : a.previndex with _ | p
    · rfl
    · obtain ⟨hp1, hp2⟩ := hprev p hp
      refine cell_store_ne _ _ ?_
      rintro rfl
      rcases hx with hx | hx
      · exact hx hp1
      · omega
  rw [allocateRound_fatTable]
  split
  · rw [cell_store_ne _ _ hxc, hlink]
  · exact hlink

/-- When the free clusters run out, the entries that were taken are as they were. The invariant: the
entries behind the search index and the taken ones are those of the table `t` the loop began with. -/
theorem allocate_error {t : FAT32FileAllocationTable} : ∀ (n i : ℕ) (a : Allocation),
    (∀ x, cell t x ≠ fatEmptyEntry → cell a.memory.fatTable x = cell t x) →
    (∀ x, a.tempindex ≤ x → cell a.memory.fatTable x = cell t x) →
    (∀ p, a.previndex = some p → cell t p = fatEmptyEntry ∧ p < a.tempindex) →
    (hits (isEmptyEntry t) a.tempindex 512).length < n →
      ∃ m, allocate r j k n i a = .error m ∧ ∀ x, cell t x ≠ fatEmptyEntry → cell m.fatTable x = cell t x
  | 0, i, a, _, _, _, hlen => by simp at hlen
  | n + 1, i, a, hold, hnew, hprev, hlen => by
    have hs : ∀ x, a.tempindex ≤ x → x < 512 → isEmptyEntry a.memory.fatTable x = isEmptyEntry t x :=
      fun x h1 _ => isEmptyEntry_congr (hnew x h1)
    rcases hf : first (isEmptyEntry a.memory.fatTable) a.tempindex 512 with _ | c
    · refine ⟨a.memory, ?_, hold⟩
      unfold allocate
      rw [hf]
    · have hft : first (isEmptyEntry t) a.tempindex 512 = some c := (first_congr hs).symm.trans hf
      obtain ⟨hc1, hc2, hc3, -⟩ := first_eq_some.1 hft
      rw [isEmptyEntry_iff] at hc3
      rw [hits_of_first_some hft] at hlen
      rw [allocate_found hf]
      refine allocate_error n (i + 1) (allocateRound r j k i a c) (fun x hx => ?_) (fun x hx => ?_) ?_ ?_
      · rw [allocateRound_other hc3 hc1 hprev (.inl hx)]; exact hold x hx
      · have hx : c + 1 ≤ x := hx
        rw [allocateRound_other hc3 hc1 hprev (.inr hx)]; exact hnew x (by omega)
      · rintro p hp
        cases hp
        exact ⟨hc3, Nat.lt_succ_self c⟩
      · show (hits (isEmptyEntry t) (c + 1) 512).length < n
        simpa using hlen

/-! ## The copy loop -/

/-- The bytes of the buffer that go into the cluster number `i` of the file, padded with zeros. -/
def chunk (r : FAT32DriverRequest) (i : ℕ) : ClusterBuffer :=
  Vector.ofFn fun b : Fin 2048 => if i * 2048 + b.1 < r.bufferSize.toNat then r.buf (i * 2048 + b.1) else 0

/-- The cluster writes of the copy loop along a chain, from cluster number `i` of the file on. -/
def dataWrites (r : FAT32DriverRequest) : ℕ → List ℕ → List (UInt32 × ClusterBuffer)
  | _, [] => []
  | i, c :: cs => (UInt32.ofNat c, chunk r i) :: dataWrites r (i + 1) cs

/-- A driver state with another cluster buffer. -/
def FAT32DriverState.withBuf (m : FAT32DriverState) (b : ClusterBuffer) : FAT32DriverState :=
  { m with clusterBuf := b }

theorem FAT32DriverState.withBuf_fatTable (m : FAT32DriverState) (b : ClusterBuffer) :
    (m.withBuf b).fatTable = m.fatTable := rfl

theorem FAT32DriverState.withBuf_dirTableBuf (m : FAT32DriverState) (b : ClusterBuffer) :
    (m.withBuf b).dirTableBuf = m.dirTableBuf := rfl

theorem FAT32DriverState.withBuf_withBuf (m : FAT32DriverState) (b b' : ClusterBuffer) :
    (m.withBuf b).withBuf b' = m.withBuf b' := rfl

/-- The machine after one round of the copy loop. -/
def copyRound (r : FAT32DriverRequest) (i t : ℕ) (s : Machine) : Machine :=
  ⟨s.memory.withBuf (chunk r i), s.disk.writeClusters (chunk r i) (UInt32.ofNat t),
    s.issued ++ [(UInt32.ofNat t, chunk r i)]⟩

theorem copyRound_memory (i t : ℕ) (s : Machine) :
    (copyRound r i t s).memory = s.memory.withBuf (chunk r i) := rfl

theorem copyRound_fatTable (i t : ℕ) (s : Machine) : (copyRound r i t s).memory.fatTable = s.memory.fatTable := by
  rw [copyRound_memory, FAT32DriverState.withBuf_fatTable]

/-- The buffer that a round fills is the chunk of its number. -/
theorem copy_buffer {i total writesize : ℕ} (ht : total = r.bufferSize.toNat - i * 2048)
    (hw : writesize = if total ≥ 2048 then 2048 else total) :
    (Vector.ofFn fun b : Fin 2048 => if b.1 < writesize then r.buf (i * 2048 + b.1) else 0) = chunk r i := by
  refine Vector.ext fun b hb => ?_
  unfold chunk
  rw [Vector.getElem_ofFn, Vector.getElem_ofFn]
  have hiff : b < writesize ↔ i * 2048 + b < r.bufferSize.toNat := by
    subst hw; subst ht
    split <;> omega
  simp only [hiff]

/-- One round of the copy loop. -/
theorem copyLoop_succ (π : Platform) (n : ℕ) {i total : ℕ} (t : ℕ) (s : Machine)
    (ht : total = r.bufferSize.toNat - i * 2048) :
    copyLoop π r (n + 1) i total t s =
      copyLoop π r n (i + 1) (if total ≥ 2048 then total - 2048 else total)
        (mapAt π (copyRound r i t s).memory t).toNat (copyRound r i t s) := by
  rw [copyLoop]
  simp only [copy_buffer ht rfl, Machine.writeClusters, copyRound, FAT32DriverState.withBuf]

theorem mapAt_of_next {π : Platform} {m : FAT32DriverState} {c b : ℕ} (hc : c < 512)
    (h : next m.fatTable c = some b) : (mapAt π m c).toNat = b := by
  unfold next at h
  unfold mapAt
  rw [if_pos hc]
  split at h
  · cases h
  · exact Option.some.inj h

/-- The machine after the copy loop, its cluster buffer apart. -/
def copied (r : FAT32DriverRequest) (i : ℕ) (l : List ℕ) (buf : ClusterBuffer) (s : Machine) : Machine :=
  ⟨s.memory.withBuf buf, s.disk.replay (dataWrites r i l), s.issued ++ dataWrites r i l⟩

theorem copied_singleton (i t : ℕ) (s : Machine) : copied r i [t] (chunk r i) s = copyRound r i t s := by
  unfold copied copyRound
  rw [dataWrites, dataWrites, Disk.replay_cons, Disk.replay_nil]

theorem copied_cons (i t : ℕ) (l : List ℕ) (buf : ClusterBuffer) (s : Machine) :
    copied r i (t :: l) buf s = copied r (i + 1) l buf (copyRound r i t s) := by
  unfold copied copyRound
  rw [dataWrites, Disk.replay_cons, List.append_assoc, List.singleton_append,
    FAT32DriverState.withBuf_withBuf]

/-- The copy loop writes the chunks of the buffer along the chain. -/
theorem copyLoop_eq (π : Platform) {t : ℕ} {l : List ℕ} {f : FAT32FileAllocationTable} (h : Chain (next f) t l) :
    ∀ (i total : ℕ) (s : Machine), s.memory.fatTable = f → (∀ c ∈ l, c < 512) →
      total = r.bufferSize.toNat - i * 2048 → (i + l.length) * 2048 < r.bufferSize.toNat + 2048 →
        ∃ buf, copyLoop π r l.length i total t s = copied r i l buf s := by
  induction h with
  | last h =>
    intro i total s hf hr ht hlo
    refine ⟨chunk r i, ?_⟩
    rw [List.length_singleton, copyLoop_succ π 0 _ s ht, copied_singleton, copyLoop]
  | @link a b l hn hl ih =>
    intro i total s hf hr ht hlo
    rw [List.length_cons] at hlo ⊢
    have hpos := hl.length_pos
    have hb : (mapAt π (copyRound r i a s).memory a).toNat = b :=
      mapAt_of_next (hr a List.mem_cons_self) (by rw [copyRound_fatTable, hf]; exact hn)
    -- not the last round, so a full cluster is taken off
    have hsub : (if total ≥ 2048 then total - 2048 else total) = total - 2048 := by
      split
      · rfl
      · omega
    have hlo' : (i + 1 + l.length) * 2048 < r.bufferSize.toNat + 2048 := by
      rwa [Nat.add_assoc, Nat.add_comm 1]
    obtain ⟨buf, h2⟩ := ih (i + 1) (total - 2048) (copyRound r i a s) (by rw [copyRound_fatTable, hf])
      (fun c hc => hr c (List.mem_cons_of_mem _ hc)) (by omega) hlo'
    exact ⟨buf, by rw [copyLoop_succ π l.length a s ht, hsub, hb, h2, copied_cons]⟩

end BebasOs.Fat32
