/-
Which clusters a read loads. Its count is `filesize / 2048 + 1`, so a read of a file whose size is a
multiple of the cluster goes on after the chain: it takes the end-of-file mark for a cluster number.
-/
import BebasOs.Fat32.Read

namespace BebasOs.Fat32

open Bytes Links Search Disk

variable {π : Platform} {s s' : Machine} {r : FAT32DriverRequest} {d : Disk} {i j n : ℕ} {l : List ℕ}

/-- The size of the file in slot `i` of the request's directory. -/
def fileSize (s : Machine) (r : FAT32DriverRequest) (i : ℕ) : ℕ := (s.disk.slot r.parent i).filesize.toNat

/-- The read of a file loads the clusters of its chain, in their order and no others, looks up the table of
files at their numbers only (each round looks up the cluster it has loaded), and leaves the buffer alone
behind them. -/
structure StaysOnChain (π : Platform) (s : Machine) (r : FAT32DriverRequest) (i : ℕ) : Prop where
  loads : (read π s r).loads = chainLoads 0 (s.disk.chainOf (s.disk.slot r.parent i))
  count : (read π s r).loads.length = (fileSize s r i + 2047) / 2048
  range : ∀ x ∈ (read π s r).loads, 3 ≤ x.cluster.toNat ∧ x.cluster.toNat < 512
  buf : ∀ a, (fileSize s r i + 2047) / 2048 * 2048 ≤ a → (read π s r).buf a = r.buf a

/-! ## The loads -/

theorem length_chainLoads : ∀ (j : ℕ) (l : List ℕ), (chainLoads j l).length = l.length
  | _, [] => rfl
  | j, _ :: cs => congrArg (· + 1) (length_chainLoads (j + 1) cs)

theorem mem_chainLoads {x : Load} : ∀ {j : ℕ} {l : List ℕ}, x ∈ chainLoads j l →
    x.offset + 2048 ≤ (j + l.length) * 2048 ∧ ∃ c ∈ l, x.cluster = UInt32.ofNat c
  | j, c :: cs, h => by
    rw [chainLoads, List.mem_cons] at h
    rw [List.length_cons]
    rcases h with rfl | h
    · have hoff : (⟨j * 2048, UInt32.ofNat c⟩ : Load).offset = j * 2048 := rfl
      refine ⟨?_, c, List.mem_cons_self, rfl⟩
      rw [hoff]
      omega
    · obtain ⟨h1, c', h2, h3⟩ := mem_chainLoads h
      rw [show j + 1 + cs.length = j + (cs.length + 1) by omega] at h1
      exact ⟨h1, c', List.mem_cons_of_mem c h2, h3⟩

theorem length_readLoop (π : Platform) (m : FAT32DriverState) :
    ∀ (n j : ℕ) (c : UInt32), (readLoop π m n j c).length = n
  | 0, _, _ => rfl
  | n + 1, j, _ => congrArg (· + 1) (length_readLoop π m n (j + 1) _)

/-- What a successful read of a live file loads: its chain, and whatever it takes to make
`filesize / 2048 + 1` loads. -/
theorem read_loads (hd : s.disk.Sound) (he : s.disk.LiveFile r.parent i) (hr : Resolves s.disk r i) (hm : Coherent s)
    (hcode : (read π s r).code = 0) (hl : Owns s.disk.fat (s.disk.slot r.parent i) l) :
    ∃ rest, (read π s r).loads = chainLoads 0 l ++ rest ∧ l.length + rest.length = fileSize s r i / 2048 + 1 ∧
      (read π s r).buf = deliver s.disk (chainLoads 0 l ++ rest) r.buf := by
  have hp' := (hd.liveDir_range he.dir).2
  have hre : ¬ ReadRefused (s.disk.slot r.parent i) r := fun hre => by
    rw [read_eq hp', readLoaded_refused (t := s.disk.table r.parent) rfl hr hre] at hcode
    exact absurd (show (1 : Int) = 0 from hcode) (by decide)
  have hlen : l.length = (fileSize s r i + 2047) / 2048 := by
    rw [hl.length, clusterCount, if_neg he.file, fileSize]
  have hle := hl.length_le
  obtain ⟨h1, h2⟩ := count_toNat (n := (s.disk.slot r.parent i).filesize) (by
    show fileSize s r i ≤ _
    omega)
  obtain ⟨rest, h3, -⟩ := readLoop_chain (π := π) (m := (listed s r).memory) hl.chain
    (fun c hc => (hl.range c hc).2) (fun c hc => hm c (hl.used c hc)) (fileSize s r i / 2048 + 1) 0 (by omega)
  have hcount := length_readLoop π (listed s r).memory (fileSize s r i / 2048 + 1) 0
    (UInt32.ofNat (s.disk.slot r.parent i).cluster.toNat)
  rw [h3, List.length_append, length_chainLoads] at hcount
  rw [UInt32.ofNat_toNat] at h3
  refine ⟨rest, ?_, hcount, ?_⟩ <;>
    rw [read_eq hp', readLoaded_loads (t := s.disk.table r.parent) rfl hr hre h2] <;> dsimp only <;>
    rw [show (cell (s.disk.table r.parent) i).filesize = (s.disk.slot r.parent i).filesize from rfl, h1] <;>
    rw [← h3] <;> rfl

/-- A size that is a multiple of the cluster makes one load too many. -/
theorem not_staysOnChain (hd : s.disk.Sound) (he : s.disk.LiveFile r.parent i) (hr : Resolves s.disk r i)
    (hm : Coherent s) (hcode : (read π s r).code = 0) (hs : 2048 ∣ fileSize s r i) : ¬ StaysOnChain π s r i := by
  obtain ⟨l, hl⟩ := hd.owns _ _ he.toLiveEntry
  obtain ⟨rest, h1, h2, -⟩ := read_loads (π := π) hd he hr hm hcode hl
  intro h
  have hcount := h.count
  rw [h1, List.length_append, length_chainLoads, h2] at hcount
  omega

/-- A successful read of a live file of `n` bytes loads the `⌈n / 2048⌉` clusters of its chain, touches
nothing else of the disk, the table of files and the buffer, if and only if `n` is no multiple of 2048. -/
theorem read_stays_on_chain_iff (hd : s.disk.WellFormed) (he : s.disk.LiveFile r.parent i) (hr : Resolves s.disk r i)
    (hm : Coherent s) (hcode : (read π s r).code = 0) : StaysOnChain π s r i ↔ ¬ 2048 ∣ fileSize s r i := by
  have hd := hd.toSound
  constructor
  · exact fun h hs => not_staysOnChain hd he hr hm hcode hs h
  · intro hs
    obtain ⟨l, hl⟩ := hd.owns _ _ he.toLiveEntry
    have hlen : l.length = (fileSize s r i + 2047) / 2048 := by
      rw [hl.length, clusterCount, if_neg he.file, fileSize]
    obtain ⟨rest, h1, h2, h3⟩ := read_loads (π := π) hd he hr hm hcode hl
    obtain rfl : rest = [] := List.length_eq_zero_iff.1 (by omega)
    rw [List.append_nil] at h1 h3
    refine ⟨by rw [h1, chainOf_eq hl], by rw [h1, length_chainLoads, hlen], fun x hx => ?_, fun a ha => ?_⟩
    · rw [h1] at hx
      obtain ⟨-, c, hc, hxc⟩ := mem_chainLoads hx
      have hrange := hl.range c hc
      rwa [hxc, toNat_ofNat_cluster hrange.2]
    · rw [h3]
      refine deliver_outside (fun x hx => .inr ?_) s.disk r.buf
      have := (mem_chainLoads hx).1
      omega

/-! ## Sample files -/

/-- A file of any size that a new disk has room for is there after one write, and can be read. -/
theorem exists_file (n : UInt32) (hn : n ≠ 0) (hle : n.toNat ≤ 509 * 2048) : ∃ s : Machine, s.disk.WellFormed ∧
    s.disk.LiveFile (letterRequest 97 n).parent 2 ∧ Resolves s.disk (letterRequest 97 n) 2 ∧ Coherent s ∧
      (read zeroPlatform s (letterRequest 97 n)).code = 0 ∧ fileSize s (letterRequest 97 n) 2 = n.toNat := by
  obtain ⟨s₀, -, hf⟩ := createFat32_formatted zeroPlatform zeroDisk
  have hd := hf.wellFormed.toSound
  have hp : s₀.disk.LiveDir (letterRequest 97 n).parent := s₀.disk.liveDir_root
  have hb : (letterRequest 97 n).bufferSize ≠ 0 := hn
  have hdots : (#v[97, 0, 0, 0, 0, 0, 0, 0] : Vector UInt8 8) ≠ dotDot := by decide
  have hzeros : (#v[97, 0, 0, 0, 0, 0, 0, 0] : Vector UInt8 8) ≠ Vector.replicate 8 0 := by decide
  have hacc : Accepted s₀ (letterRequest 97 n) 2 3 :=
    hf.accepted rfl (by
      rw [needed_of_file hb]
      show (n.toNat + 2047) / 2048 ≤ 509
      omega) (name_ne_rootName (show (97 : UInt8) ≠ 114 by decide)) hdots hzeros
  obtain ⟨s, -, hst⟩ := hacc.write (π := zeroPlatform) hd.grounded hp
  have hi := hst.inserted hd.grounded hp (by omega)
  have hslot := hst.slot_new hd.grounded hp (by omega)
  have hfile := hst.liveFile hd.grounded hp (by omega) hb
  have hres := hst.resolves hd.grounded hp (by omega) (q := letterRequest 97 n) rfl rfl rfl (newExt_file hb)
  have hcoh := coherent_of_eq (hst.coherent hd.grounded hp)
  refine ⟨s, (hst.sameBoot hd.grounded hp).wellFormed hf.wellFormed (hi.sound hd), hfile, hres, hcoh, ?_, ?_⟩
  · exact (read_bytes (hi.sound hd) hfile hres hcoh (by rw [hslot, newEntry_attribute, if_neg hb]; decide) hb).1
  · rw [fileSize, hslot, newEntry_filesize]
    rfl

/-- A file of one byte. -/
theorem read_stays_on_chain_iff_one : ∃ s : Machine, StaysOnChain zeroPlatform s (letterRequest 97 1) 2 := by
  obtain ⟨s, hd, he, hr, hm, hcode, hsize⟩ := exists_file 1 (by decide) (by decide)
  refine ⟨s, (read_stays_on_chain_iff hd he hr hm hcode).2 ?_⟩
  rw [hsize]
  decide

/-- A file of one full cluster: the read loads a second one. -/
theorem read_leaves_chain : ¬ ∀ (s : Machine) (r : FAT32DriverRequest) (i : ℕ), s.disk.WellFormed →
    s.disk.LiveFile r.parent i → Resolves s.disk r i → Coherent s → (read zeroPlatform s r).code = 0 →
      StaysOnChain zeroPlatform s r i := by
  obtain ⟨s, hd, he, hr, hm, hcode, hsize⟩ := exists_file 2048 (by decide) (by decide)
  intro hall
  refine not_staysOnChain hd.toSound he hr hm hcode ?_ (hall s _ 2 hd he hr hm hcode)
  rw [hsize]
  decide

end BebasOs.Fat32
