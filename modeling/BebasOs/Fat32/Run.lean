/-
Runs of the driver. What a request can do to a sound disk is said once, as its effect; from it, one
step keeps the disk sound and its tree, and so does a run.
-/
import BebasOs.Fat32.Deleted
import BebasOs.Fat32.Tree

namespace BebasOs.Fat32

open Bytes Links Search Disk Relation

variable {π : Platform} {s s' : Machine} {r : FAT32DriverRequest} {i j c : ℕ} {zs : List UInt32}

/-! ## Requests -/

/-- A request to the driver. -/
inductive Request where
  | write (r : FAT32DriverRequest)
  | delete (r : FAT32DriverRequest)
  | read (r : FAT32DriverRequest)
  | readDirectory (r : FAT32DriverRequest)

def Request.data : Request → FAT32DriverRequest
  | .write r | .delete r | .read r | .readDirectory r => r

/-- The answer to a request and the machine after it. -/
def perform (π : Platform) (s : Machine) : Request → Option (Int × Machine)
  | .write r => write π s r
  | .delete r => delete π s r
  | .read r => some ((read π s r).code, (read π s r).machine)
  | .readDirectory r => some ((readDirectory s r).code, (readDirectory s r).machine)

/-- One request is performed that `P` allows. -/
def Step (π : Platform) (P : Disk → Request → Prop) (s s' : Machine) : Prop :=
  ∃ q code, P s.disk q ∧ perform π s q = some (code, s')

/-- What holds at first and is kept by every step holds after every run. -/
theorem run_invariant {P : Disk → Request → Prop} {I : Machine → Prop} (hs : I s)
    (hI : ∀ s s' q code, I s → P s.disk q → perform π s q = some (code, s') → I s')
    (h : ReflTransGen (Step π P) s s') : I s' := by
  induction h with
  | refl => exact hs
  | tail _ hstep ih =>
    obtain ⟨q, code, hP, hq⟩ := hstep
    exact hI _ _ q code ih hP hq

/-! ## Reading -/

theorem loadParent_fatTable (s : Machine) (r : FAT32DriverRequest) :
    (loadParent s r).memory.fatTable = s.memory.fatTable := by simp only [loadParent]

theorem loadParent_dirTableBuf (s : Machine) (r : FAT32DriverRequest) :
    (loadParent s r).memory.dirTableBuf = s.disk.table (place r.parentClusterNumber) := by
  simp only [loadParent, readClusters_eq]
  rfl

theorem readLoaded_machine (s : Machine) (r : FAT32DriverRequest) : (readLoaded π s r).machine = s := by
  unfold readLoaded
  split
  · rfl
  · simp only
    split_ifs <;> rfl

theorem readDirectoryLoaded_machine (s : Machine) (r : FAT32DriverRequest) : (readDirectoryLoaded s r).machine = s := by
  unfold readDirectoryLoaded
  simp only
  split <;> rfl

/-! ## The effect of a request -/

/-- What a request can do to a machine. -/
inductive Effect (s : Machine) : Request → Int → Machine → Prop
  | idle {q : Request} {code : Int} {s' : Machine} (hd : s'.disk = s.disk) (hi : s'.issued = s.issued)
      (hf : s'.memory.fatTable = s.memory.fatTable ∨
        ∀ x, cell s.disk.fat x ≠ fatEmptyEntry → cell s'.memory.fatTable x = cell s.disk.fat x) : Effect s q code s'
  | stored {r : FAT32DriverRequest} {j c : ℕ} {s' : Machine} (h : Stored s r j c s') : Effect s (.write r) 0 s'
  | freed {r : FAT32DriverRequest} {i : ℕ} {s' : Machine} (h : Freed s r i s') : Effect s (.delete r) 0 s'
  | purged {r : FAT32DriverRequest} {i : ℕ} {zs : List UInt32} {s' : Machine} (h : Purged s r i zs s') :
      Effect s (.delete r) 0 s'

theorem Refused.effect {q : Request} {code : Int} (h : Refused s code s') : Effect s q code s' :=
  .idle h.disk h.issued (.inr h.fat)

theorem perform_effect {q : Request} {code : Int} (hd : s.disk.Sound) (hp : s.disk.LiveDir q.data.parent)
    (h : perform π s q = some (code, s')) : Effect s q code s' := by
  cases q with
  | write r =>
    have hw : WriteSpec s r (write π s r) := write_spec hd.grounded hp
    rw [show write π s r = some (code, s') from h] at hw
    cases hw with
    | stored h => exact .stored h
    | refused h _ => exact h.effect
  | delete r =>
    have hw : DeleteSpec s r (delete π s r) := delete_spec (hd.liveDir_range hp).2
    rw [show delete π s r = some (code, s') from h] at hw
    cases hw with
    | refused h => exact h.effect
    | freed h => exact .freed h
    | purged h => exact .purged h
  | read r =>
    cases h
    unfold read
    rw [readLoaded_machine]
    exact .idle rfl rfl (.inl (loadParent_fatTable s r))
  | readDirectory r =>
    cases h
    unfold readDirectory
    rw [readDirectoryLoaded_machine]
    exact .idle rfl rfl (.inl (loadParent_fatTable s r))

/-! ## Where a delete goes -/

/-- A delete that resolves to slot 0 of a directory, not the root, without entries. -/
def SelfDelete (d : Disk) (r : FAT32DriverRequest) : Prop :=
  Resolves d r 0 ∧ r.parent ≠ 2 ∧ ¬ d.HasEntry r.parent

/-- Only files are purged. -/
theorem Purged.liveFile (h : Purged s r i zs s') (hd : s.disk.Sound) (ht : s.disk.SizedAt r.parent i)
    (hp : s.disk.LiveDir r.parent) : s.disk.LiveFile r.parent i := by
  have hlive := h.live hd hp
  have hi : 2 ≤ i := by
    by_contra hi
    exact h.size (ht.special (by omega)).1
  have he : s.disk.LiveEntry r.parent i := ⟨hp, hi, h.resolves.spec.1, hlive⟩
  exact ⟨he, fun hf => h.size (ht.folder he hf)⟩

/-- A delete that resolves to a live file purges it. -/
theorem Resolves.delete {i : ℕ} (h : Resolves s.disk r i) (hd : s.disk.Sound) (he : s.disk.LiveFile r.parent i) :
    ∃ zs s', Fat32.delete π s r = some (0, s') ∧ Purged s r i zs s' := by
  obtain ⟨l, hl⟩ := hd.owns _ _ he.toLiveEntry
  have hroot : (s.disk.slot r.parent i).cluster ≠ rootClusterNumber := fun hc => by
    have := (hl.range _ hl.first_mem).1
    rw [hc] at this
    exact absurd this (by decide)
  have hsize : (s.disk.slot r.parent i).filesize ≠ 0 := fun hz => by
    have := hd.size _ _ he
    rw [hz] at this
    exact absurd this (by decide)
  rcases delete_purge (π := π) (hd.liveDir_range he.dir).2 h hroot hsize with ⟨-, hno⟩ | hyes
  · exact absurd hl (hno l)
  · exact hyes

/-- In a tree only a directory that deletes itself is freed through a special slot: the directory in
slot 1 has an entry. -/
theorem Freed.not_special (h : Freed s r i s') (ht : s.disk.Tree) (hp : s.disk.LiveDir r.parent)
    (hs : ¬ SelfDelete s.disk r) : 2 ≤ i := by
  by_contra hi
  have hroot : (s.disk.slot r.parent i).cluster.toNat ≠ 2 := fun he => h.notRoot (UInt32.toNat_inj.1 he)
  have hnone := h.childless
  obtain rfl | rfl : i = 0 ∨ i = 1 := by omega
  · rw [ht.self _ hp] at hroot hnone
    exact hs ⟨h.resolves, hroot, hnone⟩
  · by_cases hp2 : r.parent = 2
    · rw [hp2] at hroot
      exact hroot ht.root
    · obtain ⟨-, k, h1, h2, h3, -⟩ := ht.lister _ hp hp2
      exact hnone ⟨k, h1, h2, h3⟩

/-! ## One step -/

/-- The request goes to a live directory, and a file to one with a free slot. -/
structure Request.Fits (q : Request) (d : Disk) : Prop where
  live : d.LiveDir q.data.parent
  room : ∀ r, q = .write r → r.bufferSize ≠ 0 → d.HasFreeSlot r.parent

/-- No directory deletes itself. -/
def Request.Steady (q : Request) (d : Disk) : Prop := ∀ r, q = .delete r → ¬ SelfDelete d r

/-- A delete resolves to slots in use only. -/
def Request.OnLive (q : Request) (d : Disk) : Prop :=
  ∀ r, q = .delete r → ∀ i, Resolves d r i → (d.slot r.parent i).Live

theorem Request.fits_delete {d : Disk} (h : d.LiveDir r.parent) : (Request.delete r).Fits d :=
  ⟨h, fun _ hr => by cases hr⟩

theorem Request.steady_write (d : Disk) (r : FAT32DriverRequest) : (Request.write r).Steady d := fun _ hr => by cases hr

theorem Request.onLive_write (d : Disk) (r : FAT32DriverRequest) : (Request.write r).OnLive d := fun _ hr => by cases hr

/-- A delete of an entry is none of its directory, and of no unused slot. -/
theorem Resolves.steady {d : Disk} (h : Resolves d r i) (he : d.LiveEntry r.parent i) :
    (Request.delete r).Steady d ∧ (Request.delete r).OnLive d := by
  constructor
  · rintro _ ⟨⟩ ⟨h0, -⟩
    have hlo := he.lo
    have hi : i = 0 := Option.some.inj (h.symm.trans h0)
    omega
  · rintro _ ⟨⟩ k hk
    obtain rfl : i = k := Option.some.inj (h.symm.trans hk)
    exact he.live

/-- The four ways a disk changes in a step. -/
theorem Effect.changes {q : Request} {code : Int} (h : Effect s q code s') (hd : s.disk.Sound) (ht : s.disk.Tree)
    (hp : s.disk.LiveDir q.data.parent) (hs : q.Steady s.disk) :
    s'.disk = s.disk ∨ (∃ p j e cs, s.disk.Inserted s'.disk p j e cs) ∨ (∃ p j l, s.disk.Removed s'.disk p j l) ∨
      s.disk.Kept s'.disk := by
  cases h with
  | idle hdisk => exact .inl hdisk
  | @stored r j c s' h =>
    rcases Nat.lt_or_ge j 64 with hj | hj
    · exact .inr (.inl ⟨_, _, _, _, h.inserted hd.grounded hp hj⟩)
    · exact .inr (.inr (.inr (h.kept hd.grounded hp hj)))
  | @freed r i s' h =>
    by_cases hl : (s.disk.slot r.parent i).Live
    · have hi := h.not_special ht hp (hs r rfl)
      exact .inr (.inr (.inl ⟨_, _, _, h.removed hd ⟨hp, hi, h.resolves.spec.1, hl⟩⟩))
    · exact .inr (.inr (.inr (h.kept hd hp hl)))
  | @purged r i zs s' h =>
    obtain ⟨l, hl, -⟩ := h.removed hd (h.liveFile hd (ht.sizedAt hp _) hp)
    exact .inr (.inr (.inl ⟨_, _, l, hl⟩))

theorem Effect.sound_tree {q : Request} {code : Int} (h : Effect s q code s') (hd : s.disk.Sound) (ht : s.disk.Tree)
    (hp : s.disk.LiveDir q.data.parent) (hs : q.Steady s.disk) : s'.disk.Sound ∧ s'.disk.Tree := by
  rcases h.changes hd ht hp hs with h | ⟨p, j, e, cs, h⟩ | ⟨p, j, l, h⟩ | h
  · rw [h]; exact ⟨hd, ht⟩
  · exact ⟨h.sound hd, ht.inserted hd h⟩
  · exact ⟨h.sound hd, ht.removed hd h⟩
  · exact ⟨h.sound hd, ht.kept hd h⟩

/-- A step whose delete resolves to a slot in use keeps the boot sector and the reserved entries. -/
theorem Effect.sameBoot {q : Request} {code : Int} (h : Effect s q code s') (hd : s.disk.Sound) (ht : s.disk.Tree)
    (hp : s.disk.LiveDir q.data.parent) (hs : q.Steady s.disk) (hl : q.OnLive s.disk) : s.disk.SameBoot s'.disk := by
  cases h with
  | idle hdisk => rw [hdisk]; exact ⟨rfl, fun _ _ => rfl⟩
  | stored h => exact h.sameBoot hd.grounded hp
  | @freed r i s' h =>
    have hi := h.not_special ht hp (hs r rfl)
    exact (h.removed hd ⟨hp, hi, h.resolves.spec.1, hl r rfl i h.resolves⟩).sameBoot hd
  | @purged r i zs s' h =>
    obtain ⟨l, hl, -⟩ := h.removed hd (h.liveFile hd (ht.sizedAt hp _) hp)
    exact hl.sameBoot hd

/-! ## Every request has a result -/

/-- What a delete can resolve to has its cluster in the table, and its chain if it has a size. -/
theorem resolved_cases {d : Disk} (hd : d.Sound) (ht : d.SizedAt r.parent i) (hp : d.LiveDir r.parent)
    (h : Resolves d r i) :
    ((d.slot r.parent i).filesize = 0 ∧ (d.slot r.parent i).cluster.toNat < 512) ∨
      ∃ l, Owns d.fat (d.slot r.parent i) l := by
  by_cases hi : i < 2
  · obtain ⟨h1, h2⟩ := ht.special hi
    exact .inl ⟨h1, (hd.liveDir_range h2).2⟩
  · by_cases hl : (d.slot r.parent i).Live
    · exact .inr (hd.owns _ _ ⟨hp, by omega, h.spec.1, hl⟩)
    · rw [show d.slot r.parent i = default from (hd.shape _ hp).unused i h.spec.1 hl]
      exact .inl ⟨rfl, by decide⟩

/-- What a delete resolves to is as the header says. -/
def Request.OnSized (q : Request) (d : Disk) : Prop := ∀ r i, q = .delete r → Resolves d r i → d.SizedAt r.parent i

theorem Disk.Tree.onSized {d : Disk} {q : Request} (ht : d.Tree) (hp : d.LiveDir q.data.parent) : q.OnSized d := by
  rintro r i rfl -
  exact ht.sizedAt hp i

/-- A request that fits has a result: no table is indexed out of bounds and every loop ends. -/
theorem perform_total {q : Request} (hd : s.disk.Sound) (ht : q.OnSized s.disk) (hq : q.Fits s.disk) :
    ∃ code s', perform π s q = some (code, s') := by
  cases q with
  | write r =>
    have hw : WriteSpec s r (write π s r) := write_spec hd.grounded hq.live
    show ∃ code s', write π s r = some (code, s')
    rcases hr : write π s r with _ | ⟨code, s'⟩
    · rw [hr] at hw
      cases hw with
      | lost hb hfull =>
        obtain ⟨i, -, h2, h3⟩ := hq.room r rfl hb
        exact absurd (hfull i h2) h3
    · exact ⟨code, s', rfl⟩
  | delete r =>
    have hp : s.disk.LiveDir r.parent := hq.live
    have hw : DeleteSpec s r (delete π s r) := delete_spec (hd.liveDir_range hp).2
    show ∃ code s', delete π s r = some (code, s')
    rcases hr : delete π s r with _ | ⟨code, s'⟩
    · rw [hr] at hw
      cases hw with
      | @lost i h hf hl =>
        rcases resolved_cases hd (ht r i rfl h) hp h with ⟨h1, h2⟩ | ⟨l, h1⟩
        · exact absurd (hf h1) (by omega)
        · by_cases hz : (s.disk.slot r.parent i).filesize = 0
          · have := hf hz
            exact absurd (h1.range _ h1.first_mem).2 (by omega)
          · exact absurd h1 (hl hz l)
    · exact ⟨code, s', rfl⟩
  | read r => exact ⟨_, _, rfl⟩
  | readDirectory r => exact ⟨_, _, rfl⟩

end BebasOs.Fat32
