/-
Space. While no file is deleted every taken cluster from 3 on belongs to a live entry, so the free
clusters and the chains of the live entries make up the 509 clusters of the disk. Deleting a file
takes its chain out of the count and frees nothing.
-/
import BebasOs.Fat32.Reachable
import Mathlib.Algebra.BigOperators.Group.Finset.Basic
import Mathlib.Data.Finset.Card

namespace BebasOs.Fat32

open Bytes Links Search Disk Relation

variable {π : Platform} {s s' s₀ : Machine} {r : FAT32DriverRequest}

namespace Disk

variable {d d' : Disk} {p i j : ℕ} {e : FAT32DirectoryEntry} {l cs : List ℕ}

/-! ## Counting -/

open Classical in
/-- The live entries, as directory and slot. -/
noncomputable def liveEntries (d : Disk) : Finset (ℕ × ℕ) :=
  (Finset.range 512 ×ˢ Finset.range 64).filter fun x => d.LiveEntry x.1 x.2

/-- The clusters in the chains of all live entries. -/
noncomputable def chainTotal (d : Disk) : ℕ := ∑ x ∈ d.liveEntries, (d.chainOf (d.slot x.1 x.2)).length

/-- Every taken cluster from 3 on is in the chain of a live entry. -/
def Tight (d : Disk) : Prop :=
  ∀ c, 3 ≤ c → c < 512 → cell d.fat c ≠ fatEmptyEntry → ∃ p i l, d.LiveEntry p i ∧ Owns d.fat (d.slot p i) l ∧ c ∈ l

theorem mem_liveEntries (hd : d.Sound) (x : ℕ × ℕ) : x ∈ d.liveEntries ↔ d.LiveEntry x.1 x.2 := by
  classical
  unfold liveEntries
  rw [Finset.mem_filter, Finset.mem_product, Finset.mem_range, Finset.mem_range]
  exact ⟨fun h => h.2, fun h => ⟨⟨(hd.liveDir_range h.dir).2, h.hi⟩, h⟩⟩

-- used through its members only; the ranges behind it are never enumerated
attribute [irreducible] liveEntries

theorem owns_chainOf (hd : d.Sound) (x : ℕ × ℕ) (hx : d.LiveEntry x.1 x.2) :
    Owns d.fat (d.slot x.1 x.2) (d.chainOf (d.slot x.1 x.2)) := by
  obtain ⟨l, hl⟩ := hd.owns _ _ hx
  rw [chainOf_eq hl]; exact hl

/-- The clusters of all live entries. -/
noncomputable def ownedClusters (d : Disk) : Finset ℕ :=
  d.liveEntries.biUnion fun x => (d.chainOf (d.slot x.1 x.2)).toFinset

theorem chainTotal_eq (hd : d.Sound) : d.chainTotal = d.ownedClusters.card := by
  unfold chainTotal ownedClusters
  rw [Finset.card_biUnion]
  · refine Finset.sum_congr rfl fun x hx => ?_
    exact (List.toFinset_card_of_nodup (owns_chainOf hd x ((mem_liveEntries hd x).1 hx)).chain.nodup).symm
  · intro x hx y hy hne
    have hx := (mem_liveEntries hd x).1 hx
    have hy := (mem_liveEntries hd y).1 hy
    refine Finset.disjoint_left.2 fun c hc hc' => ?_
    exact hd.disjoint x.1 x.2 y.1 y.2 _ _ hx hy hne (owns_chainOf hd x hx) (owns_chainOf hd y hy)
      (List.mem_toFinset.1 hc) (List.mem_toFinset.1 hc')

theorem mem_ownedClusters (hd : d.Sound) (ht : d.Tight) (c : ℕ) :
    c ∈ d.ownedClusters ↔ (3 ≤ c ∧ c < 512) ∧ cell d.fat c ≠ fatEmptyEntry := by
  unfold ownedClusters
  rw [Finset.mem_biUnion]
  constructor
  · rintro ⟨x, hx, hc⟩
    have ho := owns_chainOf hd x ((mem_liveEntries hd x).1 hx)
    have hc := List.mem_toFinset.1 hc
    exact ⟨ho.range c hc, ho.used c hc⟩
  · rintro ⟨⟨h1, h2⟩, h3⟩
    obtain ⟨p, i, l, he, hl, hc⟩ := ht c h1 h2 h3
    refine ⟨(p, i), (mem_liveEntries hd _).2 he, List.mem_toFinset.2 ?_⟩
    rw [chainOf_eq hl]; exact hc

/-- The free clusters and the chains of the live entries make up the whole disk. -/
theorem Tight.balanced (hd : d.Sound) (ht : d.Tight) : (freeClusters d.fat).length + d.chainTotal = 509 := by
  have hfree : (freeClusters d.fat).toFinset = (Finset.Ico 3 512).filter fun c => cell d.fat c = fatEmptyEntry := by
    refine Finset.ext fun c => ?_
    rw [List.mem_toFinset, mem_freeClusters, Finset.mem_filter, Finset.mem_Ico, and_assoc]
  have hused : d.ownedClusters = (Finset.Ico 3 512).filter fun c => ¬ cell d.fat c = fatEmptyEntry := by
    refine Finset.ext fun c => ?_
    rw [mem_ownedClusters hd ht, Finset.mem_filter, Finset.mem_Ico]
  rw [chainTotal_eq hd, ← List.toFinset_card_of_nodup (freeClusters_nodup d.fat), hfree, hused,
    Finset.card_filter_add_card_filter_not, Nat.card_Ico]

/-! ## Steps -/

theorem Tight.inserted (hd : d.Sound) (ht : d.Tight) (h : d.Inserted d' p j e cs) : d'.Tight := by
  intro c h1 h2 h3
  by_cases hc : c ∈ cs
  · refine ⟨p, j, cs, (h.liveEntry_iff hd.grounded).2 (.inr ⟨rfl, rfl⟩), ?_, hc⟩
    rw [h.slot_new hd.grounded]
    exact h.owns
  · rw [h.fat c hc] at h3
    obtain ⟨q, i, l, he, hl, hcl⟩ := ht c h1 h2 h3
    refine ⟨q, i, l, (h.liveEntry_iff hd.grounded).2 (.inl he), ?_, hcl⟩
    rw [h.slot_old hd.grounded he]; exact hl.congr (h.fat_of_mem hl)

/-- An entry taken out leaves no cluster behind when the clusters it owned are empty afterwards. -/
theorem Tight.removed (hd : d.Sound) (ht : d.Tight) (h : d.Removed d' p j l)
    (hl : ∀ c ∈ l, cell d'.fat c = fatEmptyEntry) : d'.Tight := by
  intro c h1 h2 h3
  have hc : c ∉ l := fun hc => h3 (hl c hc)
  rw [h.fat c hc] at h3
  obtain ⟨q, i, m, he, hm, hcm⟩ := ht c h1 h2 h3
  have hne : (q, i) ≠ (p, j) := by
    intro heq
    obtain ⟨rfl, rfl⟩ := Prod.mk.injEq .. ▸ heq
    exact hc (by rw [h.owns.unique hm]; exact hcm)
  refine ⟨q, i, m, (h.liveEntry_iff hd).2 ⟨he, hne⟩, ?_, hcm⟩
  rw [h.slot_old hd he hne]; exact hm.congr (h.fat_of_mem hd he hne hm)

/-- An entry taken out takes its clusters out of the count. -/
theorem Removed.chainTotal (hd : d.Sound) (h : d.Removed d' p j l) : d'.chainTotal + l.length = d.chainTotal := by
  have hd' := h.sound hd
  have hentries : d'.liveEntries = d.liveEntries.erase (p, j) := by
    refine Finset.ext fun x => ?_
    rw [mem_liveEntries hd', h.liveEntry_iff hd, Finset.mem_erase, mem_liveEntries hd, and_comm]
  have hmem : (p, j) ∈ d.liveEntries := (mem_liveEntries hd _).2 h.entry
  have hsame : ∀ x ∈ d.liveEntries.erase (p, j),
      (d'.chainOf (d'.slot x.1 x.2)).length = (d.chainOf (d.slot x.1 x.2)).length := by
    intro x hx
    rw [Finset.mem_erase, mem_liveEntries hd] at hx
    obtain ⟨m, hm⟩ := hd.owns _ _ hx.2
    rw [h.slot_old hd hx.2 hx.1, chainOf_eq hm, chainOf_eq (hm.congr (h.fat_of_mem hd hx.2 hx.1 hm))]
  unfold Disk.chainTotal
  rw [hentries, Finset.sum_congr rfl hsame, ← Finset.sum_erase_add _ _ hmem, chainOf_eq h.owns]

end Disk

/-! ## Runs without deleted files -/

/-- An unused slot has no name, so a name never resolves to one. -/
theorem Resolves.live {d : Disk} {i : ℕ} (h : Resolves d r i) (hd : d.Sound) (hp : d.LiveDir r.parent) (hn : Named r) :
    (d.slot r.parent i).Live := by
  by_contra hu
  obtain ⟨h1, h2, -⟩ := h.spec
  rw [show d.slot r.parent i = default from (hd.shape _ hp).unused i h1 hu] at h2
  exact hn (h2.symm.trans (by decide))

theorem Formatted.tight {d : Disk} (h : Formatted π d s) : s.disk.Tight := by
  intro c h1 h2 h3
  rw [h.fat, cell_formattedFat, if_neg (by omega), if_neg (by omega), if_neg (by omega)] at h3
  exact absurd rfl h3

theorem Effect.tight {q : Request} {code : Int} (h : Effect s q code s') (hd : s.disk.Sound) (ht : s.disk.Tree)
    (hg : s.disk.Tight) (hq : q.Fits s.disk) (hn : Named q.data) (hs : q.Steady s.disk)
    (hf : ∀ r i, q = .delete r → Resolves s.disk r i → ¬ s.disk.LiveFile r.parent i) : s'.disk.Tight := by
  have hp := hq.live
  cases h with
  | idle hdisk => rw [hdisk]; exact hg
  | @stored r j c s' h =>
    have hj : j < 64 := by
      by_cases hb : r.bufferSize = 0
      · exact h.slot_hi_of_folder hb
      · exact h.slot_hi_of_free (hq.room r rfl hb)
    exact hg.inserted hd (h.inserted hd.grounded hp hj)
  | @freed r i s' h =>
    have hi := h.not_special ht hp (hs r rfl)
    have hr := h.removed hd ⟨hp, hi, h.resolves.spec.1, h.resolves.live hd hp hn⟩
    obtain ⟨hp2, hp'⟩ := hd.liveDir_range hp
    refine hg.removed hd hr fun c hc => ?_
    rw [List.mem_singleton.1 hc, h.fat_eq hp2 hp', cell_store_self _ _ h.range]
  | @purged r i zs s' h => exact absurd (h.liveFile hd (ht.sizedAt hp _) hp) (hf r i rfl h.resolves)

/-- Deleting a file unbalances a balanced disk. -/
theorem Purged.unbalanced {i : ℕ} {zs : List UInt32} (h : Purged s r i zs s') (hd : s.disk.Sound)
    (he : s.disk.LiveFile r.parent i) (hb : (freeClusters s.disk.fat).length + s.disk.chainTotal = 509) :
    (freeClusters s'.disk.fat).length + s'.disk.chainTotal < 509 := by
  obtain ⟨l, hr, hfat⟩ := h.removed hd he
  have := hr.chainTotal hd
  have := hr.owns.chain.length_pos
  rw [hfat]
  omega

theorem HoldsA.tight (h : HoldsA s) : s.disk.Tight := by
  intro c h1 h2 h3
  have hc : c = 3 := by
    by_contra hc
    exact h3 (h.free c (by omega))
  exact ⟨2, 2, [3], h.file.toLiveEntry, h.owns, by rw [hc]; exact List.mem_singleton_self 3⟩

/-- On a new disk the free clusters and the chains of the live entries always make up the 509 clusters,
in every run of named requests in which no delete resolves to a file and no directory deletes itself. -/
theorem run_balanced {d : Disk} (h₀ : createFat32 π (powerOn d) = some s₀)
    (h : ReflTransGen (Step π fun d q => q.Fits d ∧ Named q.data ∧ q.Steady d ∧
      ∀ r i, q = .delete r → Resolves d r i → ¬ d.LiveFile r.parent i) s₀ s) :
    (freeClusters s.disk.fat).length + s.disk.chainTotal = 509 := by
  have hf := formatted_of_create h₀
  have hinv : (s.disk.Sound ∧ s.disk.Tree) ∧ s.disk.Tight := by
    refine run_invariant (I := fun s => (s.disk.Sound ∧ s.disk.Tree) ∧ s.disk.Tight)
      ⟨⟨hf.wellFormed.toSound, hf.tree⟩, hf.tight⟩ ?_ h
    rintro s s' q code ⟨⟨hd, ht⟩, hg⟩ ⟨hfit, hn, hs, hno⟩ hq
    have he := perform_effect hd hfit.live hq
    exact ⟨he.sound_tree hd ht hfit.live hs, he.tight hd ht hg hfit hn hs hno⟩
  exact hinv.2.balanced hinv.1.1

/-- The folder `b` is made and deleted. -/
theorem run_balanced_folderB : ∃ s₀ s₁ s₂, createFat32 zeroPlatform (powerOn zeroDisk) = some s₀ ∧
    perform zeroPlatform s₀ (.write folderB) = some (0, s₁) ∧ perform zeroPlatform s₁ (.delete folderB) = some (0, s₂) ∧
    (freeClusters s₂.disk.fat).length + s₂.disk.chainTotal = 509 := by
  obtain ⟨s₀, s₁, h₀, hf, hs, hb⟩ := exists_holdsFolder
  have hnamed : folderB.name ≠ Vector.replicate 8 0 := by decide
  have hentry := hb.entry
  obtain ⟨s₂, hdelete⟩ := hb.exists_deleted
  refine ⟨s₀, s₁, s₂, h₀, hs, hdelete, run_balanced h₀ (.head ⟨.write folderB, 0, ⟨hf.fits rfl, hnamed, ?_, ?_⟩, hs⟩
    (.single ⟨.delete folderB, 0, ⟨Request.fits_delete hentry.dir, hnamed, ?_, ?_⟩, hdelete⟩))⟩
  · exact Request.steady_write _ _
  · rintro _ _ ⟨⟩
  · exact (hb.resolves.steady hentry).1
  · rintro _ i ⟨⟩ hi hfile
    obtain rfl : 2 = i := Option.some.inj (hb.resolves.symm.trans hi)
    exact hfile.file hb.folder

/-- Writing the file `a` and deleting it again loses its cluster. -/
theorem run_not_balanced : ∃ s₀ s₁ s₂, createFat32 zeroPlatform (powerOn zeroDisk) = some s₀ ∧
    Request.Fits (.write fileA) s₀.disk ∧ Named fileA ∧ perform zeroPlatform s₀ (.write fileA) = some (0, s₁) ∧
    Request.Fits (.delete fileA) s₁.disk ∧ perform zeroPlatform s₁ (.delete fileA) = some (0, s₂) ∧
    (freeClusters s₂.disk.fat).length + s₂.disk.chainTotal ≠ 509 := by
  obtain ⟨s₀, s₁, h₀, hf, hs, ha⟩ := exists_holdsA
  have hd₁ := ha.wellFormed.toSound
  obtain ⟨zs, s₂, hdel, hpur⟩ := ha.resolves.delete (π := zeroPlatform) hd₁ ha.file
  refine ⟨s₀, s₁, s₂, h₀, hf.fits rfl, by show fileA.name ≠ Vector.replicate 8 0; decide, hs, ha.fits rfl, hdel, ?_⟩
  have := hpur.unbalanced hd₁ ha.file (ha.tight.balanced hd₁)
  omega

end BebasOs.Fat32
