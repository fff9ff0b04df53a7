/-
The table of files in memory. Requests change it before the disk, and a refused write leaves the new
values there, but only at clusters that are free on the disk: where the table on the disk is taken the
one in memory agrees with it after every request, so that a read that never loads the table answers
as it would after mounting the disk anew.
-/
import BebasOs.Fat32.Read

namespace BebasOs.Fat32

open Bytes Links Search Disk Relation

variable {π : Platform} {s s' s₀ : Machine} {r : FAT32DriverRequest} {d : Disk} {i : ℕ}

/-! ## One step -/

theorem Refused.coherent {code : Int} (h : Refused s code s') : Coherent s' := fun c hc => by
  rw [h.disk] at hc ⊢
  exact h.fat c hc

theorem Freed.coherent (h : Freed s r i s') (hd : s.disk.Sound) (hp : s.disk.LiveDir r.parent) : Coherent s' := by
  obtain ⟨hp2, hp'⟩ := hd.liveDir_range hp
  exact coherent_of_eq (by rw [h.fat, h.fat_eq hp2 hp'])

/-- A purge leaves the table on the disk, or, through a broken entry, a table with nothing taken. -/
theorem Purged.coherent {zs : List UInt32} (h : Purged s r i zs s') (hd : s.disk.Sound)
    (hp : s.disk.LiveDir r.parent) : Coherent s' := by
  obtain ⟨hp2, hp'⟩ := hd.liveDir_range hp
  rcases h.cluster_fat hp2 hp' with hc | hc
  · exact coherent_of_eq (by rw [h.fat, fat_congr hc])
  · intro c hne
    unfold Disk.fat at hne
    rw [hc, cell_fat_zero] at hne
    exact absurd rfl hne

theorem Effect.coherent {q : Request} {code : Int} (h : Effect s q code s') (hd : s.disk.Sound)
    (hp : s.disk.LiveDir q.data.parent) (hc : Coherent s) : Coherent s' := by
  cases h with
  | idle hdisk _ hf =>
    intro c hne
    rw [hdisk] at hne ⊢
    rcases hf with hf | hf
    · rw [hf]; exact hc c hne
    · exact hf c hne
  | stored h => exact coherent_of_eq (h.coherent hd.grounded hp)
  | freed h => exact h.coherent hd hp
  | purged h => exact h.coherent hd hp

/-! ## Runs -/

theorem initialize_coherent (h : initializeFilesystemFat32 π (powerOn d) = some s₀) : Coherent s₀ := by
  by_cases hb : d.bootSector = fsSignature
  · obtain ⟨m, h1, h2⟩ := initialize_mounted (π := π) (s := powerOn d) hb
    rw [h1] at h
    cases h
    exact coherent_of_eq h2
  · rw [initialize_formatted (s := powerOn d) hb] at h
    have hf := formatted_of_create h
    exact coherent_of_eq (by rw [hf.memory, hf.fat])

/-- With a coherent table a read of a live file answers as after mounting the disk anew. -/
theorem Coherent.read_mounted (hc : Coherent s) (hd : s.disk.WellFormed) (he : s.disk.LiveFile r.parent i)
    (hr : Resolves s.disk r i) : ∃ s₁, initializeFilesystemFat32 π s = some s₁ ∧
      (read π s r).code = (read π s₁ r).code ∧
      ∀ a < (s.disk.slot r.parent i).filesize.toNat, (read π s r).buf a = (read π s₁ r).buf a := by
  obtain ⟨m, h1, h2⟩ := initialize_mounted (π := π) hd.signature
  exact ⟨_, h1, read_alike (t := ⟨m, s.disk, s.issued⟩) hd.toSound hd.toSound hc (coherent_of_eq h2) he he hr hr
    rfl rfl rfl⟩

theorem zeroDisk_boot : (powerOn zeroDisk).disk.bootSector ≠ fsSignature := by
  intro he
  have hbyte : cell zeroDisk.bootSector 0 = 0 := by
    unfold bootSector
    rw [cell_of_lt _ (by omega), Vector.getElem_ofFn]
    rfl
  rw [show zeroDisk.bootSector = fsSignature from he, fsSignature_zero] at hbyte
  exact absurd hbyte (by decide)

/-- In every run of a mounted or new disk over well-formed disks, the table in memory is that of the disk
wherever the one on the disk is taken, and a read of a live file answers as after mounting anew. -/
theorem run_coherent (h₀ : initializeFilesystemFat32 π (powerOn d) = some s₀)
    (h : ReflTransGen (Step π fun d q => d.WellFormed ∧ q.Fits d) s₀ s) :
    Coherent s ∧ ∀ r i, s.disk.WellFormed → s.disk.LiveFile r.parent i → Resolves s.disk r i →
      ∃ s₁, initializeFilesystemFat32 π s = some s₁ ∧ (read π s r).code = (read π s₁ r).code ∧
        ∀ a < (s.disk.slot r.parent i).filesize.toNat, (read π s r).buf a = (read π s₁ r).buf a := by
  have hc : Coherent s := by
    refine run_invariant (I := Coherent) (initialize_coherent h₀) ?_ h
    rintro s s' q code hc ⟨hd, hq⟩ hs
    exact (perform_effect hd.toSound hq.live hs).coherent hd.toSound hq.live hc
  exact ⟨hc, fun r i hd he hr => hc.read_mounted hd he hr⟩

theorem run_coherent_fileA : ∃ s₀ s s₁, initializeFilesystemFat32 zeroPlatform (powerOn zeroDisk) = some s₀ ∧
    perform zeroPlatform s₀ (.write fileA) = some (0, s) ∧ Coherent s ∧
    initializeFilesystemFat32 zeroPlatform s = some s₁ ∧
    (read zeroPlatform s fileA).code = (read zeroPlatform s₁ fileA).code ∧
    (read zeroPlatform s fileA).buf 0 = (read zeroPlatform s₁ fileA).buf 0 := by
  obtain ⟨s₀, s, h₀, hf, hs, ha⟩ := exists_holdsA
  have hinit : initializeFilesystemFat32 zeroPlatform (powerOn zeroDisk) = some s₀ := by
    rw [initialize_formatted zeroDisk_boot, h₀]
  obtain ⟨hc, hread⟩ := run_coherent hinit (.single ⟨.write fileA, 0, ⟨hf.wellFormed, hf.fits rfl⟩, hs⟩)
  obtain ⟨s₁, h1, h2, h3⟩ := hread fileA 2 ha.wellFormed ha.file ha.resolves
  have hsize : 0 < (s.disk.slot fileA.parent 2).filesize.toNat := by
    rw [show s.disk.slot fileA.parent 2 = _ from ha.slot, newEntry_filesize]
    decide
  exact ⟨s₀, s, s₁, hinit, hs, hc, h1, h2, h3 0 hsize⟩

end BebasOs.Fat32
