/-
The climb of the shell's prompt, the loop of `print_dir_tree`: each directory is read under `.`, the
cluster in its slot 1 is the next, and the loop ends when that is the root. It ends where following
slot 1 gets to the root.
-/
import BebasOs.Fat32.Kind
import BebasOs.Fat32.Read

namespace BebasOs.Shell

open Bytes Fat32 Disk

/-- The request for the table of the directory the loop has come to. -/
def directoryRequest (buff : ℕ → UInt8) (currentCluster : UInt32) : FAT32DriverRequest where
  buf := buff
  name := dot
  ext := Vector.replicate 3 0
  parentClusterNumber := currentCluster
  bufferSize := 2048

/-- The directory table in a buffer. -/
def tableOf (buff : ℕ → UInt8) : FAT32DirectoryTable := tablePacked.symm (Vector.ofFn fun i : Fin 2048 => buff i.1)

/-- The tables that the loop of `print_dir_tree` reads, one a round; a read that fails returns at once. -/
def climbLoop : (fuel : ℕ) → Machine → (buff : ℕ → UInt8) → (currentCluster : UInt32) →
    Option (List FAT32DirectoryTable)
  | 0, _, _, _ => none
  | fuel + 1, s, buff, currentCluster =>
    let result := readDirectory s (directoryRequest buff currentCluster)
    if result.code ≠ 0 then some []
    else
      let table := tableOf result.buf
      let parent := (cell table 1).cluster
      if parent = rootClusterNumber then some [table]
      else (climbLoop fuel result.machine result.buf parent).map (table :: ·)

variable {s : Machine} {c : UInt32} {buff : ℕ → UInt8}

theorem tableOf_blit (buff : ℕ → UInt8) (data : ClusterBuffer) :
    tableOf (blit buff 0 data) = tablePacked.symm data := by
  have hdata : (Vector.ofFn fun i : Fin 2048 => blit buff 0 data i.1) = data := by
    apply Vector.ext
    intro i hi
    have hb : blit buff 0 data (0 + i) = cell data i := blit_of_lt buff data hi
    rw [Vector.getElem_ofFn, ← cell_of_lt data hi, ← hb, Nat.zero_add]
  unfold tableOf
  rw [hdata]

/-- Read under `.`, a directory gives the table of the cluster in its slot 0. -/
theorem readDirectory_dot (s : Machine) (buff : ℕ → UInt8) (c : UInt32) :
    ∃ s' loads, s'.disk = s.disk ∧ readDirectory s (directoryRequest buff c) =
      ⟨0, blit buff 0 (s.disk.cluster (place (s.disk.slot (place c) 0).cluster)), loads, s'⟩ :=
  readDirectory_some (r := directoryRequest buff c) (if_pos rfl)

section

variable (d : Disk) (hself : ∀ p, d.LiveDir p → p < 512 ∧ (d.slot p 0).cluster.toNat = p)
  (hup : ∀ p, d.LiveDir p → d.LiveDir (d.up p))
include hself

/-- One round reads the table of the directory the loop has come to. -/
theorem climbLoop_round (hs : s.disk = d) (hc : d.LiveDir c.toNat) (fuel : ℕ) (buff : ℕ → UInt8) :
    ∃ s' buff', s'.disk = d ∧ climbLoop (fuel + 1) s buff c =
      if (d.slot c.toNat 1).cluster = rootClusterNumber then some [d.table c.toNat]
      else (climbLoop fuel s' buff' (d.slot c.toNat 1).cluster).map (d.table c.toNat :: ·) := by
  obtain ⟨hlt, hslot⟩ := hself _ hc
  have hplace : place c = c.toNat := place_of_lt (by omega)
  obtain ⟨s', loads, hs', hread⟩ := readDirectory_dot s buff c
  rw [hs, hplace, place_of_lt (by omega), hslot] at hread
  refine ⟨s', blit buff 0 (d.cluster c.toNat), hs'.trans hs, ?_⟩
  have htable : tableOf (blit buff 0 (d.cluster c.toNat)) = d.table c.toNat := tableOf_blit buff _
  rw [climbLoop]
  simp only [hread, htable, ne_eq, not_true_eq_false, if_false]
  exact ite_congr rfl (fun _ => rfl) fun _ => rfl

include hup in
/-- Where the climb gets to the root, the loop ends. -/
theorem climbLoop_ends {n : ℕ} (hs : s.disk = d) (hc : d.LiveDir c.toNat) (hn : d.up^[n + 1] c.toNat = 2)
    (buff : ℕ → UInt8) : ∃ tables, climbLoop (n + 1) s buff c = some tables := by
  rw [Function.iterate_succ_apply, Disk.up] at hn
  induction n generalizing s c buff with
  | zero =>
    rw [Function.iterate_zero_apply] at hn
    obtain ⟨s', buff', -, h⟩ := climbLoop_round d hself hs hc 0 buff
    have hroot : (d.slot c.toNat 1).cluster = rootClusterNumber :=
      UInt32.toNat_inj.1 (hn.trans (show 2 = rootClusterNumber.toNat from rfl))
    rw [h, if_pos hroot]
    exact ⟨_, rfl⟩
  | succ n ih =>
    obtain ⟨s', buff', hs', h⟩ := climbLoop_round d hself hs hc (n + 1) buff
    rw [h]
    split
    · -- the directory above is the root already, and the loop ends early
      exact ⟨_, rfl⟩
    · rw [Function.iterate_succ_apply, Disk.up] at hn
      obtain ⟨tables, ht⟩ := ih hs' (c := (d.slot c.toNat 1).cluster) (hup _ hc) hn buff'
      rw [ht]
      exact ⟨_, rfl⟩

end

end BebasOs.Shell
