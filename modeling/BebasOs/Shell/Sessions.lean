/-
Whole sessions at the shell, from the runs of the inserter on the host to what is on the screen.
-/
import BebasOs.Shell.Listing

namespace BebasOs.Shell

open Bytes Fat32 Disk FileTree Refinement

variable {π κ : Platform} {sh : State} {t : Session} {v : Volume}

/-! ## Turns -/

theorem turn_refines (π : Platform) :
    Refines (turn π) (Session.respond π) (Session.Allows π) (StandsAt π) Output.Matches := by
  rintro sh t ⟨c, memory, u⟩ h hP
  have h₀ : StandsAt π { sh with printed := [] } t := ⟨h.holds, h.worded, h.room, h.idx, h.here, h.stack⟩
  obtain ⟨sh', texts, hrun, hM, hsh'⟩ : Follows π t c (parseCommand π { sh with printed := [] } c.line memory u) := by
    cases c with
    | mkdir w =>
      rw [parseCommand_mkdir]
      exact mkdir_follows h₀ rfl w memory
    | rm w =>
      rw [parseCommand_rm]
      exact rm_follows h₀ rfl hP memory
    | cd w =>
      rw [parseCommand_cd]
      exact cd_follows h₀ rfl hP
    | up =>
      rw [parseCommand_up]
      exact up_follows h₀ rfl
    | ls =>
      rw [parseCommand_ls]
      exact ls_follows h₀ rfl memory
    | cat w =>
      rw [parseCommand_cat]
      exact cat_follows h₀ rfl hP
  refine ⟨_, sh', ?_, hM, hsh'⟩
  show (parseCommand π { sh with printed := [] } c.line memory u).map _ = _
  rw [hrun, Option.map_some]

/-- The shell starts in the root. -/
theorem standsAt_initial {s : Machine} (h : Represents π s v) (hw : Worded v) (dirbuffer : ℕ → UInt8) :
    StandsAt π (State.initial s dirbuffer) ⟨v, []⟩ := by
  have hroot : cell (State.initial s dirbuffer).clusters 0 = rootClusterNumber := cell_store_self _ _ (by decide)
  refine ⟨h, hw, Nat.zero_lt_succ 99, rfl, rfl, fun i hi => ?_⟩
  obtain rfl : i = 0 := Nat.le_zero.1 hi
  rw [hroot]
  rfl

/-- Of the platform the shell depends on what lies behind the table. -/
theorem turn_congr (hb : π.fatBeyond = κ.fatBeyond) (sh : State) (x : Turn) : turn π sh x = turn κ sh x := by
  obtain ⟨c, memory, u⟩ := x
  have hparse (sh : State) : parseCommand π sh c.line memory u = parseCommand κ sh c.line memory u := by
    cases c with
    | mkdir w =>
      rw [parseCommand_mkdir, parseCommand_mkdir]
      unfold mkdir
      rw [write_congr hb]
    | rm w =>
      rw [parseCommand_rm, parseCommand_rm]
      unfold rm
      simp only [delete_congr hb]
    | cat w =>
      rw [parseCommand_cat, parseCommand_cat]
      unfold cat
      simp only [read_congr hb]
    | cd w => rw [parseCommand_cd, parseCommand_cd]
    | up => rw [parseCommand_up, parseCommand_up]
    | ls => rw [parseCommand_ls, parseCommand_ls]
  unfold turn
  rw [hparse]

section

variable (hr : π.rootTail = κ.rootTail)
include hr

theorem ownKey_congr : ownKey π = ownKey κ := by
  funext ks
  unfold ownKey rootName
  rw [hr]

theorem serve_congr : Session.serve π = Session.serve κ := by
  have hown := ownKey_congr hr
  have hresolve : Volume.resolve π = Volume.resolve κ := by
    unfold Volume.resolve
    rw [hown]
  funext t c
  unfold Session.serve Volume.write Volume.delete
  rw [hown, hresolve]

theorem permitted_congr : Session.Permitted π = Session.Permitted κ := by
  unfold Session.Permitted
  rw [ownKey_congr hr]

theorem StandsAt.of_rootTail (h : StandsAt π sh t) : StandsAt κ sh t :=
  ⟨⟨h.holds.1.of_rootTail hr, h.holds.2⟩, h.worded, h.room, h.idx, h.here, h.stack⟩

end

/-- On a disk that was formatted elsewhere the root has the name that it was given there. -/
theorem turn_refines_formatted (π κ : Platform) :
    Refines (turn π) (Session.respond κ) (Session.Allows κ) (StandsAt κ) Output.Matches := by
  intro sh t x h hP
  obtain ⟨ρ, hb, hr⟩ : ∃ ρ : Platform, π.fatBeyond = ρ.fatBeyond ∧ κ.rootTail = ρ.rootTail :=
    ⟨⟨κ.rootTail, π.fatBeyond⟩, rfl, rfl⟩
  have hserve := serve_congr hr
  obtain ⟨o, sh', hrun, hM, hsh'⟩ := turn_refines ρ sh t x (h.of_rootTail hr) (by
    unfold Session.Allows
    rw [← permitted_congr hr]
    exact hP)
  unfold Session.respond at hM hsh' ⊢
  rw [← hserve] at hM hsh'
  exact ⟨o, sh', (turn_congr hb sh x).trans hrun, hM, hsh'.of_rootTail hr.symm⟩

/-! ## From the image to the screen -/

section

variable {image : Disk} {as : List Arguments}

theorem worded_of_loaded (h : Loaded as v) (hw : ∀ a ∈ as, ∃ w : Word, w.key = a.request.key) : Worded v := by
  intro ks k hk
  obtain rfl := h.folder (Tree.node_of_mem_children hk)
  obtain ⟨a, ha, rfl⟩ := h.children k hk
  exact hw a ha

/-- Runs of the inserter on an unformatted image put the files into it; a kernel, on another machine, mounts it, and
what its shell shows for the commands of its user, one after the other, is what the session on the volume shows that
begins in the root, where the files are. -/
theorem run_session (hb : image.bootSector ≠ fsSignature) (hf : Fat32.Fits κ as) (hne : as ≠ [])
    (hw : ∀ a ∈ as, ∃ w : Word, w.key = a.request.key) :
    ∃ codes image' v, run (insert κ) image as = some (codes, image') ∧ (∀ code ∈ codes, code = 0) ∧ Loaded as v ∧
      ∃ s, initializeFilesystemFat32 π (powerOn image') = some s ∧ ∀ dirbuffer xs,
        Allowed (Session.respond κ) (Session.Allows κ) ⟨v, []⟩ xs →
          ∃ outputs sh, run (turn π) (State.initial s dirbuffer) xs = some (outputs, sh) ∧
            List.Forall₂ Output.Matches outputs (trace (Session.respond κ) ⟨v, []⟩ xs).1 ∧
            StandsAt κ sh (trace (Session.respond κ) ⟨v, []⟩ xs).2 := by
  obtain ⟨codes, image', v, hrun, hcodes, hholds, hloaded⟩ := run_insert hb hf
  refine ⟨codes, image', v, hrun, hcodes, hloaded, ?_⟩
  rcases hholds with ⟨-, rfl⟩ | ⟨s, ⟨hs, rfl⟩, rfl⟩
  · obtain ⟨a, ha⟩ := List.exists_mem_of_ne_nil _ hne
    have hnode := hloaded.node a ha
    rw [show Volume.new.tree.node [a.request.key] = none from Tree.node_empty _ _] at hnode
    cases hnode
  · obtain ⟨m, hm, hfat⟩ := initialize_mounted (π := π) (s := powerOn s.disk) hs.signature
    refine ⟨_, hm, fun dirbuffer xs hP => ?_⟩
    have hκ : Represents κ ⟨m, s.disk, []⟩ (volumeOf s.disk) := ⟨hs.of_disk rfl (coherent_of_eq hfat), rfl⟩
    obtain ⟨outputs, sh, hrun, hM, hsh⟩ :=
      (turn_refines_formatted π κ).run (standsAt_initial hκ (worded_of_loaded hloaded hw) dirbuffer) hP
    exact ⟨outputs, sh, hrun, hM, hsh⟩

def shellFile : Arguments := ⟨[115, 104, 101, 108, 108], 2, fun _ => 7, 5000⟩

theorem shellFile_fits : Fat32.Fits zeroPlatform [shellFile] :=
  ⟨by decide, by decide, by decide, by decide, by decide, by decide⟩

def wordShell : Word := ⟨[115, 104, 101, 108, 108], by decide, by decide, by decide +kernel⟩

def wordA : Word := ⟨[97], by decide, by decide, by decide +kernel⟩

theorem wordShell_key : wordShell.key = shellFile.request.key := by decide

def sampleTurns : List Turn :=
  [.cat wordShell, .mkdir wordA, .ls, .cd wordA, .up].map fun c => ⟨c, fun _ => 0, ⟨0, 0, fun _ => 0, fun _ => 0⟩⟩

/-- The shell is a file, and the folder may be made and gone into. -/
theorem sampleTurns_allowed (h : Loaded [shellFile] v) :
    Allowed (Session.respond zeroPlatform) (Session.Allows zeroPlatform) ⟨v, []⟩ sampleTurns := by
  have hfile : v.tree.node [wordShell.key] = some (.file (bufferBytes shellFile.request)) := by
    rw [wordShell_key]
    exact h.node _ List.mem_cons_self
  have hnone : v.tree.node [wordA.key] = none := Tree.notMem_children.1 fun hc => by
    obtain ⟨a, ha, hk⟩ := h.children _ hc
    obtain rfl := List.mem_singleton.1 ha
    exact absurd hk (by decide)
  have hmade (bytes : List UInt8) :
      (v.write zeroPlatform [] wordA.request).2.tree.node [wordA.key] ≠ some (.file bytes) := by
    have hfolder : Volume.made wordA.request = .folder := if_pos rfl
    unfold Volume.write
    split_ifs
    · simp [hnone]
    · simp [hnone]
    · simp [hnone]
    · show (v.tree.insert [] wordA.key (Volume.made wordA.request)).node [wordA.key] ≠ _
      rw [Tree.node_insert v.tree.root hnone, Function.update_self, hfolder]
      simp
  have hcat : Session.serve zeroPlatform ⟨v, []⟩ (.cat wordShell) = _ := Session.serve_cat hfile
  have hallowed : Session.Permitted zeroPlatform ⟨v, []⟩ (.cat wordShell) := by
    have hown : wordShell.key ≠ ownKey zeroPlatform [] := by decide
    refine ⟨hown, ?_, fun bytes hb => ?_⟩
    · show v.tree.node [wordShell.key] ≠ some .folder
      rw [hfile]
      simp
    · obtain rfl := Node.file.inj (Option.some.inj (hfile.symm.trans hb))
      rw [bufferBytes, List.length_map, List.length_range]
      decide
  refine ⟨hallowed, ?_⟩
  unfold Session.respond
  rw [hcat]
  exact ⟨trivial, trivial, ⟨Nat.zero_lt_succ 98, hmade⟩, trivial, trivial⟩

theorem run_session_sampleTurns : ∃ codes image' v,
    run (insert zeroPlatform) zeroDisk [shellFile] = some (codes, image') ∧
    (∀ code ∈ codes, code = 0) ∧ Loaded [shellFile] v ∧
      ∃ s, initializeFilesystemFat32 zeroPlatform (powerOn image') = some s ∧ ∀ dirbuffer,
        ∃ outputs sh, run (turn zeroPlatform) (State.initial s dirbuffer) sampleTurns = some (outputs, sh) ∧
          List.Forall₂ Output.Matches outputs (trace (Session.respond zeroPlatform) ⟨v, []⟩ sampleTurns).1 := by
  obtain ⟨codes, image', v, hrun, hcodes, hloaded, s, hs, hturns⟩ :=
    run_session (π := zeroPlatform) zeroDisk_boot shellFile_fits (List.cons_ne_nil _ _)
      (fun a ha => ⟨wordShell, by rw [List.mem_singleton.1 ha, wordShell_key]⟩)
  refine ⟨codes, image', v, hrun, hcodes, hloaded, s, hs, fun dirbuffer => ?_⟩
  obtain ⟨outputs, sh, hout, hM, -⟩ := hturns dirbuffer sampleTurns (sampleTurns_allowed hloaded)
  exact ⟨outputs, sh, hout, hM⟩

end

end BebasOs.Shell
