/-
The stack of directories behind `cd ..`. It is the path to the root as long as every line that moves goes into a
directory below the current one and the stack has room, and no longer: `cd .` puts the current directory on it
once more, and a path of two components leaves out the directory in between.
-/
import BebasOs.Shell.ChangeDirectory
import BebasOs.Lib.Trail

namespace BebasOs.Shell

open Bytes Search Fat32 Disk StateTransition Relation

variable {d : Disk} {sh sh' sh₀ : State} {line : CdLine} {c c' : UInt16} {name : Vector UInt8 8}

/-! ## The stack and the path -/

/-- The shell as it starts, in the root. -/
structure Started (d : Disk) (sh : State) : Prop where
  idx : sh.idx = 0
  clusters : cell sh.clusters 0 = rootClusterNumber
  parentCluster : sh.parentCluster = 2
  disk : sh.machine.disk = d

/-- One line is given to the shell that `P` allows. -/
def CdStep (P : State → CdLine → Prop) (sh sh' : State) : Prop :=
  ∃ line, P sh line ∧ changeDirectory sh line = some sh'

/-- The cluster in slot 1 of a directory. -/
def parentOf (d : Disk) (c : UInt32) : UInt32 := (d.slot c.toNat 1).cluster

/-- The top of the stack is the current directory, and the entry below it is its parent. -/
structure OnPath (sh : State) : Prop where
  depth : sh.idx < 100
  here : cell sh.clusters sh.idx = sh.parentCluster.toUInt32
  above : 0 < sh.idx → parentOf sh.machine.disk (cell sh.clusters sh.idx) = cell sh.clusters (sh.idx - 1)

/-- Where the line moves, it moves to a directory whose parent is the current one, and the stack has room. -/
def Descends (sh : State) (line : CdLine) : Prop :=
  ∀ c, Moves sh.machine.disk line sh.parentCluster c →
    parentOf sh.machine.disk c.toUInt32 = sh.parentCluster.toUInt32 ∧ sh.idx < 99

/-- The whole stack is a path, of cluster numbers of 16 bits. -/
structure Stacked (sh : State) : Prop where
  depth : sh.idx < 100
  here : cell sh.clusters sh.idx = sh.parentCluster.toUInt32
  trail : Trail (parentOf sh.machine.disk) sh.clusters sh.idx
  small : ∀ i ≤ sh.idx, (cell sh.clusters i).toUInt16.toUInt32 = cell sh.clusters i

namespace Stacked

theorem onPath (h : Stacked sh) : OnPath sh where
  depth := h.depth
  here := h.here
  above hpos := by
    obtain ⟨i, hi⟩ : ∃ i, sh.idx = i + 1 := ⟨sh.idx - 1, by omega⟩
    have ht := h.trail
    rw [hi] at ht ⊢
    exact ht.top

theorem unmoved (h : Stacked sh) (hm : Unmoved sh sh') : Stacked sh' where
  depth := by rw [hm.idx]; exact h.depth
  here := by rw [hm.idx, hm.clusters, hm.parentCluster]; exact h.here
  trail := by rw [hm.idx, hm.clusters, hm.disk]; exact h.trail
  small := by rw [hm.idx, hm.clusters]; exact h.small

theorem popped (h : Stacked sh) (hp : Popped sh sh') : Stacked sh' where
  depth := by have := hp.idx; have := h.depth; omega
  here := by rw [hp.clusters, hp.parentCluster]; exact (h.small _ (by have := hp.idx; omega)).symm
  trail := by
    have ht := h.trail
    rw [← hp.idx] at ht
    rw [hp.clusters, hp.disk]
    exact ht.pop
  small i hi := by rw [hp.clusters]; exact h.small i (by have := hp.idx; omega)

theorem pushed (h : Stacked sh) (hp : Pushed sh c sh') (hroom : sh.idx < 99)
    (hc : parentOf sh.machine.disk c.toUInt32 = sh.parentCluster.toUInt32) : Stacked sh' where
  depth := by rw [hp.idx]; omega
  here := by rw [hp.idx, hp.clusters, hp.parentCluster, cell_store_self _ _ (by omega)]
  trail := by
    rw [hp.idx, hp.clusters, hp.disk]
    exact h.trail.push (by omega) (hc.trans h.here.symm)
  small i hi := by
    rw [hp.idx] at hi
    rw [hp.clusters, cell_store _ _ _ (by omega)]
    split
    · rw [UInt16.toUInt16_toUInt32]
    · exact h.small i (by omega)

/-- A line that descends where it moves keeps the stack. -/
theorem step (h : Stacked sh) (hcd : changeDirectory sh line = some sh') (hd : Descends sh line) : Stacked sh' := by
  cases cd_spec hcd with
  | climbed _ hp => exact h.popped hp
  | moved hm hp => exact h.pushed hp (hd _ hm).2 (hd _ hm).1
  | stayed _ _ hm => exact h.unmoved hm

end Stacked

/-- The path of a line leads to one directory at most. -/
theorem Moves.unique {d : Disk} {a : UInt16} (h : Moves d line a c) (h' : Moves d line a c') : c = c' := by
  obtain ⟨-, q, hq, -⟩ := h.leads
  obtain ⟨-, q', hq', -⟩ := h'.leads
  exact (Prod.mk.inj (Part.mem_unique hq hq')).2

/-- A line that moves elsewhere breaks it. -/
theorem descends_of_onPath (h : Stacked sh) (hcd : changeDirectory sh line = some sh') (ho : OnPath sh') :
    Descends sh line := by
  intro c hc
  cases cd_spec hcd with
  | climbed hclimbs => exact absurd hclimbs (Bool.eq_false_iff.1 hc.climbs)
  | stayed _ hno => exact absurd hc (hno c)
  | @moved c' _ hm hp =>
    obtain rfl := hc.unique hm
    have hdepth := ho.depth
    rw [hp.idx] at hdepth
    have habove := ho.above (by rw [hp.idx]; omega)
    rw [hp.idx, hp.clusters, hp.disk, cell_store_self _ _ hdepth, Nat.add_sub_cancel,
      cell_store_ne _ _ (by omega), h.here] at habove
    exact ⟨habove, by omega⟩

/-- A climb goes to the parent. -/
theorem climb_parent (h : Stacked sh) (hcd : changeDirectory sh line = some sh') (hc : line.climbs = true)
    (hpos : 0 < sh.idx) : sh'.parentCluster.toUInt32 = parentOf sh.machine.disk sh.parentCluster.toUInt32 := by
  cases cd_spec hcd with
  | climbed _ hp =>
    have hidx := hp.idx
    have htop := h.trail
    rw [← hidx] at htop
    rw [hp.parentCluster, h.small _ (by omega), ← h.here, ← hidx, htop.top]
  | moved hm => exact absurd hc (Bool.eq_false_iff.1 hm.climbs)
  | stayed h0 => exact absurd (h0 hc) (by omega)

theorem Started.stacked (h : Started d sh) : Stacked sh where
  depth := by rw [h.idx]; omega
  here := by rw [h.idx, h.clusters, h.parentCluster]; rfl
  trail := by rw [h.idx]; exact .zero _ _
  small i hi := by
    rw [h.idx] at hi
    obtain rfl : i = 0 := by omega
    rw [h.clusters]
    rfl

theorem changeDirectory_disk (hcd : changeDirectory sh line = some sh') : sh'.machine.disk = sh.machine.disk := by
  cases cd_spec hcd with
  | climbed _ hp => exact hp.disk
  | moved _ hp => exact hp.disk
  | stayed _ _ hm => exact hm.disk

/-- Entry 0 of the stack stays the root. -/
theorem changeDirectory_bottom (hcd : changeDirectory sh line = some sh') :
    cell sh'.clusters 0 = cell sh.clusters 0 := by
  cases cd_spec hcd with
  | climbed _ hp => rw [hp.clusters]
  | moved _ hp => rw [hp.clusters, cell_store_ne _ _ (by omega)]
  | stayed _ _ hm => rw [hm.clusters]

/-- After lines that descend where they move, the stack is a path up to the root. -/
theorem run_stacked (h₀ : Started d sh₀) (h : ReflTransGen (CdStep Descends) sh₀ sh) :
    Stacked sh ∧ sh.machine.disk = d ∧ cell sh.clusters 0 = rootClusterNumber := by
  induction h with
  | refl => exact ⟨h₀.stacked, h₀.disk, h₀.clusters⟩
  | tail _ hstep ih =>
    obtain ⟨hs, hdisk, hbottom⟩ := ih
    obtain ⟨line, hd, hcd⟩ := hstep
    exact ⟨hs.step hcd hd, (changeDirectory_disk hcd).trans hdisk, (changeDirectory_bottom hcd).trans hbottom⟩

/-! ## Sample lines -/

/-- A line with one short component, to a directory that is there, moves to it. -/
theorem changeDirectory_one (sh : State) (line : CdLine) (hdisk : sh.machine.disk = d) (hc : line.climbs = false)
    (hb : line.blank = false) (h3 : ends line.buffer 3 = false)
    (he : entered d (folderName line.buffer 3 (currentLen line.buffer 3)) sh.parentCluster = some c)
    (hend : ends line.buffer (3 + UInt8.ofNat (currentLen line.buffer 3 + 1)) = true) :
    ∃ sh', changeDirectory sh line = some sh' ∧ Pushed sh c sh' ∧ Moves d line sh.parentCluster c := by
  have hm : Moves d line sh.parentCluster c := by
    refine ⟨hc, hb, h3, _, mem_eval_some ?_ (mem_eval_none (advance_end c hend)), hend⟩
    rw [advance_eq h3, he]
    rfl
  -- two rounds of the loop: the component, and the end of the string
  obtain ⟨w, hw, hmove, hcode, -, -⟩ := walkLoop_enter (w := ⟨sh, 0, sh.parentCluster, false⟩) 16777215 hdisk rfl h3 he
  obtain ⟨w', hw', -⟩ := walkLoop_end 16777214 hcode hend
  have hloop : walkLoop line.buffer (2 ^ 24) 3 ⟨sh, 0, sh.parentCluster, false⟩ = some w' := hw.trans hw'
  obtain ⟨sh', hcd⟩ : ∃ sh', changeDirectory sh line = some sh' := by
    unfold changeDirectory
    rw [hc, hb, hloop]
    simp only [Bool.false_eq_true, if_false, Option.bind_eq_bind, Option.bind_some]
    split_ifs <;> exact ⟨_, rfl⟩
  refine ⟨sh', hcd, ?_, hm⟩
  subst hdisk
  cases cd_spec hcd with
  | climbed hclimbs => exact absurd hclimbs (Bool.eq_false_iff.1 hc)
  | stayed _ hno => exact absurd hm (hno c)
  | @moved c' _ hm' hp =>
    obtain rfl := hm.unique hm'
    exact hp

/-- A line of the shell with a text. -/
def lineBytes (text : List UInt8) : Vector UInt8 256 := ⟨⟨strncpy text 256⟩, length_strncpy text 256⟩

/-- The line `cd b`. -/
def cdB : CdLine := ⟨⟨lineBytes [99, 100, 32, 98], by decide +kernel⟩, by decide +kernel⟩

/-- The line `cd .`. -/
def cdDot : CdLine := ⟨⟨lineBytes [99, 100, 32, 46], by decide +kernel⟩, by decide +kernel⟩

/-- From the root `b` leads to cluster 3. -/
theorem entered_b {s : Machine} (h : HoldsFolder zeroPlatform s) : entered s.disk folderB.name 2 = some 3 := by
  have hfind : lookUp s.disk (2 : UInt16).toNat folderB.name = some 2 := by
    unfold lookUp
    rw [if_neg (show folderB.name ≠ dot by decide)]
    refine first_eq_some.2 ⟨by omega, by omega, ?_, fun j h1 h2 => ?_⟩
    · show decide ((s.disk.slot 2 2).name = folderB.name) = true
      rw [h.slot, newEntry_name]
      exact decide_eq_true rfl
    · obtain rfl : j = 1 := by omega
      show decide ((s.disk.slot 2 1).name = folderB.name) = false
      rw [h.rootParent, dotDotEntry_name]
      decide
  have hplace : place (s.disk.slot (2 : UInt16).toNat 2).cluster = 3 := by
    show place (s.disk.slot 2 2).cluster = 3
    rw [h.slot]
    decide
  rw [entered_eq hfind, hplace, h.self]
  decide

/-- Under `.` the folder is its own. -/
theorem entered_dot {s : Machine} (h : HoldsFolder zeroPlatform s) : entered s.disk dot 3 = some 3 := by
  have hfind : lookUp s.disk (3 : UInt16).toNat dot = some 0 := by
    unfold lookUp
    rw [if_pos rfl]
  have hplace : place (s.disk.slot (3 : UInt16).toNat 0).cluster = 3 := by
    show place (s.disk.slot 3 0).cluster = 3
    rw [h.self]
    decide
  rw [entered_eq hfind, hplace, h.self]
  decide

/-- A shell at its start. -/
def start (s : Machine) : State := ⟨0, store (Vector.replicate 100 0) 0 rootClusterNumber, 2, fun _ => 0, s, []⟩

theorem started (s : Machine) : Started s.disk (start s) :=
  ⟨rfl, cell_store_self _ _ (by omega), rfl, rfl⟩

/-- The line `cd b` goes into the folder. -/
theorem start_cdB {s : Machine} (h : HoldsFolder zeroPlatform s) : ∃ sh, changeDirectory (start s) cdB = some sh ∧
    Pushed (start s) 3 sh ∧ Moves s.disk cdB 2 3 :=
  changeDirectory_one _ _ rfl (by decide +kernel) (by decide +kernel) (by decide +kernel)
    (by rw [show folderName cdB.buffer 3 (currentLen cdB.buffer 3) = folderB.name by decide +kernel]; exact entered_b h)
    (by decide +kernel)

theorem parentOf_folder {s : Machine} (h : HoldsFolder zeroPlatform s) : parentOf s.disk 3 = rootClusterNumber := by
  have hparent : parentOf s.disk 3 = (s.disk.slot 3 1).cluster := rfl
  rw [hparent, h.parent, dotDotEntry_cluster, rootEntry_cluster]
  rfl

/-! ## The stack is the path -/

/-- On every disk, in every state that `cd` lines lead to from the root of which each goes, where it moves, to a
directory whose slot 1 holds the current one, with `idx` below 99: the stack ends in the current directory,
each entry is the parent of the next, and the parents of the current directory lead to the root in `idx` steps.
The next line keeps that if and only if it moves in the same way, and a climb goes to the parent. -/
theorem stack_is_path (h₀ : Started d sh₀) (h : ReflTransGen (CdStep Descends) sh₀ sh) :
    OnPath sh ∧ (parentOf d)^[sh.idx] sh.parentCluster.toUInt32 = rootClusterNumber ∧
      ∀ line sh', changeDirectory sh line = some sh' → (OnPath sh' ↔ Descends sh line) ∧
        (line.climbs = true → 0 < sh.idx → sh'.parentCluster.toUInt32 = parentOf d sh.parentCluster.toUInt32) := by
  obtain ⟨hs, hdisk, hbottom⟩ := run_stacked h₀ h
  refine ⟨hs.onPath, ?_, fun line sh' hcd => ⟨⟨descends_of_onPath hs hcd, fun hd => (hs.step hcd hd).onPath⟩, ?_⟩⟩
  · rw [← hdisk, ← hs.here, hs.trail.climb, hbottom]
  · rw [← hdisk]
    exact climb_parent hs hcd

/-- The line `cd b`, from the root into a folder. -/
theorem stack_is_path_cdB : ∃ (d : Disk) (sh : State), OnPath sh ∧ sh.idx = 1 ∧
    (parentOf d)^[1] sh.parentCluster.toUInt32 = rootClusterNumber := by
  obtain ⟨-, s, -, -, -, hb⟩ := exists_holdsFolder
  obtain ⟨sh, hcd, hp, hm⟩ := start_cdB hb
  have hdescends : Descends (start s) cdB := by
    intro c hc
    obtain rfl := hm.unique hc
    exact ⟨parentOf_folder hb, show (start s).idx < 99 from Nat.zero_lt_succ 98⟩
  obtain ⟨hpath, hroot, -⟩ := stack_is_path (started s) (.single ⟨cdB, hdescends, hcd⟩)
  have hidx : sh.idx = 1 := hp.idx
  rw [hidx] at hroot
  exact ⟨s.disk, sh, hpath, hidx, hroot⟩

/-- After `cd b` and `cd .` the folder is on the stack twice, and is not its own parent. -/
theorem stack_off_path : ¬ ∀ (d : Disk) (sh₀ sh : State), d.WellFormed → d.Tree → Started d sh₀ →
    ReflTransGen (CdStep fun _ _ => True) sh₀ sh → OnPath sh := by
  obtain ⟨-, s, -, -, -, hb⟩ := exists_holdsFolder
  obtain ⟨sh₁, hcd₁, hp₁, -⟩ := start_cdB hb
  have hdisk : sh₁.machine.disk = s.disk := hp₁.disk
  obtain ⟨sh₂, hcd₂, hp₂, -⟩ := changeDirectory_one sh₁ cdDot (c := 3) hdisk (by decide +kernel)
    (by decide +kernel) (by decide +kernel) (by
      rw [show folderName cdDot.buffer 3 (currentLen cdDot.buffer 3) = dot by decide +kernel, hp₁.parentCluster]
      exact entered_dot hb) (by decide +kernel)
  intro hall
  have hpath := hall s.disk (start s) sh₂ hb.wellFormed hb.tree (started s)
    (.tail (.single ⟨cdB, trivial, hcd₁⟩) ⟨cdDot, trivial, hcd₂⟩)
  have hidx₁ : sh₁.idx = 1 := hp₁.idx
  have hidx₂ : sh₂.idx = 2 := hp₂.idx.trans (by rw [hidx₁])
  have hclusters₁ : sh₁.clusters = store (start s).clusters 1 3 := hp₁.clusters
  have hclusters₂ : sh₂.clusters = store sh₁.clusters 2 3 := hp₂.clusters.trans (by rw [hidx₁]; rfl)
  have habove := hpath.above (by omega)
  rw [hidx₂, hp₂.disk, hdisk, hclusters₂, cell_store_self _ _ (by omega), cell_store_ne _ _ (by omega), hclusters₁,
    cell_store_self _ _ (by omega), parentOf_folder hb] at habove
  exact absurd habove (by decide)

end BebasOs.Shell
