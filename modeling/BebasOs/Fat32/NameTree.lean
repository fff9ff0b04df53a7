/-
The tree of names that a disk holds: a path leads from entry to entry down from the root, and at its end lies a folder
or a file with its bytes. An entry put into a directory puts its node into the tree, an entry taken out takes it out,
and nothing else is changed.
-/
import BebasOs.Lib.FileTree
import BebasOs.Fat32.Names

namespace BebasOs.Fat32

open Bytes Links Search Disk FileTree

/-- A name and an extension. -/
abbrev Key := Vector UInt8 8 × Vector UInt8 3

def FAT32DirectoryEntry.key (e : FAT32DirectoryEntry) : Key := (e.name, e.ext)

def FAT32DriverRequest.key (r : FAT32DriverRequest) : Key := (r.name, r.ext)

theorem FAT32DirectoryEntry.key_eq_iff {e e' : FAT32DirectoryEntry} :
    e.key = e'.key ↔ e.name = e'.name ∧ e.ext = e'.ext :=
  Prod.mk_inj

namespace Disk

variable {d d' : Disk} {p q i j : ℕ} {e : FAT32DirectoryEntry} {l cs : List ℕ} {k : Key} {ks ls : List Key}

/-! ## Paths on a disk -/

/-- The slot of directory `p` with the entry of this name. -/
def find (d : Disk) (p : ℕ) (k : Key) : Option ℕ :=
  first (fun i => decide ((d.slot p i).Live ∧ (d.slot p i).key = k)) 2 64

/-- The entry under a name in a directory, if there is the directory. -/
def entryIn (d : Disk) (dir : Option ℕ) (k : Key) : Option FAT32DirectoryEntry :=
  dir.bind fun p => (d.find p k).map (d.slot p)

/-- The directory of a folder. -/
def folderOf (e : FAT32DirectoryEntry) : Option ℕ := if e.IsFolder then some e.cluster.toNat else none

/-- What an entry stands for. -/
def nodeOf (d : Disk) (e : FAT32DirectoryEntry) : Node (List UInt8) :=
  if e.IsFolder then .folder else .file (d.fileBytes e)

/-- The cluster of the folder at a path. -/
def dirAt (d : Disk) : List Key → Option ℕ
  | [] => some 2
  | k :: ks => (d.entryIn (d.dirAt ks) k).bind folderOf

/-- What lies at a path. -/
def nodeAt (d : Disk) : List Key → Option (Node (List UInt8))
  | [] => some .folder
  | k :: ks => (d.entryIn (d.dirAt ks) k).map d.nodeOf

theorem find_some (h : d.find p k = some i) (hp : d.LiveDir p) : d.LiveEntry p i ∧ (d.slot p i).key = k := by
  obtain ⟨lo, hi, htest, -⟩ := first_eq_some.1 h
  obtain ⟨hlive, hkey⟩ := of_decide_eq_true htest
  exact ⟨⟨hp, lo, hi, hlive⟩, hkey⟩

theorem find_eq_none (hp : d.LiveDir p) : d.find p k = none ↔ ∀ i, d.LiveEntry p i → (d.slot p i).key ≠ k := by
  unfold find
  rw [first_eq_none]
  constructor
  · exact fun h i he hk => of_decide_eq_false (h i he.lo he.hi) ⟨he.live, hk⟩
  · exact fun h i lo hi => decide_eq_false fun ⟨hlive, hk⟩ => h i ⟨hp, lo, hi, hlive⟩ hk

/-- Where names are unique a name finds every entry that has it. -/
theorem UniqueNames.find_iff (hu : d.UniqueNames) (hp : d.LiveDir p) :
    d.find p k = some i ↔ d.LiveEntry p i ∧ (d.slot p i).key = k := by
  refine ⟨fun h => find_some h hp, fun ⟨he, hk⟩ => ?_⟩
  rcases hf : d.find p k with _ | x
  · exact absurd hk ((find_eq_none hp).1 hf i he)
  · obtain ⟨hx, hkx⟩ := find_some hf hp
    obtain ⟨hname, hext⟩ := FAT32DirectoryEntry.key_eq_iff.1 (hkx.trans hk.symm)
    rw [hu p x i hx he hname hext]

theorem entryIn_none (d : Disk) (k : Key) : d.entryIn none k = none := rfl

theorem entryIn_eq_some : d.entryIn (some p) k = some e ↔ ∃ i, d.find p k = some i ∧ d.slot p i = e := by
  rw [entryIn, Option.bind_some, Option.map_eq_some_iff]

theorem entryIn_eq_none : d.entryIn (some p) k = none ↔ d.find p k = none := by
  rw [entryIn, Option.bind_some, Option.map_eq_none_iff]

theorem folderOf_eq_some {c : ℕ} : folderOf e = some c ↔ e.IsFolder ∧ e.cluster.toNat = c := by
  unfold folderOf
  rw [Option.ite_none_right_eq_some, Option.some_inj]

/-- A path to a folder goes through one above it. -/
theorem exists_of_dirAt_cons (h : d.dirAt (k :: ks) = some q) : ∃ p i, d.dirAt ks = some p ∧ d.find p k = some i ∧
    (d.slot p i).IsFolder ∧ (d.slot p i).cluster.toNat = q := by
  rw [dirAt, Option.bind_eq_some_iff] at h
  obtain ⟨e, he, hf⟩ := h
  rcases hp : d.dirAt ks with _ | p
  · rw [hp] at he
    cases he
  · rw [hp] at he
    obtain ⟨i, hi, rfl⟩ := entryIn_eq_some.1 he
    exact ⟨p, i, rfl, hi, folderOf_eq_some.1 hf⟩

theorem liveDir_of_dirAt : ∀ {ks : List Key} {p : ℕ}, d.dirAt ks = some p → d.LiveDir p
  | [], p, h => by
    rw [← Option.some.inj h]
    exact d.liveDir_root
  | k :: ks, q, h => by
    obtain ⟨p, i, hp, hi, hf, rfl⟩ := exists_of_dirAt_cons h
    obtain ⟨he, -⟩ := find_some hi (liveDir_of_dirAt hp)
    exact he.dir.tail ⟨i, he.lo, he.hi, he.live, hf, rfl⟩

/-- Only the root has the empty path. -/
theorem Sound.dirAt_root (hd : d.Sound) (h : d.dirAt ks = some 2) : ks = [] := by
  match ks with
  | [] => rfl
  | k :: ks =>
    obtain ⟨q, i, hq, hi, hf, hc⟩ := exists_of_dirAt_cons h
    obtain ⟨he, -⟩ := find_some hi (liveDir_of_dirAt hq)
    exact absurd ⟨i, he.lo, he.hi, he.live, hf, hc⟩ (hd.root_not_listed he.dir)

/-- A directory has one path. -/
theorem Sound.dirAt_inj (hd : d.Sound) (h : d.dirAt ks = some p) (h' : d.dirAt ls = some p) : ks = ls := by
  induction ks generalizing ls p with
  | nil =>
    rw [← Option.some.inj h] at h'
    exact (hd.dirAt_root h').symm
  | cons k ks ih =>
    match ls with
    | [] =>
      rw [← Option.some.inj h'] at h
      exact hd.dirAt_root h
    | l :: ls =>
      obtain ⟨q, i, hq, hi, hf, hc⟩ := exists_of_dirAt_cons h
      obtain ⟨q', i', hq', hi', hf', hc'⟩ := exists_of_dirAt_cons h'
      obtain ⟨he, hk⟩ := find_some hi (liveDir_of_dirAt hq)
      obtain ⟨he', hk'⟩ := find_some hi' (liveDir_of_dirAt hq')
      obtain ⟨rfl, rfl⟩ := hd.listed_once he he' hf hf' (UInt32.toNat_inj.1 (hc.trans hc'.symm))
      rw [← hk, ← hk', ih hq hq']

theorem nodeOf_eq_folder : d.nodeOf e = .folder ↔ e.IsFolder := by
  unfold nodeOf
  split
  · exact iff_of_true rfl ‹_›
  · exact iff_of_false (by simp) ‹_›

theorem nodeAt_eq_folder : d.nodeAt ks = some .folder ↔ ∃ p, d.dirAt ks = some p := by
  match ks with
  | [] => exact iff_of_true rfl ⟨2, rfl⟩
  | k :: ks =>
    rw [nodeAt, dirAt]
    rcases d.entryIn (d.dirAt ks) k with _ | e
    · simp
    · rw [Option.map_some, Option.some_inj, nodeOf_eq_folder, Option.bind_some]
      exact ⟨fun hf => ⟨_, folderOf_eq_some.2 ⟨hf, rfl⟩⟩, fun ⟨_, h⟩ => (folderOf_eq_some.1 h).1⟩

/-- The folders that stay keep their clusters. -/
def Keeps (d d' : Disk) : Prop := ∀ ks p, d.dirAt ks = some p → d'.nodeAt ks = some .folder → d'.dirAt ks = some p

theorem Keeps.refl (d : Disk) : d.Keeps d := fun _ _ h _ => h

/-- The tree of a disk. -/
def treeOf (d : Disk) : FileTree.Tree Key (List UInt8) where
  node := d.nodeAt
  root := rfl
  above k ks x h := by
    rw [nodeAt, Option.map_eq_some_iff] at h
    obtain ⟨e, he, -⟩ := h
    rw [entryIn, Option.bind_eq_some_iff] at he
    obtain ⟨p, hp, -⟩ := he
    exact nodeAt_eq_folder.2 ⟨p, hp⟩

theorem node_treeOf (d : Disk) (ks : List Key) : d.treeOf.node ks = d.nodeAt ks := rfl

/-- The names in a folder are those of the entries of its directory. -/
theorem mem_children (hp : d.dirAt ks = some p) :
    k ∈ d.treeOf.children ks ↔ ∃ i, d.LiveEntry p i ∧ (d.slot p i).key = k := by
  have hlive := liveDir_of_dirAt hp
  rw [Tree.mem_children, node_treeOf, nodeAt, hp, ne_eq, Option.map_eq_none_iff, entryIn_eq_none, find_eq_none hlive]
  push Not
  rfl

/-! ## An entry put in -/

namespace Inserted

variable (h : d.Inserted d' p j e cs) (hd : d.Sound) (hu : d.UniqueNames) (hu' : d'.UniqueNames)
include h hd hu hu'

theorem find (hq : d.LiveDir q) : d'.find q k = if q = p ∧ k = e.key then some j else d.find q k := by
  refine Option.ext fun i => ?_
  rw [hu'.find_iff (h.liveDir_mono hd.grounded hq), h.liveEntry_iff hd.grounded, h.slot_eq hd.grounded hq]
  by_cases hnew : q = p ∧ i = j
  · obtain ⟨rfl, rfl⟩ := hnew
    have hno : d.find q k ≠ some i := fun hf => h.free (find_some hf hq).1.live
    rw [if_pos ⟨rfl, rfl⟩]
    split
    · rename_i hk
      exact iff_of_true ⟨.inr ⟨rfl, rfl⟩, hk.2.symm⟩ rfl
    · rename_i hk
      exact iff_of_false (fun hc => hk ⟨rfl, hc.2.symm⟩) hno
  · rw [if_neg hnew]
    simp only [hnew, or_false]
    rw [← hu.find_iff hq]
    split
    · rename_i hk
      refine iff_of_false (fun hf => ?_) fun hc => hnew ⟨hk.1, (Option.some.inj hc).symm⟩
      -- the new name is that of no other entry
      obtain ⟨he, hkey⟩ := find_some hf hq
      have hjlive : d'.LiveEntry q j := (h.liveEntry_iff hd.grounded).2 (.inr ⟨hk.1, rfl⟩)
      have hslot : d'.slot q j = e := by
        rw [hk.1]
        exact h.slot_new hd.grounded
      obtain ⟨hn, hx⟩ := FAT32DirectoryEntry.key_eq_iff.1 (hkey.trans hk.2)
      refine hnew ⟨hk.1, hu' q i j ((h.liveEntry_iff hd.grounded).2 (.inl he)) hjlive ?_ ?_⟩
      · rw [h.slot_old hd.grounded he, hslot, hn]
      · rw [h.slot_old hd.grounded he, hslot, hx]
    · rfl

theorem find_new : d.find p e.key = none := by
  have hnew := h.find hd hu hu' h.dir (k := e.key)
  rw [if_pos ⟨rfl, rfl⟩] at hnew
  refine (find_eq_none h.dir).2 fun i he hk => ?_
  have hi := (hu'.find_iff (h.liveDir_mono hd.grounded h.dir)).2 ⟨(h.liveEntry_iff hd.grounded).2 (.inl he),
    (congrArg _ (h.slot_old hd.grounded he)).trans hk⟩
  rw [hnew] at hi
  rw [← Option.some.inj hi] at he
  exact h.free he.live

omit hd hu hu' in
/-- Nothing is in the new folder. -/
theorem find_folder (hf : e.IsFolder) : d'.find e.cluster.toNat k = none :=
  first_eq_none.2 fun i lo _ => decide_eq_false fun hc => by
    rw [h.slot_folder hf lo] at hc
    exact FAT32DirectoryEntry.not_live_default hc.1

/-- One more name of a path. -/
theorem entryIn (hp : d.dirAt ls = some p)
    (hks : d'.dirAt ks = if e.IsFolder ∧ ks = e.key :: ls then some e.cluster.toNat else d.dirAt ks) :
    d'.entryIn (d'.dirAt ks) k = if k :: ks = e.key :: ls then some e else d.entryIn (d.dirAt ks) k := by
  have hnone := h.find_new hd hu hu'
  by_cases hn : e.IsFolder ∧ ks = e.key :: ls
  · obtain ⟨hf, rfl⟩ := hn
    rw [hks, if_pos ⟨hf, rfl⟩, if_neg fun hc => List.cons_ne_self _ _ (List.cons.inj hc).2,
      entryIn_eq_none.2 (h.find_folder hf), Disk.dirAt, hp, entryIn_eq_none.2 hnone]
    rfl
  rw [hks, if_neg hn]
  rcases hq : d.dirAt ks with _ | q
  · rw [if_neg, entryIn_none, entryIn_none]
    intro hc
    rw [(List.cons.inj hc).2, hp] at hq
    cases hq
  have hlive := liveDir_of_dirAt hq
  have hfind := h.find hd hu hu' hlive (k := k)
  by_cases hk : q = p ∧ k = e.key
  · obtain ⟨rfl, rfl⟩ := hk
    obtain rfl := hd.dirAt_inj hq hp
    rw [if_pos ⟨rfl, rfl⟩] at hfind
    rw [if_pos rfl]
    exact entryIn_eq_some.2 ⟨j, hfind, h.slot_new hd.grounded⟩
  · rw [if_neg hk] at hfind
    rw [if_neg]
    · unfold Disk.entryIn
      rw [Option.bind_some, Option.bind_some, hfind]
      refine Option.map_congr fun i hi => ?_
      exact h.slot_old hd.grounded (find_some hi hlive).1
    · intro hc
      obtain ⟨rfl, rfl⟩ := List.cons.inj hc
      exact hk ⟨Option.some.inj (hq.symm.trans hp), rfl⟩

theorem dirAt (hp : d.dirAt ls = some p) : ∀ ks, d'.dirAt ks =
    if e.IsFolder ∧ ks = e.key :: ls then some e.cluster.toNat else d.dirAt ks := by
  intro ks
  induction ks with
  | nil =>
    rw [if_neg fun hc => List.cons_ne_nil _ _ hc.2.symm]
    rfl
  | cons k ks ih =>
    rw [Disk.dirAt, h.entryIn hd hu hu' hp ih]
    by_cases hk : k :: ks = e.key :: ls
    · have hnone : d.dirAt (e.key :: ls) = none := by
        rw [Disk.dirAt, hp, entryIn_eq_none.2 (h.find_new hd hu hu'), Option.bind_none]
      rw [if_pos hk, Option.bind_some, hk, hnone, folderOf]
      simp only [and_true]
    · rw [if_neg hk, if_neg fun hc => hk hc.2, Disk.dirAt]

theorem keeps (hp : d.dirAt ls = some p) : d.Keeps d' := by
  intro ks q hq _
  rw [h.dirAt hd hu hu' hp, if_neg, hq]
  rintro ⟨-, rfl⟩
  rw [Disk.dirAt, hp, entryIn_eq_none.2 (h.find_new hd hu hu')] at hq
  cases hq

/-- The tree with the new node. -/
theorem nodeAt (hp : d.dirAt ls = some p) :
    d'.nodeAt = Function.update d.nodeAt (e.key :: ls) (some (d'.nodeOf e)) := by
  funext ks
  match ks with
  | [] =>
    rw [Function.update_of_ne (List.cons_ne_nil _ _).symm]
    rfl
  | k :: ks =>
    rw [Disk.nodeAt, h.entryIn hd hu hu' hp (h.dirAt hd hu hu' hp ks)]
    by_cases hk : k :: ks = e.key :: ls
    · rw [if_pos hk, hk, Function.update_self, Option.map_some]
    · rw [if_neg hk, Function.update_of_ne hk, Disk.nodeAt]
      refine Option.map_congr fun e' he' => ?_
      obtain ⟨q, hq, he'⟩ := Option.bind_eq_some_iff.1 he'
      obtain ⟨i, hi, rfl⟩ := Option.map_eq_some_iff.1 he'
      obtain ⟨he, -⟩ := find_some hi (liveDir_of_dirAt hq)
      unfold nodeOf
      split
      · rfl
      · rw [(h.file_kept hd ⟨he, ‹_›⟩).2.2]

theorem treeOf (hp : d.dirAt ls = some p) : d'.treeOf = d.treeOf.insert ls e.key (d'.nodeOf e) := by
  have hnone : d.nodeAt (e.key :: ls) = none := by
    rw [Disk.nodeAt, hp, entryIn_eq_none.2 (h.find_new hd hu hu'), Option.map_none]
  apply FileTree.Tree.ext
  rw [Tree.node_insert (nodeAt_eq_folder.2 ⟨p, hp⟩) hnone]
  exact h.nodeAt hd hu hu' hp

end Inserted

/-! ## An entry taken out -/

namespace Removed

variable (h : d.Removed d' p j l) (hd : d.Sound) (hu : d.UniqueNames)
include h hd hu

theorem find (hq : d'.LiveDir q) :
    d'.find q k = if q = p ∧ k = (d.slot p j).key then none else d.find q k := by
  have hq' := ((h.liveDir_iff hd).1 hq).1
  refine Option.ext fun i => ?_
  rw [(hu.removed hd h).find_iff hq, h.liveEntry_iff hd]
  by_cases hold : q = p ∧ i = j
  · obtain ⟨rfl, rfl⟩ := hold
    refine iff_of_false (fun hc => hc.1.2 rfl) fun hc => ?_
    obtain ⟨hk, hf⟩ := Option.ite_none_left_eq_some.1 hc
    exact hk ⟨rfl, ((hu.find_iff hq').1 hf).2.symm⟩
  · have hne : (q, i) ≠ (p, j) := fun hc => hold (Prod.mk.inj hc)
    rw [Option.ite_none_left_eq_some, hu.find_iff hq']
    constructor
    · rintro ⟨⟨he, -⟩, hk⟩
      rw [h.slot_old hd he hne] at hk
      refine ⟨fun hc => hold ⟨hc.1, ?_⟩, he, hk⟩
      obtain ⟨rfl, hkey⟩ := hc
      exact Option.some.inj (((hu.find_iff hq').2 ⟨he, hk⟩).symm.trans ((hu.find_iff hq').2 ⟨h.entry, hkey.symm⟩))
    · rintro ⟨-, he, hk⟩
      rw [h.slot_old hd he hne]
      exact ⟨⟨he, hne⟩, hk⟩

theorem entryIn (hp : d.dirAt ls = some p)
    (hks : d'.dirAt ks = if (d.slot p j).IsFolder ∧ ks = (d.slot p j).key :: ls then none else d.dirAt ks) :
    d'.entryIn (d'.dirAt ks) k = if k :: ks = (d.slot p j).key :: ls then none else d.entryIn (d.dirAt ks) k := by
  have hfound : d.entryIn (some p) (d.slot p j).key = some (d.slot p j) :=
    entryIn_eq_some.2 ⟨j, (hu.find_iff h.entry.dir).2 ⟨h.entry, rfl⟩, rfl⟩
  by_cases hn : (d.slot p j).IsFolder ∧ ks = (d.slot p j).key :: ls
  · -- nothing was below the folder
    obtain ⟨hf, rfl⟩ := hn
    have hdir : d.dirAt ((d.slot p j).key :: ls) = some (d.slot p j).cluster.toNat := by
      rw [Disk.dirAt, hp, hfound, Option.bind_some]
      exact folderOf_eq_some.2 ⟨hf, rfl⟩
    have hempty : d.find (d.slot p j).cluster.toNat k = none :=
      (find_eq_none (liveDir_of_dirAt hdir)).2 fun i he _ => h.empty hf ⟨i, he.lo, he.hi, he.live⟩
    rw [hks, if_pos ⟨hf, rfl⟩, if_neg fun hc => List.cons_ne_self _ _ (List.cons.inj hc).2, hdir,
      entryIn_eq_none.2 hempty]
    rfl
  rw [hks, if_neg hn]
  rcases hq : d.dirAt ks with _ | q
  · rw [if_neg, entryIn_none, entryIn_none]
    intro hc
    rw [(List.cons.inj hc).2, hp] at hq
    cases hq
  have hlive : d'.LiveDir q := (h.liveDir_iff hd).2 ⟨liveDir_of_dirAt hq, fun hc => hn ⟨hc.1, ?_⟩⟩
  · have hfind := h.find hd hu hlive (k := k)
    by_cases hk : q = p ∧ k = (d.slot p j).key
    · obtain ⟨rfl, rfl⟩ := hk
      obtain rfl := hd.dirAt_inj hq hp
      rw [if_pos ⟨rfl, rfl⟩] at hfind
      rw [if_pos rfl, entryIn_eq_none.2 hfind]
    · rw [if_neg hk] at hfind
      rw [if_neg]
      · unfold Disk.entryIn
        rw [Option.bind_some, Option.bind_some, hfind]
        refine Option.map_congr fun i hi => ?_
        obtain ⟨he, hki⟩ := find_some hi (liveDir_of_dirAt hq)
        refine h.slot_old hd he fun hc => hk ?_
        obtain ⟨rfl, rfl⟩ := Prod.mk.inj hc
        exact ⟨rfl, hki.symm⟩
      · intro hc
        obtain ⟨rfl, rfl⟩ := List.cons.inj hc
        exact hk ⟨Option.some.inj (hq.symm.trans hp), rfl⟩
  · refine hd.dirAt_inj hq ?_
    rw [Disk.dirAt, hp, hfound, Option.bind_some]
    exact folderOf_eq_some.2 ⟨hc.1, hc.2.symm⟩

theorem dirAt (hp : d.dirAt ls = some p) : ∀ ks, d'.dirAt ks =
    if (d.slot p j).IsFolder ∧ ks = (d.slot p j).key :: ls then none else d.dirAt ks := by
  intro ks
  induction ks with
  | nil =>
    rw [if_neg fun hc => List.cons_ne_nil _ _ hc.2.symm]
    rfl
  | cons k ks ih =>
    rw [Disk.dirAt, h.entryIn hd hu hp ih]
    by_cases hk : k :: ks = (d.slot p j).key :: ls
    · rw [if_pos hk, Option.bind_none, hk]
      split
      · rfl
      · rename_i hf
        have hfound : d.entryIn (some p) (d.slot p j).key = some (d.slot p j) :=
          entryIn_eq_some.2 ⟨j, (hu.find_iff h.entry.dir).2 ⟨h.entry, rfl⟩, rfl⟩
        rw [Disk.dirAt, hp, hfound, Option.bind_some, folderOf, if_neg fun hc => hf ⟨hc, rfl⟩]
    · rw [if_neg hk, if_neg fun hc => hk hc.2, Disk.dirAt]

theorem keeps (hp : d.dirAt ls = some p) : d.Keeps d' := by
  intro ks q hq hf
  obtain ⟨q', hq'⟩ := nodeAt_eq_folder.1 hf
  rw [h.dirAt hd hu hp] at hq' ⊢
  split at hq'
  · cases hq'
  · next hne => rw [if_neg hne, hq]

/-- The tree without the node. -/
theorem nodeAt (hp : d.dirAt ls = some p) : d'.nodeAt = Function.update d.nodeAt ((d.slot p j).key :: ls) none := by
  funext ks
  match ks with
  | [] =>
    rw [Function.update_of_ne (List.cons_ne_nil _ _).symm]
    rfl
  | k :: ks =>
    have hentry := h.entryIn hd hu hp (h.dirAt hd hu hp ks) (k := k)
    by_cases hk : k :: ks = (d.slot p j).key :: ls
    · rw [if_pos hk] at hentry
      rw [Disk.nodeAt, hentry, hk, Function.update_self, Option.map_none]
    · rw [if_neg hk] at hentry
      rw [Disk.nodeAt, hentry, Function.update_of_ne hk, Disk.nodeAt]
      refine Option.map_congr fun e' he' => ?_
      obtain ⟨q, hq, he'⟩ := Option.bind_eq_some_iff.1 he'
      obtain ⟨i, hi, rfl⟩ := Option.map_eq_some_iff.1 he'
      obtain ⟨he, hki⟩ := find_some hi (liveDir_of_dirAt hq)
      have hne : (q, i) ≠ (p, j) := fun hc => hk (by
        obtain ⟨rfl, rfl⟩ := Prod.mk.inj hc
        rw [← hki, hd.dirAt_inj hq hp])
      unfold nodeOf
      split
      · rfl
      · rw [(h.file_kept hd ⟨he, ‹_›⟩ hne).2.2]

theorem treeOf (hp : d.dirAt ls = some p) (hempty : d.treeOf.children ((d.slot p j).key :: ls) = ∅) :
    d'.treeOf = d.treeOf.erase ls (d.slot p j).key := by
  apply FileTree.Tree.ext
  rw [Tree.node_erase hempty]
  exact h.nodeAt hd hu hp

end Removed

end Disk

end BebasOs.Fat32
