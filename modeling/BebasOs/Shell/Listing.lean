/-
The listing of a folder. Each slot shows a name or nothing, and all of them together the name of the folder and the
names in it.
-/
import BebasOs.Shell.Turns

namespace BebasOs.Shell

open Bytes Search Fat32 Disk FileTree

variable {π : Platform} {sh : State} {t : Session} {k : Key} {ks : List Key}

/-! ## Lists -/

theorem mapM_eq_some {α β : Type} {f : α → Option β} {g : α → β} {l : List α} (h : ∀ a ∈ l, f a = some (g a)) :
    l.mapM f = some (l.map g) := by
  induction l with
  | nil => rfl
  | cons a l ih =>
    rw [List.mapM_cons, h a List.mem_cons_self, ih fun b hb => h b (List.mem_cons_of_mem _ hb)]
    rfl

theorem flatMap_filter {α β : Type} (p : α → Bool) (f : α → List β) (l : List α) :
    (l.filter p).flatMap f = l.flatMap fun a => if p a then f a else [] := by
  induction l with
  | nil => rfl
  | cons a l ih =>
    rw [List.filter_cons, List.flatMap_cons, ← ih]
    split <;> simp [*]

/-- Every text is filtered by itself. -/
theorem filter_texts {α : Type} {p : α → Bool} {g : ℕ → List (List α)} {f : ℕ → List α} {l : List ℕ}
    (h : ∀ i ∈ l, (g i).flatten.filter p = f i) : (l.map g).flatten.flatten.filter p = l.flatMap f := by
  induction l with
  | nil => rfl
  | cons a l ih =>
    rw [List.map_cons, List.flatten_cons, List.flatten_append, List.filter_append, h a List.mem_cons_self,
      ih fun i hi => h i (List.mem_cons_of_mem _ hi), List.flatMap_cons]

/-! ## Slots -/

/-- A name that ends within its field is printed as it is. -/
theorem nameRun_of_short (data : ClusterBuffer) (memory : ℕ → UInt8) {i : ℕ} (hi : i < 64)
    (h : (nameText (cell (tablePacked.symm data) i).name).length < 8) :
    nameRun (blit memory 0 data) i = some (nameText (cell (tablePacked.symm data) i).name) := by
  have hname : (List.range' (32 * i) 8).map (blit memory 0 data) = (cell (tablePacked.symm data) i).name.toList := by
    refine List.ext_getElem (by simp) fun j h1 h2 => ?_
    rw [Vector.length_toList] at h2
    have hbyte := blit_of_lt memory data (o := 0) (b := i * 32 + j) (by omega)
    rw [List.getElem_map, List.getElem_range', Vector.getElem_toList, ← cell_of_lt _ h2,
      name_unpacked data hi h2, ← hbyte]
    congr 1
    omega
  have hrun : ((List.range' (32 * i) (2048 - 32 * i)).map (blit memory 0 data)).takeWhile (· ≠ 0) =
      nameText (cell (tablePacked.symm data) i).name := by
    rw [show 2048 - 32 * i = 8 + (2040 - 32 * i) by omega, ← List.range'_append_1, List.map_append, hname,
      List.takeWhile_append, if_neg]
    · rfl
    · rw [Vector.length_toList]
      exact Nat.ne_of_lt h
  unfold nameRun
  simp only [hrun]
  rw [if_pos (by omega)]

theorem filter_nameText (name : Vector UInt8 8) : (nameText name).filter (· ≠ 0) = nameText name :=
  List.filter_eq_self.2 fun _ hx => decide_eq_true fun hc => zero_notMem_nameText name (hc ▸ hx)

theorem listed_skipped {buf : ℕ → UInt8} {i : ℕ} (h : (cell (tableOf buf) i).userAttribute = 0 ∨
    cell (cell (tableOf buf) i).name 0 = dotByte) : listed buf i = some [] := if_pos h

/-- The name of a slot without an extension is listed, with or without three null bytes behind it. -/
theorem listed_shown {buf : ℕ → UInt8} {i : ℕ} (hrun : nameRun buf i = some (nameText (cell (tableOf buf) i).name))
    (hused : (cell (tableOf buf) i).userAttribute ≠ 0) (hdot : cell (cell (tableOf buf) i).name 0 ≠ dotByte)
    (hext : (cell (tableOf buf) i).ext = Vector.replicate 3 0) :
    ∃ texts, listed buf i = some texts ∧ texts.flatten.filter (· ≠ 0) = titled (cell (tableOf buf) i).key := by
  have hnull : cell (cell (tableOf buf) i).ext 0 = 0 := by
    rw [hext]
    rfl
  have hname := filter_nameText (cell (tableOf buf) i).name
  unfold listed
  rw [if_neg (not_or.2 ⟨hused, hdot⟩), hrun]
  simp only [Option.bind_eq_bind, Option.bind_some, hnull, if_true]
  split_ifs
  · refine ⟨_, rfl, ?_⟩
    simp only [List.flatten_cons, List.flatten_nil, List.append_nil, List.filter_append, hname]
    rfl
  · refine ⟨_, rfl, ?_⟩
    rw [hext]
    simp only [List.flatten_cons, List.flatten_nil, List.append_nil, List.filter_append, hname]
    rfl

namespace StandsAt

variable (h : StandsAt π sh t)
include h

/-- The names in the current folder, and its own, end within their fields and have no extension. -/
theorem own_name : (nameText (ownKey π t.path).1).length < 8 ∧ cell (ownKey π t.path).1 0 ≠ dotByte := by
  obtain ⟨v, ks⟩ := t
  match ks with
  | [] =>
    refine ⟨?_, ?_⟩
    · show (nameText (rootName π)).length < 8
      rw [nameText_root]
      decide
    · show cell (rootName π) 0 ≠ 46
      rw [cell_of_lt _ (by decide), rootName_getElem]
      decide
  | k :: ks =>
    obtain ⟨w, hw⟩ := h.worded ks k (by
      rw [Tree.mem_children, h.folder]
      exact Option.some_ne_none _)
    have hlen := w.length_le
    show (nameText k.1).length < 8 ∧ cell k.1 0 ≠ dotByte
    rw [← hw, w.nameText_key]
    exact ⟨by omega, fun hc => w.notMem (x := dotByte) (by decide) (hc ▸ w.first_mem)⟩

/-- What is listed of each slot of the table. -/
theorem listed (memory : ℕ → UInt8) {i : ℕ} (hi : i < 64) :
    ∃ texts, Shell.listed (blit memory 0 (sh.machine.disk.cluster sh.parentCluster.toNat)) i = some texts ∧
      texts.flatten.filter (· ≠ 0) = if i ≠ 1 ∧ (sh.machine.disk.slot sh.parentCluster.toNat i).Live then
        titled (sh.machine.disk.slot sh.parentCluster.toNat i).key else [] := by
  obtain ⟨hs, hv⟩ := h.holds
  have hlive := liveDir_of_dirAt h.here
  have htable : tableOf (blit memory 0 (sh.machine.disk.cluster sh.parentCluster.toNat)) =
      sh.machine.disk.table sh.parentCluster.toNat := tableOf_blit _ _
  have hslot : cell (tableOf (blit memory 0 (sh.machine.disk.cluster sh.parentCluster.toNat))) i =
      sh.machine.disk.slot sh.parentCluster.toNat i := by rw [htable]; rfl
  by_cases hshown : i ≠ 1 ∧ (sh.machine.disk.slot sh.parentCluster.toNat i).Live
  · rw [if_pos hshown, ← hslot]
    -- the name of the folder itself, or a word
    obtain ⟨hlen, hdot, hext⟩ : (nameText (sh.machine.disk.slot sh.parentCluster.toNat i).name).length < 8 ∧
        cell (sh.machine.disk.slot sh.parentCluster.toNat i).name 0 ≠ dotByte ∧
          (sh.machine.disk.slot sh.parentCluster.toNat i).ext = Vector.replicate 3 0 := by
      by_cases h0 : i = 0
      · subst h0
        have hown := congrArg Prod.fst (hs.keyed.own_key h.here)
        obtain ⟨hlen, hdot⟩ := h.own_name
        rw [← hown] at hlen hdot
        exact ⟨hlen, hdot, hs.keyed.ext _ hlive⟩
      · have he : sh.machine.disk.LiveEntry sh.parentCluster.toNat i := ⟨hlive, by omega, hi, hshown.2⟩
        obtain ⟨w, hw⟩ := h.worded t.path (sh.machine.disk.slot sh.parentCluster.toNat i).key (by
          rw [← hv]
          exact (mem_children h.here).2 ⟨i, he, rfl⟩)
        have hlen := w.length_le
        have hname : w.key.1 = (sh.machine.disk.slot sh.parentCluster.toNat i).name := congrArg Prod.fst hw
        rw [← hname, w.nameText_key]
        exact ⟨by omega, fun hc => w.notMem (x := dotByte) (by decide) (hc ▸ w.first_mem), (congrArg Prod.snd hw).symm⟩
    rw [← hslot] at hlen hdot hext
    refine listed_shown ?_ ?_ hdot hext
    · have hrun := nameRun_of_short (sh.machine.disk.cluster sh.parentCluster.toNat) memory hi (by
        rw [← tableOf_blit memory]
        exact hlen)
      rwa [← tableOf_blit memory] at hrun
    · rw [hslot, show (sh.machine.disk.slot sh.parentCluster.toNat i).userAttribute = uattrNotEmpty from hshown.2]
      decide
  · rw [if_neg hshown]
    refine ⟨[], listed_skipped ?_, rfl⟩
    rw [hslot]
    by_cases h1 : i = 1
    · subst h1
      rw [hs.dirs.name _ hlive]
      exact .inr rfl
    · have hunused : sh.machine.disk.slot sh.parentCluster.toNat i = default :=
        (hs.shape _ hlive).unused i hi fun hc => hshown ⟨h1, hc⟩
      rw [hunused]
      exact .inl rfl

end StandsAt

/-! ## The names in a folder -/

/-- The names in directory `p`, in the order of their slots. -/
def keysIn (d : Disk) (p : ℕ) : List Key :=
  (hits (fun i => decide (d.slot p i).Live) 2 64).map fun i => (d.slot p i).key

section

variable {d : Disk} {p : ℕ}

theorem nodup_keysIn (hu : d.UniqueNames) (hp : d.LiveDir p) : (keysIn d p).Nodup := by
  refine hits_nodup.map_on fun i hi j hj hkey => ?_
  obtain ⟨hlo, hhi, hlive⟩ := mem_hits.1 hi
  obtain ⟨hlo', hhi', hlive'⟩ := mem_hits.1 hj
  exact hu p i j ⟨hp, hlo, hhi, of_decide_eq_true hlive⟩ ⟨hp, hlo', hhi', of_decide_eq_true hlive'⟩
    (congrArg Prod.fst hkey) (congrArg Prod.snd hkey)

theorem mem_keysIn (hp : d.dirAt ks = some p) : k ∈ keysIn d p ↔ k ∈ d.treeOf.children ks := by
  rw [mem_children hp, keysIn, List.mem_map]
  constructor
  · rintro ⟨i, hi, hk⟩
    obtain ⟨hlo, hhi, hlive⟩ := mem_hits.1 hi
    exact ⟨i, ⟨liveDir_of_dirAt hp, hlo, hhi, of_decide_eq_true hlive⟩, hk⟩
  · rintro ⟨i, he, hk⟩
    exact ⟨i, mem_hits.2 ⟨he.lo, he.hi, decide_eq_true he.live⟩, hk⟩

/-- What the slots show together, when the first is in use: its name, and those in the directory. -/
theorem flatMap_slots (hlive : (d.slot p 0).Live) :
    (List.range 64).flatMap (fun i => if i ≠ 1 ∧ (d.slot p i).Live then titled (d.slot p i).key else []) =
      ((d.slot p 0).key :: keysIn d p).flatMap titled := by
  have hrange : List.range 64 = 0 :: 1 :: List.range' 2 62 := by decide
  have hrest : (List.range' 2 62).flatMap (fun i => if i ≠ 1 ∧ (d.slot p i).Live then titled (d.slot p i).key else []) =
      (List.range' 2 62).flatMap fun i => if decide (d.slot p i).Live then titled (d.slot p i).key else [] := by
    refine List.flatMap_congr fun i hi => ?_
    rw [List.mem_range'_1] at hi
    exact if_congr (by rw [and_iff_right (by omega), decide_eq_true_iff]) rfl rfl
  rw [hrange, List.flatMap_cons, List.flatMap_cons, if_pos ⟨by decide, hlive⟩, if_neg fun h => h.1 rfl, List.nil_append,
    hrest, List.flatMap_cons, keysIn, List.flatMap_map, hits, flatMap_filter]

end

theorem ls_follows (h : StandsAt π sh t) (hprinted : sh.printed = []) (memory : ℕ → UInt8) :
    Follows π t .ls (ls sh Command.ls.line memory) := by
  obtain ⟨hs, hv⟩ := h.holds
  have hlive := liveDir_of_dirAt h.here
  have hpath : Command.ls.line.path = [] := by decide +kernel
  have hrange := (hs.toSound.liveDir_range hlive).2
  have hplace : place sh.parentCluster.toUInt32 = sh.parentCluster.toNat := by
    rw [place_of_lt (by rw [UInt16.toNat_toUInt32]; omega), UInt16.toNat_toUInt32]
  have hself : place (sh.machine.disk.slot sh.parentCluster.toNat 0).cluster = sh.parentCluster.toNat := by
    have hself := hs.dirs.self _ hlive
    rw [place_of_lt (by omega), hself]
  obtain ⟨s', loads, hdisk, hread⟩ := readDirectory_some (s := sh.machine) (i := 0)
    (r := ⟨memory, dot, Vector.replicate 3 0, sh.parentCluster.toUInt32, 0⟩) (if_pos rfl)
  rw [hplace, hself] at hread
  -- what is listed of each slot
  have hlisted := fun i (hi : i ∈ List.range 64) => h.listed memory (List.mem_range.1 hi)
  choose! texts htexts hshown using hlisted
  have hrun : ls sh Command.ls.line memory =
      some ({ sh with machine := s' }, ((List.range 64).map texts).flatten) := by
    unfold ls
    simp only [hread]
    rw [if_neg (not_not_intro hpath), mapM_eq_some htexts]
    rfl
  have hnodup := nodup_keysIn hs.names hlive
  refine ⟨_, _, hrun, ⟨hprinted, keysIn sh.machine.disk sh.parentCluster.toNat, hnodup, fun k => ?_, ?_⟩, ?_⟩
  · rw [mem_keysIn h.here, ← hv]
    rfl
  · rw [filter_texts hshown, flatMap_slots (hs.shape _ hlive).self, hs.keyed.own_key h.here]
  · exact h.read (q := .readDirectory ⟨memory, dot, Vector.replicate 3 0, sh.parentCluster.toUInt32, 0⟩) ⟨_, .inr rfl⟩
      (UInt16.toNat_toUInt32 _) (by rw [perform, hread]) ⟨rfl, rfl, rfl, hdisk⟩ rfl

end BebasOs.Shell
