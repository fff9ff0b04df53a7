/-
What `find` finds. With what the memory holds given, it is right exactly if the first slot that the depth-first search
stops at has the name and is the right one, or if there is nothing to stop at and nothing to find.
-/
import BebasOs.Shell.Find

namespace BebasOs.Shell

open Bytes Search Fat32 Disk Relation DepthFirst

variable {π : Platform} {d : Disk} {s : Machine} {e : FAT32DirectoryEntry} {name text : List UInt8}
  {ns ms : List (List UInt8)} {c q i k : ℕ} {cl : UInt32}

/-! ## What a search should give -/

/-- Slot `j` of directory `q`, which is `c` or below it, has an entry of that name without an extension. -/
structure EntryBelow (d : Disk) (c : ℕ) (name : List UInt8) (q j : ℕ) : Prop where
  entry : d.LiveEntry q j
  below : ReflTransGen d.Lists c q
  name : nameText (d.slot q j).name = name
  ext : cell (d.slot q j).ext 0 = 0

/-- The path of such an entry. -/
def PathBelow (d : Disk) (c : ℕ) (name text : List UInt8) : Prop :=
  ∃ ns q j, EntryBelow d c name q j ∧ d.PathTo ns q ∧ text = separated (ns ++ [name])

/-- The search ends, finds an entry exactly if there is one, and then gives the path of one. -/
def Finds (d : Disk) (c : ℕ) (name : List UInt8) (result : Option FindResult) : Prop :=
  ∃ r, result = some r ∧ (r.found = true ↔ ∃ q j, EntryBelow d c name q j) ∧
    (r.found = true → PathBelow d c name (stringAt r.foundPath 0))

/-! ## The right slot -/

/-- When the slot that the search stops at is the right one. A folder must have exactly the name, which must be the same
with its parts between separators in the opposite order, and with the names on its path so turned there must be an
entry of the name. Of a file it is what the data say if they are taken for directory tables. -/
def RightSlot (d : Disk) (c : ℕ) (name : List UInt8) (q i : ℕ) : Prop :=
  if (d.slot q i).IsFolder then
    nameText (d.slot q i).name = name ∧ swapped splitter name = name ∧
      ∃ ns ms p j, d.PathTo ns q ∧ EntryBelow d c name p j ∧ d.PathTo ms p ∧
        separated ms = separated (ns.map (swapped splitter))
  else ∃ text, PathBelow d c name text ∧ Spelled d (d.slot q i).cluster (swapped splitter text)

/-- Where a path with spaces behind it, each name turned, is a path without them, there are no spaces. -/
theorem eq_of_separated (h : separated ((ns ++ [name ++ List.replicate k 32]).map (swapped splitter)) =
    separated (ms ++ [name])) : k = 0 ∧ swapped splitter name = name ∧
      separated ms = separated (ns.map (swapped splitter)) := by
  rw [List.map_append, List.map_singleton, separated_concat, separated_concat] at h
  obtain ⟨hns, hname⟩ := append_cons_inj_of_count h (by
    rw [(swapped_perm _).count_eq, List.count_append, List.count_replicate, if_neg (by decide), Nat.add_zero])
  have hk := (swapped_perm (a := splitter) (name ++ List.replicate k 32)).length_eq
  rw [hname, List.length_append, List.length_replicate] at hk
  obtain rfl : k = 0 := by omega
  rw [List.replicate_zero, List.append_nil] at hname
  exact ⟨rfl, hname, hns.symm⟩

theorem Shown.length_of_pathBelow (hd : Shown π d) (h : PathBelow d c name (swapped splitter text)) :
    text.length < 128 := by
  obtain ⟨ns, q, j, hentry, hns, htext⟩ := h
  have hfits := hd.fits ns q j hns hentry.entry
  rw [hentry.name, ← htext, (swapped_perm text).length_eq] at hfits
  omega

/-- The right slot is one from which the path of an entry is printed. -/
theorem rightSlot_iff (hd : Shown π d) (hq : d.LiveDir q) (lo : 2 ≤ i) (hi : i < 64) (h8 : name.length ≤ 8)
    (hmatch : trimmedName (d.slot q i) = name) : RightSlot d c name q i ↔
      ∃ text, Spelled d (d.slot q i).cluster text ∧ PathBelow d c name (swapped splitter text) := by
  unfold RightSlot
  split
  · next hfolder =>
    -- the path of the folder is spelled
    obtain ⟨ns, hns⟩ := exists_pathTo hq
    have hspelled := spelled_path hd.toTitled (hns.folder lo hi (hd.live_of_folder hq hi hfolder) hfolder) (by simp) rfl
    constructor
    · rintro ⟨hname, hsame, ns', ms, p, j, hns', hentry, hms, hpath⟩
      obtain rfl := hns.unique hd.toTitled hns'
      rw [hname] at hspelled
      refine ⟨_, hspelled, ms, p, j, hentry, hms, ?_⟩
      rw [swapped_backwards, List.map_append, List.map_singleton, hsame, separated_concat, separated_concat, hpath]
    · rintro ⟨text, htext, ms, p, j, hentry, hms, hpath⟩
      obtain rfl := htext.unique hspelled
      obtain ⟨k, hk⟩ := nameText_of_trimmed hmatch h8
      rw [swapped_backwards, hk] at hpath
      obtain ⟨rfl, hsame, hms'⟩ := eq_of_separated hpath
      rw [List.replicate_zero, List.append_nil] at hk
      exact ⟨hk, hsame, ns, ms, p, j, hns, hentry, hms, hms'⟩
  · constructor
    · rintro ⟨text, hpath, hspelled⟩
      exact ⟨_, hspelled, by rwa [swapped_swapped]⟩
    · rintro ⟨text, hspelled, hpath⟩
      exact ⟨_, hpath, by rwa [swapped_swapped]⟩

/-- What is printed is right if it is the path of an entry. -/
theorem finds_of_printed {result : Option FindResult} (hd : Shown π d) (h : Printed d cl result) :
    Finds d c name result ↔ ∃ text, Spelled d cl text ∧ PathBelow d c name (swapped splitter text) := by
  constructor
  · rintro ⟨r, hr, -, hpath⟩
    obtain ⟨hfound, text, hspelled, -, htext⟩ := h.spelled r hr
    have hbelow := hpath hfound
    rw [htext] at hbelow
    exact ⟨text, hspelled, hbelow⟩
  · rintro ⟨text, hspelled, hbelow⟩
    obtain ⟨r, hr⟩ := h.printed text hspelled (hd.length_of_pathBelow hbelow)
    obtain ⟨hfound, text', hspelled', -, htext⟩ := h.spelled r hr
    obtain rfl := hspelled'.unique hspelled
    rw [← htext] at hbelow
    refine ⟨r, hr, iff_of_true hfound ?_, fun _ => hbelow⟩
    obtain ⟨-, q, j, hentry, -⟩ := hbelow
    exact ⟨q, j, hentry⟩

/-! ## When the search is right -/

/-- The first slot that the search stops at has the name and is the right one, or there is none, and no entry. -/
def FindsRight (d : Disk) (name : List UInt8) (x : Call) : Prop :=
  (∃ m i y, IsLeast (stops (below d) (StopsAt d name) x) (m ++ [i]) ∧ node (below d) x m = some y ∧
      trimmedName (d.slot y.cluster i) = name ∧ RightSlot d x.cluster name y.cluster i) ∨
    stops (below d) (StopsAt d name) x = ∅ ∧ ∀ q j, ¬ EntryBelow d x.cluster name q j

/-- What is searched for a slot is the folder in it. -/
theorem of_below {x y : Call} (h : below d x i = some y) : (2 ≤ i ∧ i < 64 ∧ (d.slot x.cluster i).IsFolder) ∧
    y.cluster = (d.slot x.cluster i).cluster.toNat ∧ y.junk = (fun l => x.junk (i :: l)) ∧
      newPath d x i = some (some y.foundPath) := by
  unfold below at h
  split at h
  · next hfolder =>
    obtain ⟨path, hpath, rfl⟩ := Option.map_eq_some_iff.1 h
    exact ⟨hfolder, rfl, rfl, Option.join_eq_some_iff.1 hpath⟩
  · cases h

/-- The directories that are searched are below the first. -/
theorem lists_node {x y : Call} {m : List ℕ} (hd : Shown π d) (hx : d.LiveDir x.cluster)
    (h : node (below d) x m = some y) : ReflTransGen d.Lists x.cluster y.cluster := by
  induction m generalizing x with
  | nil =>
    cases h
    exact .refl
  | cons i m ih =>
    obtain ⟨z, hz, hy⟩ := Option.bind_eq_some_iff.1 h
    obtain ⟨⟨lo, hi, hfolder⟩, hcluster, -⟩ := of_below hz
    have hlists := hd.lists_of_folder hx lo hi hfolder
    rw [← hcluster] at hlists
    exact .head hlists (ih (hx.tail hlists) hy)

/-- In every tree that the shell can show, every directory of it and every name, whatever the memory holds where the
paths of the folders are: the search ends, finds an entry exactly if there is one and gives its path, if and only if the
first slot in depth-first order that it stops at is the right one. -/
theorem findInDirectory_finds_iff (hd : Shown π s.disk) {cluster : UInt16} (hc : s.disk.LiveDir cluster.toNat)
    (h1 : 1 ≤ name.length) (h8 : name.length ≤ 8) (h0 : 0 ∉ name) (hslash : name ≠ [47]) {fuel : ℕ} (hfuel : 128 ≤ fuel)
    (memory : ℕ → UInt8) (junk : List ℕ → ℕ → UInt8) :
    Finds s.disk cluster.toNat name (findInDirectory fuel s memory junk cluster name (Vector.replicate 256 0)) ↔
      FindsRight s.disk name ⟨cluster.toNat, Vector.replicate 256 0, junk⟩ := by
  obtain ⟨ns, hns⟩ := exists_pathTo hc
  have hends := findInDirectory_ends hd h0 (List.ne_nil_of_length_pos h1) hslash memory fuel
    (Vector.replicate 256 0) junk hns (by omega) rfl
  refine hends.iff (fun m y i hy hstop hstopped => ?_) ?_
  · unfold StoppedAt at hstopped
    split at hstopped
    · next hmatch =>
      rw [finds_of_printed hd hstopped, ← rightSlot_iff hd (hc.trans (lists_node hd hc hy)) hstop.1 hstop.2.1 h8 hmatch]
      exact (and_iff_right hmatch).symm
    · next hmatch =>
      rw [hstopped]
      exact iff_of_false (fun ⟨r, hr, _⟩ => by cases hr) fun h => hmatch h.1
  · rintro ⟨s', -, hmissed⟩
    rw [hmissed]
    constructor
    · rintro ⟨r, hr, hiff, -⟩ q j hentry
      cases hr
      exact Bool.false_ne_true (hiff.2 ⟨q, j, hentry⟩)
    · intro hnone
      refine ⟨_, rfl, iff_of_false Bool.false_ne_true fun ⟨q, j, hentry⟩ => hnone q j hentry, fun h => ?_⟩
      exact absurd h Bool.false_ne_true

/-! ## Memory of zeros -/

theorem newPathBuffer_zeros : newPathBuffer (fun _ => 0) = Vector.replicate 256 0 := by
  refine cell_ext fun i hi => ?_
  unfold newPathBuffer
  rw [cell_ofFn hi, cell_replicate]

theorem strlen_writeAt_zeros (h0 : 0 ∉ text) (hlt : text.length < 256) :
    strlen (writeAt (Vector.replicate 256 0) 0 text) 0 = text.length := by
  have hheld : HoldsAt (writeAt (Vector.replicate 256 0) 0 text) 0 text := holdsAt_writeAt _ (by omega)
  refine strlen_eq_iff.2 ⟨?_, fun i hi => ?_⟩
  · rw [cell_writeAt_other (by omega) (.inr (by omega)), cell_replicate]
  · rw [hheld i hi]
    exact fun he => h0 (he ▸ List.getElem_mem hi)

/-- With room for both, a string gets as long as the two. -/
theorem strcat_fits {n : ℕ} {b : Vector UInt8 n} (h0 : 0 ∉ text) (hlt : strlen b 0 + text.length < n) :
    ∃ b', strcat b text = some b' ∧ strlen b' 0 = strlen b 0 + text.length := by
  have hheld : HoldsAt (writeAt b (strlen b 0) text) (strlen b 0) text := holdsAt_writeAt _ (by omega)
  refine ⟨_, if_pos hlt, strlen_eq_iff.2 ⟨?_, fun i hi => ?_⟩⟩
  · rw [Nat.zero_add, cell_store_self _ _ hlt]
  · rw [Nat.zero_add, cell_store_ne _ _ (by omega)]
    rcases Nat.lt_or_ge i (strlen b 0) with hlt | hge
    · rw [cell_writeAt_other (by omega) (.inl hlt), ← Nat.zero_add i]
      exact cell_of_lt_strlen hlt
    · obtain ⟨k, rfl⟩ := Nat.exists_eq_add_of_le hge
      rw [hheld k (by omega)]
      exact fun he => h0 (he ▸ List.getElem_mem _)

theorem getElem_length_takeWhile {f : UInt8 → Bool} {l : List UInt8} (h : (l.takeWhile f).length < l.length) :
    f l[(l.takeWhile f).length] = false := by
  induction l with
  | nil => exact absurd h (Nat.not_lt_zero _)
  | cons a l ih =>
    by_cases ha : f a = true
    · simp only [List.takeWhile_cons_of_pos ha, List.length_cons, List.getElem_cons_succ] at h ⊢
      exact ih (by omega)
    · simpa [List.takeWhile_cons_of_neg ha] using ha

/-- Without an extension the string from the name on ends with the name. -/
theorem nameRun_le {c : ℕ} (hi : i < 64) (hext : cell (d.slot c i).ext 0 = 0) :
    ∃ run, nameRun (cell (d.cluster c)) i = some run ∧ run.length ≤ (nameText (d.slot c i).name).length ∧ 0 ∉ run := by
  have h8 := length_nameText (d.slot c i).name
  refine nameRun_of_null (by omega) ?_
  rcases Nat.lt_or_eq_of_le h8 with hlt | heq
  · rw [Nat.mul_comm, ← name_unpacked _ hi hlt]
    have hnull := getElem_length_takeWhile (f := fun a : UInt8 => decide (a ≠ 0)) (l := (d.slot c i).name.toList) (by
      rw [Vector.length_toList]
      exact hlt)
    rw [Vector.getElem_toList, ← cell_of_lt, decide_eq_false_iff_not, not_not] at hnull
    exact hnull
  · rw [heq, Nat.mul_comm, show i * 32 + 8 = i * 32 + (8 + 0) by omega, ← ext_unpacked _ hi (by decide)]
    exact hext

/-- A call in memory of zeros, with a path no longer than that of its directory. -/
structure Fitting (d : Disk) (ns : List (List UInt8)) (x : Call) : Prop where
  path : d.PathTo ns x.cluster
  zeros : ∀ l, newPathBuffer (x.junk l) = Vector.replicate 256 0
  length : strlen x.foundPath 0 ≤ (separated ns).length

theorem lenAt_le (d : Disk) (x : Call) (i : ℕ) : lenAt d x i ≤ strlen x.foundPath 0 + i := by
  induction i with
  | zero => exact Nat.le_refl _
  | succ i ih =>
    unfold lenAt grown
    split_ifs <;> omega

namespace Fitting

variable {x y : Call} (h : Fitting d ns x) (hd : Shown π d)
  (hext : ∀ p i, d.LiveEntry p i → (d.slot p i).IsFolder → cell (d.slot p i).ext 0 = 0)
include h hd hext

/-- Where folders have no extension, none is passed over, and no path is too long. -/
theorem newPath_eq (lo : 2 ≤ i) (hi : i < 64) (hfolder : (d.slot x.cluster i).IsFolder) :
    ∃ path, newPath d x i = some (some path) ∧
      strlen path 0 ≤ strlen x.foundPath 0 + 1 + (nameText (d.slot x.cluster i).name).length := by
  have hlive := hd.live_of_folder h.path.liveDir hi hfolder
  obtain ⟨run, hrun, hle, h0⟩ := nameRun_le hi (hext _ i ⟨h.path.liveDir, lo, hi, hlive⟩ hfolder)
  have h8 := length_nameText (d.slot x.cluster i).name
  have hpath := h.length.trans (hd.path_le h.path)
  have hlen := lenAt_le d x i
  -- the path with a slash, if there is one
  obtain ⟨start, hstart, hstartLen⟩ : ∃ start, (if NeedsSlash x (lenAt d x i) then
      strcat (writeAt (newPathBuffer (x.junk [i])) 0 (stringAt x.foundPath 0)) [47]
      else some (writeAt (newPathBuffer (x.junk [i])) 0 (stringAt x.foundPath 0))) = some start ∧
        strlen start 0 ≤ strlen x.foundPath 0 + 1 := by
    have hcopy : strlen (writeAt (newPathBuffer (x.junk [i])) 0 (stringAt x.foundPath 0)) 0 = strlen x.foundPath 0 := by
      rw [h.zeros, strlen_writeAt_zeros (zero_notMem_stringAt _ _) (by rw [length_stringAt]; omega), length_stringAt]
    split
    · have hslash : (0 : UInt8) ∉ [47] := by decide
      obtain ⟨b, hb, hbLen⟩ := strcat_fits (b := writeAt (newPathBuffer (x.junk [i])) 0 (stringAt x.foundPath 0))
        hslash (by
          rw [hcopy, List.length_singleton]
          omega)
      refine ⟨b, hb, ?_⟩
      rw [hbLen, hcopy]
      rfl
    · exact ⟨_, rfl, by omega⟩
  obtain ⟨path, hp, hpLen⟩ := strcat_fits (b := start) h0 (by omega)
  have hgrown : grown x (lenAt d x i) ≤ lenAt d x i + 1 := by
    unfold grown
    split_ifs <;> omega
  refine ⟨path, ?_, by omega⟩
  unfold newPath
  simp only [hstart, hrun, Option.bind_some, hp]
  exact if_pos (by omega)

/-- So the folder is searched, with a path that is no longer than its own. -/
theorem exists_below (lo : 2 ≤ i) (hi : i < 64) (hfolder : (d.slot x.cluster i).IsFolder) : ∃ y, below d x i = some y ∧
    y.cluster = (d.slot x.cluster i).cluster.toNat ∧ Fitting d (ns ++ [nameText (d.slot x.cluster i).name]) y := by
  obtain ⟨path, hpath, hlen⟩ := h.newPath_eq hd hext lo hi hfolder
  refine ⟨⟨_, path, fun l => x.junk (i :: l)⟩, ?_, rfl,
    h.path.folder lo hi (hd.live_of_folder h.path.liveDir hi hfolder) hfolder, fun l => h.zeros _, ?_⟩
  · unfold below
    rw [if_pos ⟨lo, hi, hfolder⟩, hpath]
    rfl
  · have := h.length
    rw [separated_concat, List.length_append, List.length_cons]
    show strlen path 0 ≤ _
    omega

theorem node_fitting {m : List ℕ} (hy : node (below d) x m = some y) : ∃ ms, Fitting d ms y := by
  induction m generalizing x ns with
  | nil =>
    cases hy
    exact ⟨ns, h⟩
  | cons i m ih =>
    obtain ⟨z, hz, hy⟩ := Option.bind_eq_some_iff.1 hy
    obtain ⟨⟨lo, hi, hfolder⟩, -⟩ := of_below hz
    obtain ⟨z', hz', -, hfit⟩ := h.exists_below hd hext lo hi hfolder
    obtain rfl := Option.some.inj (hz.symm.trans hz')
    exact ih hfit hy

/-- Every directory below is searched. -/
theorem searched (hb : ReflTransGen d.Lists x.cluster q) : ∃ m y, node (below d) x m = some y ∧ y.cluster = q := by
  generalize hc : x.cluster = c at hb
  induction hb using ReflTransGen.head_induction_on generalizing x ns with
  | refl => exact ⟨[], x, rfl, hc⟩
  | head hl _ ih =>
    obtain ⟨i, lo, hi, -, hfolder, rfl⟩ := hl
    subst hc
    obtain ⟨y, hy, hcluster, hfit⟩ := h.exists_below hd hext lo hi hfolder
    obtain ⟨m, z, hz, hq⟩ := ih hfit hcluster
    exact ⟨i :: m, z, Option.bind_eq_some_iff.2 ⟨y, hy, hz⟩, hq⟩

end Fitting

/-- A name that is shown as it is. -/
structure Plain (name : List UInt8) : Prop where
  separator : splitter ∉ name
  spaces : trimEnd name = name

theorem trimmedName_of_ext (h : cell e.ext 0 = 0) : trimmedName e = trimEnd (nameText e.name) := by
  have hext : e.ext.toList.takeWhile (· ≠ 0) = [] := by
    refine List.takeWhile_eq_nil_iff.2 fun _ => ?_
    rw [List.get_eq_getElem, Vector.getElem_toList, ← cell_of_lt, h]
    decide
  unfold trimmedName nameText
  rw [List.takeWhile_append]
  split
  · next hall => rw [hext, List.append_nil, (List.takeWhile_prefix _).eq_of_length hall]
  · rfl

/-- On a path of plain names nothing is turned. -/
theorem PathTo.plain (hplain : ∀ p i, d.LiveEntry p i → Plain (nameText (d.slot p i).name)) (h : d.PathTo ns q) :
    ns.map (swapped splitter) = ns := by
  induction h with
  | root => rfl
  | folder h lo hi live _ ih =>
    rw [List.map_append, List.map_singleton, ih, swapped_of_notMem (hplain _ _ ⟨h.liveDir, lo, hi, live⟩).separator]

/-- In memory of zeros, where entries have plain names and no extensions, the search is right about every name that only
folders have. -/
theorem findsRight_of_plain {x : Call} (hd : Shown π d) (h : Fitting d ns x) (hne : name ≠ []) {here : Call → ℕ → Prop}
    {done : Prop} (hends : Ends (below d) (StopsAt d name) x 0 here done)
    (hext : ∀ p i, d.LiveEntry p i → cell (d.slot p i).ext 0 = 0)
    (hplain : ∀ p i, d.LiveEntry p i → Plain (nameText (d.slot p i).name))
    (hfolder : ∀ p i, d.LiveEntry p i → nameText (d.slot p i).name = name → (d.slot p i).IsFolder) :
    FindsRight d name x := by
  have htrim (p i : ℕ) (he : d.LiveEntry p i) : trimmedName (d.slot p i) = nameText (d.slot p i).name := by
    rw [trimmedName_of_ext (hext p i he), (hplain p i he).spaces]
  have hext' (p i : ℕ) (he : d.LiveEntry p i) (_ : (d.slot p i).IsFolder) := hext p i he
  rcases hends.cases with ⟨m, i, y, hleast, hy, ⟨lo, hi, hstop⟩, -⟩ | ⟨hempty, -⟩
  · obtain ⟨ms, hfit⟩ := h.node_fitting hd hext' hy
    have hname : trimmedName (d.slot y.cluster i) = name := by
      refine hstop.resolve_right fun ⟨hf, hlost⟩ => ?_
      obtain ⟨path, hpath, -⟩ := hfit.newPath_eq hd hext' lo hi hf
      rw [hpath] at hlost
      cases hlost
    have he : d.LiveEntry y.cluster i := by
      refine ⟨hfit.path.liveDir, lo, hi, hd.live_of_ne hfit.path.liveDir hi fun hunused => hne ?_⟩
      rw [← hname, hunused]
      decide
    have htext : nameText (d.slot y.cluster i).name = name := (htrim _ i he).symm.trans hname
    have hsame : swapped splitter name = name := by
      rw [← htext]
      exact swapped_of_notMem (hplain _ i he).separator
    refine .inl ⟨m, i, y, hleast, hy, hname, ?_⟩
    rw [RightSlot, if_pos (hfolder _ i he htext)]
    refine ⟨htext, hsame, ms, ms, y.cluster, i, hfit.path, ⟨he, lists_node hd h.path.liveDir hy, htext, hext _ i he⟩,
      hfit.path, ?_⟩
    rw [PathTo.plain hplain hfit.path]
  · refine .inr ⟨hempty, fun q j hj => ?_⟩
    obtain ⟨m, y, hy, rfl⟩ := h.searched hd hext' hj.below
    have hmem : m ++ [j] ∈ stops (below d) (StopsAt d name) x :=
      ⟨m, j, y, rfl, hy, hj.entry.lo, hj.entry.hi, .inl ((htrim _ j hj.entry).trans hj.name)⟩
    rw [hempty] at hmem
    exact hmem

/-! ## A folder in a folder -/

section

variable {j : ℕ} (h : HoldsPath s j c)
include h

theorem shown_of_path : Shown zeroPlatform s.disk where
  toTitled := h.titled
  wellFormed := h.wellFormed
  tree := h.tree
  kind p i hi := by
    rcases h.entries p i hi with ⟨rfl, rfl⟩ | ⟨rfl, rfl⟩
    · exact .inl h.outer_folder
    · exact .inl h.inner_folder
  fits ns p i hns hi := by
    have hlen := length_nameText (s.disk.slot p i).name
    rw [length_separated, List.map_append, List.sum_append, List.map_singleton, List.sum_singleton]
    rcases h.entries p i hi with ⟨rfl, rfl⟩ | ⟨rfl, rfl⟩
    · rw [hns.eq_nil h.titled.toNested, List.map_nil, List.sum_nil]
      omega
    · rw [hns.unique h.titled h.paths.1, List.map_singleton, List.sum_singleton, List.length_singleton]
      omega

/-- Both are folders with plain names and no extension. -/
theorem plain_of_path {p i : ℕ} (he : s.disk.LiveEntry p i) : (s.disk.slot p i).IsFolder ∧
    Plain (nameText (s.disk.slot p i).name) ∧ cell (s.disk.slot p i).ext 0 = 0 := by
  rcases h.entries p i he with ⟨rfl, rfl⟩ | ⟨rfl, rfl⟩
  · rw [h.outer, newEntry_name, newEntry_ext]
    exact ⟨(newEntry_isFolder _ _).2 rfl, ⟨by decide, by decide⟩, by decide⟩
  · rw [h.inner, newEntry_name, newEntry_ext]
    exact ⟨(newEntry_isFolder _ _).2 rfl, ⟨by decide, by decide⟩, by decide⟩

end

/-- In memory of zeros `find c` in the root gives the path of the folder `c` in the folder `b`. -/
theorem findInDirectory_finds_folderC : ∃ s j, Shown zeroPlatform s.disk ∧ EntryBelow s.disk 2 [99] 3 j ∧
    Finds s.disk 2 [99] (findInDirectory 128 s (fun _ => 0) (fun _ _ => 0) 2 [99]
      (Vector.replicate 256 0)) := by
  obtain ⟨s₀, s₁, s, j, c, -, -, -, h⟩ := exists_holdsPath
  have hshown := shown_of_path h
  have hc : s.disk.LiveDir (2 : UInt16).toNat := s.disk.liveDir_root
  have hempty : strlen (Vector.replicate 256 (0 : UInt8)) 0 = 0 := strlen_eq_zero.2 (cell_replicate _)
  have hfit : Fitting s.disk [] ⟨(2 : UInt16).toNat, Vector.replicate 256 0, fun _ _ => 0⟩ :=
    ⟨.root, fun _ => newPathBuffer_zeros, Nat.le_of_eq hempty⟩
  have hends : Ends (below s.disk) (StopsAt s.disk [99])
      ⟨(2 : UInt16).toNat, Vector.replicate 256 0, fun _ _ => 0⟩ 0 _ _ :=
    findInDirectory_ends (s := s) hshown (by decide) (by decide) (by decide) (fun _ => 0) 128 _ _ PathTo.root
      (Nat.le_refl 128) rfl
  have hright := findsRight_of_plain hshown hfit (by decide) hends (fun p i he => (plain_of_path h he).2.2)
    (fun p i he => (plain_of_path h he).2.1) fun p i he _ => (plain_of_path h he).1
  refine ⟨s, j, hshown, ⟨h.innerLive, ?_, ?_, ?_⟩,
    (findInDirectory_finds_iff hshown hc (by decide) (by decide) (by decide) (by decide) (Nat.le_refl 128)
      (fun _ => 0) fun _ _ => 0).2 hright⟩
  · exact .single ⟨2, Nat.le_refl 2, by decide, h.outerLive.live, h.outer_folder, h.outer_cluster⟩
  · rw [h.inner, newEntry_name]
    decide
  · rw [h.inner, newEntry_ext]
    decide

/-! ## A file -/

/-- The disk with one entry in the root. -/
theorem shown_of_stored {s' : Machine} {r : FAT32DriverRequest} (h : Stored s r 2 3 s') (hf : Formatted π d s)
    (hp : r.parent = 2) : Shown π s'.disk := by
  have hd := hf.wellFormed.toSound
  have hdir : s.disk.LiveDir r.parent := by
    rw [hp]
    exact s.disk.liveDir_root
  have hi := h.inserted hd.grounded hdir (by omega)
  have hentry {p i : ℕ} (he : s'.disk.LiveEntry p i) : p = 2 ∧ i = 2 := by
    rcases (hi.liveEntry_iff hd.grounded).1 he with he | ⟨rfl, rfl⟩
    · exact absurd he hf.not_liveEntry
    · exact ⟨hp, rfl⟩
  have htitled := hf.titled.inserted hi
  have hslot : s'.disk.slot 2 2 = newEntry r 3 := by
    rw [← hi.slot_new hd.grounded, hp]
  refine ⟨htitled, (h.sameBoot hd.grounded hdir).wellFormed hf.wellFormed (hi.sound hd), hf.tree.inserted hd hi,
    fun p i he => ?_, fun ns p i hns he => ?_⟩
  · obtain ⟨rfl, rfl⟩ := hentry he
    rw [hslot, newEntry_isFolder, newEntry_attribute]
    by_cases hb : r.bufferSize = 0
    · exact .inl hb
    · rw [if_neg hb]
      exact .inr (by decide)
  · obtain ⟨rfl, rfl⟩ := hentry he
    obtain rfl := hns.eq_nil htitled.toNested
    have hlen := length_nameText (s'.disk.slot 2 2).name
    rw [List.nil_append, length_separated, List.map_singleton, List.sum_singleton]
    omega

/-- A directory table for a file: `z` in slot 0, in cluster 3, and the root in slot 1. -/
def fileTable : FAT32DirectoryTable :=
  store (store zeroTable 0 { (default : FAT32DirectoryEntry) with name := nameOf [122], clusterLow := 3 }) 1
    { (default : FAT32DirectoryEntry) with clusterLow := 2 }

/-- The file `a` with that table for its data. -/
def tableFile : FAT32DriverRequest := { letterRequest 97 2048 with buf := cell (tablePacked fileTable) }

theorem chunk_tableFile : chunk tableFile 0 = tablePacked fileTable := by
  refine cell_ext fun i hi => ?_
  unfold chunk
  rw [cell_ofFn hi, Nat.zero_mul, Nat.zero_add]
  exact if_pos hi

theorem tableFile_table {s₀ : Machine} (h : Stored s₀ tableFile 2 3 s) (hf : Formatted π d s₀) :
    s.disk.table 3 = fileTable := by
  have hdata := clusters_request_file h.toAccepted hf.wellFormed.toSound.grounded s₀.disk.liveDir_root (by decide)
  have htaken : taken s₀.disk tableFile = [3] := by
    rw [taken, hf.freeClusters]
    rfl
  rw [← h.disk, htaken] at hdata
  have hcluster : s.disk.cluster 3 = chunk tableFile 0 := (List.cons.inj hdata).1
  unfold Disk.table
  rw [hcluster, chunk_tableFile, Equiv.symm_apply_apply]

/-- From the data of the file `z` is spelled. -/
theorem spelled_fileTable (h : d.table 3 = fileTable) : Spelled d 3 [122, splitter] := by
  have hzero : cell fileTable 0 = { (default : FAT32DirectoryEntry) with name := nameOf [122], clusterLow := 3 } := by
    unfold fileTable
    rw [cell_store_ne _ _ (by decide), cell_store_self _ _ (by decide)]
  have hone : cell fileTable 1 = { (default : FAT32DirectoryEntry) with clusterLow := 2 } := by
    unfold fileTable
    rw [cell_store_self _ _ (by decide)]
  have hself : (cell fileTable 0).cluster = 3 := by
    rw [hzero]
    decide
  have hparent : (cell fileTable 1).cluster = rootClusterNumber := by
    rw [hone]
    decide
  have hdot : dotTable d 3 = fileTable := by
    unfold dotTable Disk.slot
    rw [show place 3 = 3 from rfl, h, hself]
    exact h
  have hname : slotName (cell fileTable 0) = [122] := by
    rw [hzero]
    decide
  have hroot : ¬ isRoot fileTable := by
    rw [isRoot_iff, hself, hparent]
    decide
  have hrung : rung (dotTable d 3) = [122, splitter] := by
    unfold rung
    rw [hdot, hname, if_neg hroot]
    rfl
  rw [← hrung]
  refine .root ?_
  rw [hdot]
  exact hparent

/-- `find a` prints `\z`, and there is no such path to an entry `a`. -/
theorem find_of_tableFile : ∃ s, Shown zeroPlatform s.disk ∧ EntryBelow s.disk 2 [97] 2 2 ∧ ∀ fuel memory junk,
    (∃ r, findInDirectory (fuel + 1) s memory junk 2 [97] (Vector.replicate 256 0) = some r ∧ r.found = true ∧
      stringAt r.foundPath 0 = [splitter, 122]) ∧
    ¬ Finds s.disk 2 [97] (findInDirectory (fuel + 1) s memory junk 2 [97] (Vector.replicate 256 0)) := by
  obtain ⟨s₀, -, hf⟩ := createFat32_formatted zeroPlatform zeroDisk
  have ha : Accepted s₀ tableFile 2 3 := hf.accepted rfl (by decide) (name_ne_rootName (by decide))
    (by decide) (by decide)
  obtain ⟨s, -, hst⟩ := ha.write (π := zeroPlatform) hf.wellFormed.toSound.grounded s₀.disk.liveDir_root
  have hshown := shown_of_stored hst hf rfl
  have hslot : s.disk.slot 2 2 = newEntry tableFile 3 :=
    (hst.inserted hf.wellFormed.toSound.grounded s₀.disk.liveDir_root (by omega)).slot_new
      hf.wellFormed.toSound.grounded
  have hlive : s.disk.LiveEntry 2 2 := by
    refine ⟨s.disk.liveDir_root, Nat.le_refl 2, by decide, ?_⟩
    rw [hslot]
    exact newEntry_live _ _
  have hentry : EntryBelow s.disk 2 [97] 2 2 := ⟨hlive, .refl, by rw [hslot, newEntry_name]; decide, by
    rw [hslot, newEntry_ext]
    decide⟩
  have hcluster : (s.disk.slot 2 2).cluster = 3 := by
    rw [hslot]
    exact UInt32.toNat_inj.1 (newEntry_cluster _ (by decide))
  have hc : s.disk.LiveDir (2 : UInt16).toNat := s.disk.liveDir_root
  have hmatch : strcmp (trimmedName (s.disk.slot (2 : UInt16).toNat 2)) [97] = 0 := by
    rw [show (2 : UInt16).toNat = 2 from rfl, hslot, trimmedName, newEntry_name, newEntry_ext]
    decide
  refine ⟨s, hshown, hentry, fun fuel memory junk => ?_⟩
  have h0 : (0 : UInt8) ∉ [97] := by decide
  obtain ⟨s', hs', hfind⟩ := findInDirectory_eq hshown.toNested rfl hc h0 (by decide) (by decide) fuel memory junk
    (Vector.replicate 256 0)
  obtain ⟨r, hprint, htext⟩ := printed_of_spelled memory (Vector.replicate 256 0)
    (spelled_fileTable (tableFile_table hst hf)) hs' (by decide)
  -- the first slot that is looked at has the name
  rw [loopOf_match (x := ⟨(2 : UInt16).toNat, Vector.replicate 256 0, junk⟩) hmatch,
    show (2 : UInt16).toNat = 2 from rfl,
    hcluster, hprint] at hfind
  have htext : stringAt r.text 0 = [splitter, 122] := htext.trans (by decide)
  rw [hfind]
  refine ⟨⟨_, rfl, rfl, htext⟩, ?_⟩
  rintro ⟨r', hr', -, hpath⟩
  obtain rfl := Option.some.inj hr'
  obtain ⟨ns, q, j, -, -, hpath⟩ := hpath rfl
  rw [htext, separated_concat] at hpath
  have hlast := congrArg List.getLast? hpath
  simp at hlast

end BebasOs.Shell
