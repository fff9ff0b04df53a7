/-
The path in the shell's prompt, all of `print_dir_tree`. The names are collected on the way up, each followed by a
separator, the whole is reversed in place, and then each name again. Where the path fits into the buffers, what is
printed is the path from the root down.
-/
import BebasOs.Fat32.Paths
import BebasOs.Lib.Loop
import BebasOs.Lib.Text
import BebasOs.Shell.ChangeDirectory

namespace BebasOs.Shell

open Bytes Search Fat32 Disk Relation

/-! ## Collecting the names -/

/-- `temp` and `prog`. -/
structure Collected where
  temp : Vector UInt8 128
  prog : ℕ

/-- Bytes stored at `temp + prog`; behind the end of `temp` the code has no result. -/
def Collected.append (a : Collected) (bytes : List UInt8) : Option Collected :=
  if a.prog + bytes.length ≤ 128 then some ⟨writeAt a.temp a.prog bytes, a.prog + bytes.length⟩ else none

/-- The string in `name`, once the name of slot 0 is copied there. -/
def slotName (entry : FAT32DirectoryEntry) : List UInt8 := (strncpy entry.name.toList 8).takeWhile (· ≠ 0)

/-- The test for the root: both special slots name one cluster. -/
def isRoot (table : FAT32DirectoryTable) : Prop :=
  (cell table 0).clusterLow = (cell table 1).clusterLow ∧ (cell table 0).clusterHigh = (cell table 1).clusterHigh

instance (table : FAT32DirectoryTable) : Decidable (isRoot table) := inferInstanceAs (Decidable (_ ∧ _))

/-- The separator behind the name, which the root does not get. -/
def Collected.separate (a : Collected) (table : FAT32DirectoryTable) : Option Collected :=
  if isRoot table then some a else a.append [splitter]

/-- The loop up to the root. It goes on by the cluster alone, so a loop that has not ended after 2^32 rounds never
does; a read that fails ends it without a path. -/
def collectLoop : (fuel : ℕ) → Machine → (buff : ℕ → UInt8) → (currentCluster : UInt32) → Collected →
    Option (Machine × Option Collected)
  | 0, _, _, _, _ => none
  | fuel + 1, s, buff, currentCluster, a => do
    let result := readDirectory s (directoryRequest buff currentCluster)
    if result.code ≠ 0 then some (result.machine, none)
    else
      let table := tableOf result.buf
      let a ← a.append (slotName (cell table 0))
      let a ← a.separate table
      let parent := (cell table 1).cluster
      if parent = rootClusterNumber then some (result.machine, some a)
      else collectLoop fuel result.machine result.buf parent a

/-! ## Turning them round -/

/-- The loop that reverses the names, one after the other. -/
def namesLoop (temp : Vector UInt8 128) (prog start : ℕ) : Vector UInt8 128 :=
  if start < prog then
    let stop := (strchr temp start splitter).getD prog
    namesLoop (reverse temp start stop) prog (stop + 1)
  else temp
termination_by prog - start
decreasing_by
  rcases h : strchr temp start splitter with _ | i
  · simp only [Option.getD_none]
    omega
  · have := le_of_strchr h
    simp only [Option.getD_some]
    omega

/-- What `print_dir_tree` leaves: the machine, the caller's buffer, and what is printed on the way. -/
structure PathResult (n : ℕ) where
  machine : Machine
  text : Vector UInt8 n
  printed : List (String × UInt32)

/-- `print_dir_tree`, which writes into the caller's buffer of `n` bytes. The search for separators needs a null byte
behind the path in `temp`, and so does the caller. -/
def printDirTree {n : ℕ} (s : Machine) (buff : ℕ → UInt8) (clusterNumber : UInt32) (text : Vector UInt8 n) :
    Option (PathResult n) := do
  match ← collectLoop (2 ^ 32) s buff clusterNumber ⟨Vector.replicate 128 0, 0⟩ with
  | (machine, none) => return ⟨machine, text, [("Error: Unable to read directory.", 0xE)]⟩
  | (machine, some a) =>
    if a.prog < 128 ∧ a.prog < n then
      let temp := namesLoop (reverse a.temp 0 a.prog) a.prog 0
      return ⟨machine, store (writeAt text 0 (temp.toList.take a.prog)) a.prog 0, []⟩
    else none

/-! ## The two reversals -/

variable {b : Vector UInt8 128} {p prog start : ℕ} {m text : List UInt8} {ms : List (List UInt8)}

theorem strlen_held (h : HoldsAt b p text) (h0 : 0 ∉ text) (hend : cell b (p + text.length) = 0) :
    strlen b p = text.length := by
  refine strlen_eq_iff.2 ⟨hend, fun i hi => ?_⟩
  rw [h i hi]
  exact fun he => h0 (he ▸ List.getElem_mem hi)

/-- Without a separator up to its end, the text is the last name. -/
theorem strchr_last (h : HoldsAt b p m) (h0 : 0 ∉ m) (hm : splitter ∉ m) (hend : cell b (p + m.length) = 0) :
    strchr b p splitter = none := by
  unfold strchr
  rw [if_neg (by decide), strlen_held h h0 hend]
  refine first_eq_none.2 fun i h1 h2 => ?_
  obtain ⟨j, rfl⟩ := Nat.exists_eq_add_of_le h1
  rw [h j (by omega), beq_eq_false_iff_ne]
  exact fun he => hm (he ▸ List.getElem_mem _)

/-- The first separator is behind the first name. -/
theorem strchr_next (h : HoldsAt b p (m ++ splitter :: text)) (h0 : 0 ∉ m ++ splitter :: text) (hm : splitter ∉ m)
    (hend : cell b (p + (m ++ splitter :: text).length) = 0) : strchr b p splitter = some (p + m.length) := by
  have hlen : (m ++ splitter :: text).length = m.length + 1 + text.length := by
    rw [List.length_append, List.length_cons]
    omega
  unfold strchr
  rw [if_neg (by decide), strlen_held h h0 hend]
  refine first_eq_some.2 ⟨Nat.le_add_right _ _, by omega, ?_, fun i h1 h2 => ?_⟩
  · rw [h m.length (by omega), List.getElem_append_right (Nat.le_refl _), beq_iff_eq]
    simp
  · obtain ⟨j, rfl⟩ := Nat.exists_eq_add_of_le h1
    rw [h j (by omega), List.getElem_append_left (by omega), beq_eq_false_iff_ne]
    exact fun he => hm (he ▸ List.getElem_mem _)

/-- Names, with a separator before each. -/
def separated (ns : List (List UInt8)) : List UInt8 := ns.flatMap fun name => splitter :: name

theorem separated_cons (name : List UInt8) (ns : List (List UInt8)) :
    separated (name :: ns) = splitter :: (name ++ separated ns) := List.flatMap_cons

/-- From the start of a name on, the loop turns each name round, and leaves everything else as it is. -/
theorem namesLoop_spec (h : HoldsAt b start (m ++ separated ms)) (h0 : 0 ∉ m ++ separated ms)
    (hm : splitter ∉ m) (hms : ∀ x ∈ ms, splitter ∉ x) (hprog : start + (m ++ separated ms).length = prog)
    (hlt : prog < 128) (hend : cell b prog = 0) :
    HoldsAt (namesLoop b prog start) start (m.reverse ++ separated (ms.map List.reverse)) ∧
      ∀ i, i < start ∨ prog ≤ i → cell (namesLoop b prog start) i = cell b i := by
  induction ms generalizing m b start with
  | nil =>
    simp only [separated, List.flatMap_nil, List.append_nil, List.map_nil] at h h0 hprog ⊢
    by_cases hstart : start < prog
    · have hnone := strchr_last h h0 hm (by rw [hprog]; exact hend)
      have hloop : namesLoop b prog start = reverse b start prog := by
        rw [namesLoop, if_pos hstart]
        simp only [hnone, Option.getD_none]
        rw [namesLoop, if_neg (by omega)]
      rw [hloop, ← hprog]
      exact ⟨h.reverse (by omega), fun i hi => cell_reverse_other (by omega) hi⟩
    · obtain rfl : m = [] := List.length_eq_zero_iff.1 (by omega)
      rw [namesLoop, if_neg hstart]
      exact ⟨holdsAt_nil, fun i _ => rfl⟩
  | cons k ms ih =>
    rw [separated_cons] at h h0 hprog
    have hlen : (m ++ splitter :: (k ++ separated ms)).length = m.length + 1 + (k ++ separated ms).length := by
      rw [List.length_append, List.length_cons]
      omega
    have hnext := strchr_next h h0 hm (by rw [hprog]; exact hend)
    obtain ⟨hname, hrest⟩ := holdsAt_append.1 h
    obtain ⟨hsplitter, hafter⟩ := holdsAt_cons.1 hrest
    -- the first name is turned round in place, and the others are behind it
    have hother (i : ℕ) (hi : i < start ∨ start + m.length ≤ i) :
        cell (reverse b start (start + m.length)) i = cell b i := cell_reverse_other (by omega) hi
    have hbehind : HoldsAt (reverse b start (start + m.length)) (start + m.length + 1) (k ++ separated ms) :=
      hafter.congr fun i h1 _ => hother i (by omega)
    obtain ⟨hih, hkeep⟩ := ih hbehind (fun hin => h0 (by simp [hin]))
      (hms k List.mem_cons_self) (fun x hx => hms x (List.mem_cons_of_mem k hx)) (by omega) (by
        rw [hother _ (by omega)]
        exact hend)
    have hloop : namesLoop b prog start =
        namesLoop (reverse b start (start + m.length)) prog (start + m.length + 1) := by
      conv_lhs => rw [namesLoop, if_pos (by omega)]
      simp only [hnext, Option.getD_some]
    rw [hloop, List.map_cons, separated_cons]
    refine ⟨holdsAt_append.2 ⟨?_, holdsAt_cons.2 ?_⟩, fun i hi => ?_⟩
    · refine (hname.reverse (by omega)).congr fun i _ h2 => ?_
      rw [List.length_reverse] at h2
      exact hkeep i (by omega)
    · rw [List.length_reverse, hkeep _ (by omega), hother _ (by omega)]
      exact ⟨hsplitter, hih⟩
    · rw [hkeep i (by omega), hother i (by omega)]

theorem separated_concat (ns : List (List UInt8)) (name : List UInt8) :
    separated (ns ++ [name]) = separated ns ++ splitter :: name := by
  unfold separated
  rw [List.flatMap_append, List.flatMap_singleton]

theorem length_separated (ns : List (List UInt8)) :
    (separated ns).length = (ns.map fun name => name.length + 1).sum := by
  unfold separated
  rw [List.length_flatMap]
  rfl

/-- The pieces of a text turned round are its own from the last one on, each turned round. -/
theorem exists_pieces (text : List UInt8) : ∃ m ms, text.reverse = m ++ separated ms ∧ splitter ∉ m ∧
    (∀ x ∈ ms, splitter ∉ x) ∧ m.reverse ++ separated (ms.map List.reverse) = swapped splitter text := by
  induction text using pieces_induction (a := splitter) with
  | whole l h =>
    refine ⟨l.reverse, [], (List.append_nil _).symm, mt List.mem_reverse.1 h,
      fun x hx => absurd hx List.not_mem_nil, ?_⟩
    rw [swapped_of_notMem h, List.reverse_reverse]
    exact List.append_nil l
  | cut l text h ih =>
    obtain ⟨m, ms, hrev, hm, hms, hswap⟩ := ih
    refine ⟨m, ms ++ [l.reverse], ?_, hm, fun x hx => ?_, ?_⟩
    · rw [List.reverse_append, List.reverse_cons, hrev, separated_concat, List.append_assoc, List.append_assoc,
        List.singleton_append]
    · rw [List.mem_append, List.mem_singleton] at hx
      rcases hx with hx | rfl
      · exact hms x hx
      · exact mt List.mem_reverse.1 h
    · rw [swapped_append_cons, swapped_of_notMem h, ← hswap, List.map_append, List.map_singleton, separated_concat,
        List.reverse_reverse, List.append_assoc]

/-- A text turned round whole and name by name has its pieces in the opposite order. -/
theorem turned (h : HoldsAt b 0 text) (h0 : 0 ∉ text) (hlt : text.length < 128) (hend : cell b text.length = 0) :
    HoldsAt (namesLoop (reverse b 0 text.length) text.length 0) 0 (swapped splitter text) := by
  obtain ⟨m, ms, htext, hm, hms, hswap⟩ := exists_pieces text
  have hrev := h.reverse (by omega)
  rw [htext, Nat.zero_add] at hrev
  have h0' : 0 ∉ m ++ separated ms := by
    rw [← htext, List.mem_reverse]
    exact h0
  have hlen : 0 + (m ++ separated ms).length = text.length := by
    rw [← htext, List.length_reverse, Nat.zero_add]
  rw [← hswap]
  refine (namesLoop_spec hrev h0' hm hms hlen hlt ?_).1
  rw [cell_reverse_other (by omega) (.inr (Nat.le_refl _))]
  exact hend

/-- What the loop collects on the way up: the names from the last one on, with a separator behind each. -/
def backwards (ns : List (List UInt8)) : List UInt8 := ns.reverse.flatMap fun name => name ++ [splitter]

theorem backwards_concat (ns : List (List UInt8)) (name : List UInt8) :
    backwards (ns ++ [name]) = name ++ [splitter] ++ backwards ns := by
  unfold backwards
  rw [List.reverse_append, List.reverse_singleton, List.singleton_append, List.flatMap_cons]

theorem length_backwards (ns : List (List UInt8)) : (backwards ns).length = (separated ns).length := by
  unfold backwards
  rw [length_separated, List.length_flatMap, List.map_reverse, List.sum_reverse]
  simp

/-- The names come out from the first one on, but a name with separators in it has its own pieces turned round. -/
theorem swapped_backwards (ns : List (List UInt8)) :
    swapped splitter (backwards ns) = separated (ns.map (swapped splitter)) := by
  induction ns using List.reverseRecOn with
  | nil => exact swapped_of_notMem List.not_mem_nil
  | append_singleton ns name ih =>
    rw [backwards_concat, List.append_assoc, List.singleton_append, swapped_append_cons, ih, List.map_append,
      List.map_singleton, separated_concat]

/-! ## The way up -/

theorem Collected.append_append (a : Collected) (l m : List UInt8) :
    (a.append l).bind (·.append m) = a.append (l ++ m) := by
  unfold append
  rw [List.length_append]
  split
  · rw [Option.bind_some]
    simp only
    by_cases h : a.prog + (l.length + m.length) ≤ 128
    · rw [if_pos (by omega), if_pos h, writeAt_writeAt _ (by rw [List.length_append]; exact h), Nat.add_assoc]
    · rw [if_neg (by omega), if_neg h]
  · rw [if_neg (by omega)]
    rfl

theorem Collected.append_bind {β : Type} (a : Collected) (l m : List UInt8) (f : Collected → Option β) :
    ((a.append l).bind fun a => (a.append m).bind f) = (a.append (l ++ m)).bind f := by
  rw [← append_append, Option.bind_assoc]

theorem writeAt_nil (b : Vector UInt8 128) (h : p ≤ 128) : writeAt b p [] = b := by
  refine cell_ext fun i _ => cell_writeAt_other ?_ ?_
  · simpa using h
  · rw [List.length_nil]
    omega

theorem Collected.append_nil (a : Collected) (h : a.prog ≤ 128) : a.append [] = some a := by
  unfold append
  rw [List.length_nil, Nat.add_zero, if_pos h, writeAt_nil _ h]

theorem slotName_eq (e : FAT32DirectoryEntry) : slotName e = nameText e.name := by
  have htake : e.name.toList.take 8 = e.name.toList := List.take_of_length_le (by rw [Vector.length_toList])
  have hcopied (l : List UInt8) (k : ℕ) : (l.takeWhile (· ≠ 0) ++ List.replicate k 0).takeWhile (· ≠ 0) =
      l.takeWhile (· ≠ 0) := by
    have hpos (x : UInt8) (hx : x ∈ l.takeWhile (· ≠ 0)) : decide (x ≠ 0) = true := by
      simpa using List.mem_takeWhile_imp hx
    rw [List.takeWhile_append_of_pos hpos]
    cases k with
    | zero => simp
    | succ k => simp [List.replicate_succ]
  unfold slotName strncpy nameText
  rw [htake]
  exact hcopied _ _

theorem cluster_toNat (e : FAT32DirectoryEntry) :
    e.cluster.toNat = 2 ^ 16 * e.clusterHigh.toNat + e.clusterLow.toNat := by
  have hl := e.clusterLow.toNat_lt
  have hh := e.clusterHigh.toNat_lt
  have join := Nat.two_pow_add_eq_or_of_lt (i := 16) hl e.clusterHigh.toNat
  unfold FAT32DirectoryEntry.cluster
  simp only [UInt32.toNat_or, UInt32.toNat_shiftLeft, UInt16.toNat_toUInt32, UInt32.reduceToNat, Nat.reduceMod,
    Nat.shiftLeft_eq]
  rw [show e.clusterHigh.toNat * 2 ^ 16 % 2 ^ 32 = 2 ^ 16 * e.clusterHigh.toNat by omega, ← join]

theorem isRoot_iff (table : FAT32DirectoryTable) : isRoot table ↔ (cell table 0).cluster = (cell table 1).cluster := by
  unfold isRoot
  rw [← UInt32.toNat_inj, cluster_toNat, cluster_toNat, ← UInt16.toNat_inj, ← UInt16.toNat_inj]
  have h0 := (cell table 0).clusterLow.toNat_lt
  have h1 := (cell table 1).clusterLow.toNat_lt
  omega

/-- The table that a cluster gives under `.`: that of the cluster in its slot 0. -/
def dotTable (d : Disk) (c : UInt32) : FAT32DirectoryTable := d.table (place (d.slot (place c) 0).cluster)

/-- The bytes of one round. -/
def rung (table : FAT32DirectoryTable) : List UInt8 :=
  slotName (cell table 0) ++ if isRoot table then [] else [splitter]

/-- The bytes on the way from a cluster up to the root, whatever the clusters on it hold. -/
inductive Spelled (d : Disk) : UInt32 → List UInt8 → Prop
  | root {c : UInt32} (h : (cell (dotTable d c) 1).cluster = rootClusterNumber) : Spelled d c (rung (dotTable d c))
  | up {c : UInt32} {text : List UInt8} (h : (cell (dotTable d c) 1).cluster ≠ rootClusterNumber)
      (hup : Spelled d (cell (dotTable d c) 1).cluster text) : Spelled d c (rung (dotTable d c) ++ text)

variable {π : Platform} {d : Disk} {s : Machine} {c : UInt32} {ns : List (List UInt8)} {q : ℕ}

theorem zero_notMem_rung (table : FAT32DirectoryTable) : 0 ∉ rung table := by
  unfold rung
  rw [slotName_eq, List.mem_append]
  rintro (h | h)
  · exact zero_notMem_nameText _ h
  · split at h
    · exact absurd h List.not_mem_nil
    · exact absurd h (by decide)

theorem Spelled.zero_notMem (h : Spelled d c text) : 0 ∉ text := by
  induction h with
  | root => exact zero_notMem_rung _
  | up _ _ ih =>
    rw [List.mem_append]
    rintro (h | h)
    · exact zero_notMem_rung _ h
    · exact ih h

theorem Collected.separate_eq (a : Collected) (h : a.prog ≤ 128) (table : FAT32DirectoryTable) :
    a.separate table = a.append (if isRoot table then [] else [splitter]) := by
  unfold separate
  split
  · rw [append_nil a h]
  · rfl

theorem Collected.append_rung {β : Type} (a : Collected) (table : FAT32DirectoryTable) (f : Collected → Option β) :
    ((a.append (slotName (cell table 0))).bind fun a => (a.separate table).bind f) =
      (a.append (rung table)).bind f := by
  unfold rung
  rw [← append_bind]
  refine Option.bind_congr fun a' ha => ?_
  have hprog : a'.prog ≤ 128 := by
    unfold append at ha
    split at ha
    · next h =>
      obtain rfl := Option.some.inj ha
      exact h
    · cases ha
  rw [separate_eq _ hprog]

/-- One round reads the table of the cluster that the loop has come to, under `.`. -/
theorem collectLoop_round (hs : s.disk = d) (fuel : ℕ) (buff : ℕ → UInt8) (c : UInt32) :
    ∃ s' buff', s'.disk = d ∧ ∀ a, collectLoop (fuel + 1) s buff c a =
      (a.append (rung (dotTable d c))).bind fun a =>
        if (cell (dotTable d c) 1).cluster = rootClusterNumber then some (s', some a)
        else collectLoop fuel s' buff' (cell (dotTable d c) 1).cluster a := by
  obtain ⟨s', loads, hs', hread⟩ := readDirectory_dot s buff c
  rw [hs] at hread
  refine ⟨s', blit buff 0 (d.cluster (place (d.slot (place c) 0).cluster)), hs'.trans hs, fun a => ?_⟩
  rw [← Collected.append_rung, collectLoop]
  simp only [hread, tableOf_blit, ne_eq, not_true_eq_false, if_false]
  rfl

/-- The loop goes on by the cluster alone. -/
def above (d : Disk) (c : UInt32) : Option UInt32 :=
  if (cell (dotTable d c) 1).cluster = rootClusterNumber then none else some (cell (dotTable d c) 1).cluster

theorem Spelled.reaches (h : Spelled d c text) : ∃ y, StateTransition.Reaches (above d) c y ∧ above d y = none := by
  induction h with
  | root h => exact ⟨_, .refl, if_pos h⟩
  | up h _ ih =>
    obtain ⟨y, hy, hend⟩ := ih
    exact ⟨y, hy.head (if_neg h), hend⟩

/-- In enough rounds the loop collects what is spelled. -/
theorem collectLoop_of_rounds {n : ℕ} {y : UInt32} (h : Spelled d c text) (hn : Loop.rounds (above d) n c = some y)
    (hy : above d y = none) (hs : s.disk = d) (fuel : ℕ) (hfuel : n < fuel) (buff : ℕ → UInt8) : ∃ s', s'.disk = d ∧
      ∀ a, collectLoop fuel s buff c a = (a.append text).map fun a => (s', some a) := by
  induction h generalizing n fuel s buff with
  | @root c h =>
    obtain ⟨fuel, rfl⟩ := Nat.exists_eq_succ_of_ne_zero (Nat.ne_of_gt (Nat.zero_lt_of_lt hfuel))
    obtain ⟨s', buff', hs', hround⟩ := collectLoop_round hs fuel buff c
    refine ⟨s', hs', fun a => ?_⟩
    rw [hround, Option.map_eq_bind]
    simp only [if_pos h]
    rfl
  | @up c text h hup ih =>
    obtain ⟨fuel, rfl⟩ := Nat.exists_eq_succ_of_ne_zero (Nat.ne_of_gt (Nat.zero_lt_of_lt hfuel))
    obtain ⟨s', buff', hs', hround⟩ := collectLoop_round hs fuel buff c
    rcases n with _ | n
    · -- the loop cannot have ended here
      obtain rfl := Option.some.inj hn
      rw [above, if_neg h] at hy
      cases hy
    · rw [Loop.rounds, above, if_neg h, Option.bind_some] at hn
      obtain ⟨s'', hs'', hrest⟩ := ih hn hs' fuel (by omega) buff'
      refine ⟨s'', hs'', fun a => ?_⟩
      simp only [hround, if_neg h, hrest]
      rw [← Collected.append_append, Option.map_bind]
      rfl

/-- The loop ends where something is spelled, and nowhere else. -/
theorem spelled_of_collectLoop (fuel : ℕ) {buff : ℕ → UInt8} {a : Collected} {r : Machine × Option Collected}
    (hs : s.disk = d) (h : collectLoop fuel s buff c a = some r) : ∃ text, Spelled d c text := by
  induction fuel generalizing s buff c a with
  | zero => cases h
  | succ fuel ih =>
    obtain ⟨s', buff', hs', hround⟩ := collectLoop_round hs fuel buff c
    rw [hround] at h
    obtain ⟨a', -, h⟩ := Option.bind_eq_some_iff.1 h
    split at h
    · next hroot => exact ⟨_, .root hroot⟩
    · next hroot =>
      obtain ⟨text, hup⟩ := ih hs' h
      exact ⟨_, .up hroot hup⟩

theorem collectLoop_spelled (h : Spelled d c text) (hs : s.disk = d) (buff : ℕ → UInt8) : ∃ s', s'.disk = d ∧
    ∀ a, collectLoop (2 ^ 32) s buff c a = (a.append text).map fun a => (s', some a) := by
  obtain ⟨y, hreach, hend⟩ := h.reaches
  obtain ⟨n, hn⟩ := Loop.exists_rounds hreach
  have hinj : Function.Injective UInt32.toNat := fun _ _ => UInt32.toNat_inj.1
  have hlt : n < 2 ^ 32 := Loop.rounds_lt hinj UInt32.toNat_lt hn hend
  exact collectLoop_of_rounds h hn hend hs (2 ^ 32) hlt buff

/-- In a live directory of a tree the table is its own. -/
theorem dotTable_eq (hd : Nested d) (hc : d.LiveDir c.toNat) : dotTable d c = d.table c.toNat := by
  have hlt := (hd.range _ hc).2
  unfold dotTable
  rw [place_of_lt (c := c) (by omega), place_of_lt (by rw [hd.self _ hc]; omega), hd.self _ hc]

/-- The path of a directory is spelled from it up. -/
theorem spelled_path (hd : Titled π d) (h : d.PathTo ns p) (hne : ns ≠ []) :
    ∀ {c : UInt32}, c.toNat = p → Spelled d c (backwards ns) := by
  induction h with
  | root => exact absurd rfl hne
  | @folder ns q i h lo hi live isFolder ih =>
    intro c hc
    have hlists : d.Lists q c.toNat := ⟨i, lo, hi, live, isFolder, hc.symm⟩
    have hlive := h.liveDir.tail hlists
    have htable := dotTable_eq hd.toNested hlive
    have hup : (cell (d.table c.toNat) 1).cluster.toNat = q := hd.lister q _ h.liveDir hlists
    have hname : slotName (cell (d.table c.toNat) 0) = nameText (d.slot q i).name := by
      rw [slotName_eq, hc]
      exact congrArg nameText (hd.title q i ⟨h.liveDir, lo, hi, live⟩ isFolder)
    have hnotRoot : ¬ isRoot (d.table c.toNat) := by
      rw [isRoot_iff, ← UInt32.toNat_inj]
      intro he
      have hcq : c.toNat = q := (hd.self _ hlive).symm.trans (he.trans hup)
      rw [hcq] at hlists
      exact hd.acyclic h.liveDir (.single hlists)
    have hrung : rung (dotTable d c) = nameText (d.slot q i).name ++ [splitter] := by
      unfold rung
      rw [htable, hname, if_neg hnotRoot]
    rw [backwards_concat, ← hrung]
    by_cases hq : q = 2
    · subst hq
      obtain rfl := h.eq_nil hd.toNested
      rw [show backwards [] = [] from rfl, List.append_nil]
      refine .root (UInt32.toNat_inj.1 ?_)
      rw [htable]
      exact hup
    · refine .up (fun he => hq ?_) (ih (fun hnil => hq ?_) ?_)
      · rw [htable] at he
        exact hup.symm.trans (congrArg UInt32.toNat he)
      · subst hnil
        exact h.eq_root
      · rw [htable]
        exact hup

theorem nameText_root (π : Platform) : nameText (rootName π) = [114, 111, 111, 116] := by
  have happ : rootName π = (#v[114, 111, 111, 116, 0] : Vector UInt8 5) ++ π.rootTail := rfl
  unfold nameText
  rw [happ, Vector.toList_append]
  rfl

/-- From the root its own name is spelled. -/
theorem spelled_root (hd : Titled π d) (hc : c.toNat = 2) : Spelled d c [114, 111, 111, 116] := by
  have hlive : d.LiveDir c.toNat := by
    rw [hc]
    exact d.liveDir_root
  have htable : dotTable d c = d.table 2 := by
    rw [dotTable_eq hd.toNested hlive, hc]
  have hself : (cell (d.table 2) 0).cluster = rootClusterNumber := UInt32.toNat_inj.1 (hd.self 2 d.liveDir_root)
  have hparent : (cell (d.table 2) 1).cluster = rootClusterNumber := UInt32.toNat_inj.1 hd.root
  have hname : slotName (cell (d.table 2) 0) = [114, 111, 111, 116] := by
    rw [slotName_eq, ← nameText_root π]
    exact congrArg nameText hd.rootTitle
  have hrung : rung (dotTable d c) = [114, 111, 111, 116] := by
    unfold rung
    rw [htable, hname, if_pos ((isRoot_iff _).2 (hself.trans hparent.symm)), List.append_nil]
  rw [← hrung]
  exact .root (by rw [htable]; exact hparent)

/-! ## What is printed -/

/-- What is left in the caller's buffer, once the names are collected. -/
def finish {n : ℕ} (s : Machine) (a : Collected) (text : Vector UInt8 n) : PathResult n :=
  ⟨s, store (writeAt text 0 ((namesLoop (reverse a.temp 0 a.prog) a.prog 0).toList.take a.prog)) a.prog 0, []⟩

theorem printDirTree_eq {n : ℕ} {buff : ℕ → UInt8} {text : Vector UInt8 n} {s' : Machine} {o : Option Collected}
    (h : collectLoop (2 ^ 32) s buff c ⟨Vector.replicate 128 0, 0⟩ = o.map fun a => (s', some a)) :
    printDirTree s buff c text =
      o.bind fun a => if a.prog < 128 ∧ a.prog < n then some (finish s' a text) else none := by
  unfold printDirTree
  rw [h]
  cases o <;> rfl

/-- The buffer gets the text with its pieces in the opposite order, and a null byte behind it. -/
theorem finish_text {n : ℕ} (buffer : Vector UInt8 n) (hn : 128 ≤ n) (h0 : 0 ∉ text) (hlt : text.length < 128) (i : ℕ) :
    cell (finish s ⟨writeAt (Vector.replicate 128 0) 0 text, text.length⟩ buffer).text i =
      (swapped splitter text ++ [0]).getD i (cell buffer i) := by
  have hheld : HoldsAt (writeAt (Vector.replicate 128 0) 0 text) 0 text := holdsAt_writeAt _ (by omega)
  have hnull : cell (writeAt (Vector.replicate 128 0) 0 text) text.length = 0 := by
    rw [cell_writeAt_other (by omega) (.inr (by omega)), cell_replicate]
  have hlen : (swapped splitter text).length = text.length := (swapped_perm text).length_eq
  have htake := (turned hheld h0 hlt hnull).take (by omega)
  rw [hlen] at htake
  unfold finish
  simp only [htake]
  rw [← hlen]
  exact cell_store_writeAt _ (by omega) _ _

/-- What is spelled is printed exactly if it fits. -/
theorem printDirTree_spelled {n : ℕ} (h : Spelled d c text) (hs : s.disk = d) (buff : ℕ → UInt8)
    (buffer : Vector UInt8 n) (hn : 128 ≤ n) : ∃ s', s'.disk = d ∧ printDirTree s buff c buffer =
      if text.length < 128 then some (finish s' ⟨writeAt (Vector.replicate 128 0) 0 text, text.length⟩ buffer)
      else none := by
  obtain ⟨s', hs', hloop⟩ := collectLoop_spelled h hs buff
  refine ⟨s', hs', ?_⟩
  rw [printDirTree_eq (hloop _)]
  unfold Collected.append
  simp only [Nat.zero_add]
  by_cases hfit : text.length < 128
  · rw [if_pos (by omega), if_pos hfit, Option.bind_some, if_pos (by simp only; omega)]
  · rw [if_neg hfit]
    split
    · rw [Option.bind_some, if_neg (by simp only; omega)]
    · rfl

/-- Nothing is printed but what is spelled. -/
theorem spelled_of_print {n : ℕ} {buff : ℕ → UInt8} {buffer : Vector UInt8 n} {r : PathResult n} (hs : s.disk = d)
    (h : printDirTree s buff c buffer = some r) : ∃ text, Spelled d c text := by
  obtain ⟨result, hloop, -⟩ := Option.bind_eq_some_iff.1 h
  exact spelled_of_collectLoop _ hs hloop

/-- The path of a directory below the root is printed exactly if it fits. -/
theorem printDirTree_path {n : ℕ} (hd : Titled π d) (hs : s.disk = d) (h : d.PathTo ns c.toNat) (hne : ns ≠ [])
    (buff : ℕ → UInt8) (buffer : Vector UInt8 n) (hn : 128 ≤ n) : ∃ s', s'.disk = d ∧ printDirTree s buff c buffer =
      if (separated ns).length < 128 then
        some (finish s' ⟨writeAt (Vector.replicate 128 0) 0 (backwards ns), (backwards ns).length⟩ buffer)
      else none := by
  rw [← length_backwards]
  exact printDirTree_spelled (spelled_path hd h hne rfl) hs buff buffer hn

/-- In the root its own name is printed. -/
theorem printDirTree_root {n : ℕ} (hd : Titled π d) (hs : s.disk = d) (hc : c.toNat = 2) (buff : ℕ → UInt8)
    (buffer : Vector UInt8 n) (hn : 128 ≤ n) : ∃ s', s'.disk = d ∧ printDirTree s buff c buffer =
      some (finish s' ⟨writeAt (Vector.replicate 128 0) 0 [114, 111, 111, 116], 4⟩ buffer) :=
  printDirTree_spelled (spelled_root hd hc) hs buff buffer hn

/-- After any writes on a new disk the prompt shows the path of the directory, if it fits, and `root` in the root. -/
theorem run_prints_path {s₀ : Machine} (h₀ : createFat32 π (powerOn d) = some s₀)
    (h : ReflTransGen (Step π fun _ q => ∃ r, q = .write r) s₀ s) (buff : ℕ → UInt8) (currentDir : Vector UInt8 128)
    (c : UInt32) :
    (∀ ns, ns ≠ [] → s.disk.PathTo ns c.toNat → (∀ name ∈ ns, splitter ∉ name) →
      (ns.map fun name => name.length + 1).sum ≤ 127 → ∃ r, printDirTree s buff c currentDir = some r ∧
        r.machine.disk = s.disk ∧ r.printed = [] ∧
          ∀ i, cell r.text i = (separated ns ++ [0]).getD i (cell currentDir i)) ∧
    (c = 2 → ∃ r, printDirTree s buff c currentDir = some r ∧ r.machine.disk = s.disk ∧ r.printed = [] ∧
      ∀ i, cell r.text i = (nameText (s.disk.slot 2 0).name ++ [0]).getD i (cell currentDir i)) := by
  have hd := run_titled h₀ h
  constructor
  · intro ns hne hpath hnames hfit
    rw [← length_separated] at hfit
    obtain ⟨s', hs', hprint⟩ := printDirTree_path hd rfl hpath hne buff currentDir (Nat.le_refl 128)
    rw [if_pos (by omega)] at hprint
    have hlen := length_backwards ns
    have hback : swapped splitter (backwards ns) = separated ns := by
      rw [swapped_backwards, List.map_congr_left fun name hname => swapped_of_notMem (hnames name hname), List.map_id']
    refine ⟨_, hprint, hs', rfl, fun i => ?_⟩
    rw [← hback]
    exact finish_text currentDir (Nat.le_refl 128) (spelled_path hd hpath hne rfl).zero_notMem (by omega) i
  · rintro rfl
    have htwo : (2 : UInt32).toNat = 2 := rfl
    obtain ⟨s', hs', hprint⟩ := printDirTree_root hd rfl htwo buff currentDir (Nat.le_refl 128)
    refine ⟨_, hprint, hs', rfl, fun i => ?_⟩
    have hzero : 0 ∉ ([114, 111, 111, 116] : List UInt8) := by decide
    have htext := finish_text (s := s') currentDir (Nat.le_refl 128) hzero (by decide) i
    rw [swapped_of_notMem (by decide)] at htext
    rw [hd.rootTitle, nameText_root]
    exact htext

/-- In the folder `c` of the folder `b` the prompt shows `\b\c`. -/
theorem run_prints_path_folderC : ∃ s c r, printDirTree s (fun _ => 0) c (Vector.replicate 128 0) = some r ∧
    s.disk.PathTo [[98], [99]] c.toNat ∧ stringAt r.text 0 = [splitter, 98, splitter, 99] := by
  obtain ⟨s₀, s₁, s, j, c, h₀, hs₁, hs, h⟩ := exists_holdsPath
  have hrun : ReflTransGen (Step zeroPlatform fun _ q => ∃ r, q = .write r) s₀ s :=
    .tail (.single ⟨.write folderB, 0, ⟨_, rfl⟩, hs₁⟩) ⟨.write folderCInB, 0, ⟨_, rfl⟩, hs⟩
  have hpath := h.paths.2
  rw [← h.inner_cluster] at hpath
  obtain ⟨r, hprint, -, -, htext⟩ := (run_prints_path h₀ hrun (fun _ => 0) (Vector.replicate 128 0)
    (s.disk.slot 3 j).cluster).1 [[98], [99]] (List.cons_ne_nil _ _) hpath (by decide) (by decide)
  refine ⟨s, _, r, hprint, hpath, stringAt_eq (by decide) fun i hi => ?_⟩
  have hi : i ≤ 4 := hi
  rw [Nat.zero_add, htext]
  interval_cases i <;> rfl

end BebasOs.Shell
