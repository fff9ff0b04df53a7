/-
The rounds of the loop behind `cd`. Its offset in the line has 8 bits and is taken past each component and the byte
that ends it, so it only moves forward, and the loop ends, unless the last component ends at offset 255, in front of
the null byte that no line reaches past, and leads somewhere: then the loop starts over at the front of the line.
-/
import BebasOs.Lib.Loop
import BebasOs.Shell.Components
import BebasOs.Shell.DirectoryStack
import Mathlib.Data.List.TakeWhile

namespace BebasOs.Shell

open Bytes Search Fat32 Disk StateTransition Relation

variable {d : Disk} {b : Vector UInt8 256} {sh : State} {p q : UInt8} {c c' : UInt16} {w w' : Walk}
  {x y : UInt8 × Walk} {n : ℕ}

/-! ## Rounds -/

/-- A round of the outer loop of `cd`: the offset and the variables that the condition is tested with next, or nothing
where the loop ends. -/
def nextRound (buffer : Vector UInt8 256) (x : UInt8 × Walk) : Option (UInt8 × Walk) :=
  if x.2.retcode ≠ 0 ∨ ends buffer x.1 = true then none
  else
    let reply := readDirectoryInterface x.2.shell (folderName buffer x.1 (currentLen buffer x.1)) x.2.currentCluster
    let w : Walk := { x.2 with retcode := reply.1, shell := reply.2 }
    if w.retcode ≠ 0 then none
    else
      let entry := cell (tableOf w.shell.dirbuffer) 0
      some (x.1 + UInt8.ofNat (currentLen buffer x.1 + 1),
        if cell entry.name 0 ≠ 0 then
          { w with currentCluster := entry.cluster.toUInt16, directoryFound := true }
        else w)

theorem walkLoop_some (n : ℕ) (h : nextRound b x = some y) : walkLoop b (n + 1) x.1 x.2 = walkLoop b n y.1 y.2 := by
  unfold nextRound at h
  split at h
  · cases h
  · next hgo =>
    rw [not_or, not_not, Bool.not_eq_true] at hgo
    rw [walkLoop_round n hgo.1 hgo.2]
    simp only at h ⊢
    split at h
    · cases h
    · next hcode =>
      cases h
      rw [if_neg hcode]

theorem walkLoop_none (n : ℕ) (h : nextRound b x = none) : ∃ w', walkLoop b (n + 1) x.1 x.2 = some w' := by
  unfold nextRound at h
  split at h
  · next hstop =>
    by_cases h0 : x.2.retcode = 0
    · obtain ⟨w', hw', -⟩ := walkLoop_end n h0 (hstop.resolve_left (not_not_intro h0))
      exact ⟨w', hw'⟩
    · rw [walkLoop, if_pos fun h => h0 h.1]
      exact ⟨_, rfl⟩
  · next hgo =>
    rw [not_or, not_not, Bool.not_eq_true] at hgo
    rw [walkLoop_round n hgo.1 hgo.2]
    simp only at h ⊢
    split at h
    · next hcode =>
      rw [if_pos hcode]
      exact ⟨_, rfl⟩
    · cases h

/-- The variables in front of a round, on a disk and in a directory. -/
structure At (d : Disk) (c : UInt16) (w : Walk) : Prop where
  retcode : w.retcode = 0
  disk : w.shell.machine.disk = d
  cluster : w.currentCluster = c

/-- A component that leads nowhere, or the end of the path, ends the loop. -/
theorem nextRound_none (h : At d c w) (ha : advance d b (p, c) = none) : nextRound b (p, w) = none := by
  unfold nextRound
  by_cases he : ends b p = true
  · rw [if_pos (.inr he)]
  · rw [Bool.not_eq_true] at he
    rw [advance_eq he, Option.map_eq_none_iff, ← h.cluster] at ha
    rw [if_neg (by simp [h.retcode, he])]
    simp only
    rw [if_pos (readDirectoryInterface_none h.disk ha)]

/-- A component that leads to a directory takes the loop there. -/
theorem nextRound_some (h : At d c w) (ha : advance d b (p, c) = some (q, c')) :
    ∃ w', nextRound b (p, w) = some (q, w') ∧ At d c' w' := by
  unfold nextRound
  by_cases he : ends b p = true
  · rw [advance_end c he] at ha
    cases ha
  · rw [Bool.not_eq_true] at he
    rw [advance_eq he, Option.map_eq_some_iff, ← h.cluster] at ha
    obtain ⟨c', hent, hq⟩ := ha
    cases hq
    obtain ⟨hcode, hname, hcluster⟩ := readDirectoryInterface_some h.disk hent
    rw [if_neg (by simp [h.retcode, he])]
    simp only
    rw [if_neg (not_not_intro hcode), if_pos hname]
    exact ⟨_, rfl, hcode, (readDirectoryInterface_unmoved _ _ _).disk.trans h.disk, hcluster⟩

theorem walkLoop_rounds (h : At d c w) (hr : Loop.rounds (advance d b) n (p, c) = some (q, c')) :
    ∃ w', At d c' w' ∧ ∀ m, walkLoop b (n + m) p w = walkLoop b m q w' := by
  induction n generalizing p c w with
  | zero =>
    cases hr
    exact ⟨w, h, fun m => by rw [Nat.zero_add]⟩
  | succ n ih =>
    obtain ⟨⟨q₁, c₁⟩, hadvance, hr⟩ := Option.bind_eq_some_iff.1 hr
    obtain ⟨w₁, hnext, h₁⟩ := nextRound_some h hadvance
    obtain ⟨w', h', hloop⟩ := ih h₁ hr
    refine ⟨w', h', fun m => ?_⟩
    rw [Nat.succ_add, walkLoop_some _ hnext]
    exact hloop m

/-- A loop that ends does so within 2^24 rounds: there are no more offsets and directories. -/
theorem walkLoop_eval {z : UInt8 × UInt16} (h : At d c w) (hz : z ∈ eval (advance d b) (p, c)) :
    ∃ w', walkLoop b (2 ^ 24) p w = some w' := by
  obtain ⟨hreach, hend⟩ := mem_eval.1 hz
  obtain ⟨n, hn⟩ := Loop.exists_rounds hreach
  let code (x : UInt8 × UInt16) : ℕ := x.1.toNat * 65536 + x.2.toNat
  have hcode : Function.Injective code := by
    rintro ⟨p, c⟩ ⟨q, c'⟩ he
    have he : p.toNat * 65536 + c.toNat = q.toNat * 65536 + c'.toNat := he
    have hc := c.toNat_lt
    have hc' := c'.toNat_lt
    rw [Prod.mk.injEq, ← UInt8.toNat_inj, ← UInt16.toNat_inj]
    omega
  have hlt (x : UInt8 × UInt16) : code x < 2 ^ 24 := by
    show x.1.toNat * 65536 + x.2.toNat < 2 ^ 24
    have h1 := x.1.toNat_lt
    have h2 := x.2.toNat_lt
    omega
  have hbound := Loop.rounds_lt hcode hlt hn hend
  obtain ⟨m, hm⟩ := Nat.exists_eq_add_of_lt hbound
  have hn : Loop.rounds (advance d b) n (p, c) = some (z.1, z.2) := hn
  obtain ⟨w', h', hloop⟩ := walkLoop_rounds h hn
  rw [hm, Nat.add_assoc, hloop]
  exact walkLoop_none m (nextRound_none h' hend)

/-! ## Forward only -/

/-- The offsets that the condition of the loop and a round read at an offset: those up to the null byte, which ends
every component that no splitter ends. -/
def offsetsRead (buffer : Vector UInt8 256) (progress : UInt8) : Set ℕ :=
  Set.Icc progress.toNat (progress.toNat + strlen buffer progress.toNat)

/-- From the start `x` the loop ends, and after each round it only reads at or after the end of the component of that
round. -/
structure Progresses (b : Vector UInt8 256) (x : UInt8 × Walk) : Prop where
  ends : ∃ n w, walkLoop b n x.1 x.2 = some w
  forward : ∀ y z, Reaches (nextRound b) x y → nextRound b y = some z →
    ∀ i ∈ offsetsRead b z.1, y.1.toNat + currentLen b y.1 ≤ i

/-- The names of the components from an offset on, when they fill the line: the last one ends at offset 255. -/
def fullPath (buffer : Vector UInt8 256) : (fuel : ℕ) → (progress : UInt8) → Option (List (Vector UInt8 8))
  | 0, _ => none
  | fuel + 1, progress =>
    if ends buffer progress then none
    else
      let name := folderName buffer progress (currentLen buffer progress)
      if progress.toNat + currentLen buffer progress = 255 then some [name]
      else (fullPath buffer fuel (progress + UInt8.ofNat (currentLen buffer progress + 1))).map (name :: ·)

/-- The directory that names lead to, one after the other. -/
def follow (d : Disk) (names : List (Vector UInt8 8)) (c : UInt16) : Option UInt16 :=
  names.foldlM (fun c name => entered d name c) c

theorem follow_cons (d : Disk) (name : Vector UInt8 8) (names : List (Vector UInt8 8)) (c : UInt16) :
    follow d (name :: names) c = (entered d name c).bind (follow d names) := rfl

/-- The next offset, where it does not wrap. -/
theorem toNat_next (h : p.toNat + currentLen b p < 255) :
    (p + UInt8.ofNat (currentLen b p + 1)).toNat = p.toNat + currentLen b p + 1 := by
  rw [UInt8.toNat_add, UInt8.toNat_ofNat']
  omega

/-- The next offset, where it wraps. -/
theorem next_eq_zero (h : p.toNat + currentLen b p = 255) : p + UInt8.ofNat (currentLen b p + 1) = 0 := by
  apply UInt8.toNat_inj.1
  rw [UInt8.toNat_add, UInt8.toNat_ofNat', UInt8.toNat_zero]
  omega

/-- Where the loop stops, it has progressed. -/
theorem progresses_none (h : nextRound b x = none) : Progresses b x where
  ends := by
    obtain ⟨w, hw⟩ := walkLoop_none 0 h
    exact ⟨1, w, hw⟩
  forward y z hy hz := by
    rcases hy.cases_head with rfl | ⟨u, hu, -⟩
    · rw [h] at hz
      cases hz
    · rw [h] at hu
      cases hu

theorem progresses_some (h : nextRound b x = some y) (hp : Progresses b y)
    (hforward : x.1.toNat + currentLen b x.1 ≤ y.1.toNat) : Progresses b x where
  ends := by
    obtain ⟨n, w, hw⟩ := hp.ends
    exact ⟨n + 1, w, (walkLoop_some n h).trans hw⟩
  forward u z hu hz i hi := by
    rcases hu.cases_head with rfl | ⟨v, hv, hu⟩
    · rw [h] at hz
      obtain rfl := Option.some.inj hz
      exact hforward.trans hi.1
    · rw [h] at hv
      obtain rfl := Option.some.inj hv
      exact hp.forward u z hu hz i hi

/-- By induction on what is left of the line: each round takes the offset past the component, as long as that does not
end at offset 255. -/
theorem progresses_of_path (hlast : cell b 255 = 0) (hn : 256 ≤ p.toNat + n) (h : At d c w)
    (hpath : ∀ names, fullPath b n p = some names → follow d names c = none) : Progresses b (p, w) := by
  induction n generalizing p w c with
  | zero => exact absurd hn (by have := p.toNat_lt; omega)
  | succ n ih =>
    rcases ha : advance d b (p, c) with _ | ⟨q, c'⟩
    · exact progresses_none (nextRound_none h ha)
    · obtain ⟨w', hnext, h'⟩ := nextRound_some h ha
      by_cases he : ends b p = true
      · rw [advance_end c he] at ha
        cases ha
      · rw [Bool.not_eq_true] at he
        rw [advance_eq he, Option.map_eq_some_iff] at ha
        obtain ⟨c', hent, hq⟩ := ha
        cases hq
        have hle := add_currentLen_le hlast he
        unfold fullPath at hpath
        rw [he, if_neg Bool.false_ne_true] at hpath
        by_cases h255 : p.toNat + currentLen b p = 255
        · simp only [if_pos h255] at hpath
          have := hpath _ rfl
          rw [follow_cons, hent] at this
          cases this
        · simp only [if_neg h255] at hpath
          have hq := toNat_next (b := b) (p := p) (by omega)
          have hforward : p.toNat + currentLen b p ≤ (p + UInt8.ofNat (currentLen b p + 1)).toNat := by omega
          refine progresses_some hnext (ih (by omega) h' fun names hnames => ?_) hforward
          have := hpath _ (by rw [hnames]; rfl)
          rwa [follow_cons, hent] at this

/-- A path that fills the line and leads somewhere takes the loop back to offset 0. -/
theorem reaches_front {names : List (Vector UInt8 8)} (h : At d c w) (hpath : fullPath b n p = some names)
    (hfollow : follow d names c = some c') : ∃ y z, Reaches (nextRound b) (p, w) y ∧ nextRound b y = some z ∧
      y.1.toNat + currentLen b y.1 = 255 ∧ z.1 = 0 := by
  induction n generalizing p w c names with
  | zero => cases hpath
  | succ n ih =>
    unfold fullPath at hpath
    split at hpath
    · cases hpath
    · next he =>
      rw [Bool.not_eq_true] at he
      have hround {c₁ : UInt16} (hent : entered d (folderName b p (currentLen b p)) c = some c₁) :=
        nextRound_some (p := p) h (by rw [advance_eq he, hent]; rfl)
      simp only at hpath
      split at hpath
      · next h255 =>
        cases hpath
        rw [follow_cons] at hfollow
        obtain ⟨c₁, hent, -⟩ := Option.bind_eq_some_iff.1 hfollow
        obtain ⟨w', hnext, -⟩ := hround hent
        exact ⟨(p, w), _, .refl, hnext, h255, next_eq_zero h255⟩
      · obtain ⟨names, hnames, hcons⟩ := Option.map_eq_some_iff.1 hpath
        cases hcons
        rw [follow_cons] at hfollow
        obtain ⟨c₁, hent, hfollow⟩ := Option.bind_eq_some_iff.1 hfollow
        obtain ⟨w', hnext, h'⟩ := hround hent
        obtain ⟨y, z, hy, hz, hend, hfront⟩ := ih h' hnames hfollow
        exact ⟨y, z, .head hnext hy, hz, hend, hfront⟩

/-! ## Lines -/

/-- For every disk, directory and line: the loop behind `cd` ends, and only reads at or after the end of the previous
component, if and only if the components do not fill the line up to offset 255 or do not lead anywhere. -/
theorem progresses_iff (sh : State) (line : Line) :
    Progresses line.buffer (3, ⟨sh, 0, sh.parentCluster, false⟩) ↔
      ∀ names, fullPath line.buffer 256 3 = some names → follow sh.machine.disk names sh.parentCluster = none := by
  have hat : At sh.machine.disk sh.parentCluster ⟨sh, 0, sh.parentCluster, false⟩ := ⟨rfl, rfl, rfl⟩
  constructor
  · intro h names hnames
    by_contra hfollow
    obtain ⟨c', hc'⟩ := Option.ne_none_iff_exists'.1 hfollow
    obtain ⟨y, z, hy, hz, hend, hfront⟩ := reaches_front hat hnames hc'
    have hread : 0 ∈ offsetsRead line.buffer z.1 := by
      rw [hfront]
      exact ⟨Nat.le_refl 0, Nat.zero_le _⟩
    have := h.forward y z hy hz 0 hread
    omega
  · exact progresses_of_path line.buffer_last (by decide) hat

/-! ## A line without end -/

theorem cell_lineBytes {text : List UInt8} (h0 : 0 ∉ text) (hlen : text.length ≤ 256) (i : ℕ) :
    cell (lineBytes text) i = text[i]?.getD 0 := by
  have htext : strncpy text 256 = text ++ List.replicate (256 - text.length) 0 := by
    unfold strncpy
    have hall : ∀ a ∈ text, decide (a ≠ 0) = true := fun a ha => decide_eq_true fun h => h0 (h ▸ ha)
    rw [List.take_of_length_le hlen, List.takeWhile_eq_self_iff.2 hall]
  unfold cell
  split
  · next hi =>
    have hi' : i < (strncpy text 256).length := by rw [length_strncpy]; exact hi
    show (strncpy text 256)[i] = _
    simp only [htext]
    rw [List.getElem_append]
    split
    · next h => rw [List.getElem?_eq_getElem h]; rfl
    · next h => rw [List.getElem_replicate, List.getElem?_eq_none (by omega)]; rfl
  · rw [List.getElem?_eq_none (by omega)]
    rfl

/-- The bytes of a line `cd` with an argument, after both calls of `strtok`. -/
theorem buffer_cd (line : Line) {argument : List UInt8} (hbytes : line.bytes = lineBytes ([99, 100, 32] ++ argument))
    (h0 : 0 ∉ argument) (h32 : 32 ∉ argument) (hlen : argument.length ≤ 252) :
    line.command.start = some 0 ∧ line.argument.start = some 3 ∧
    ∀ i, cell line.buffer i = ([99, 100, 0] ++ argument)[i]?.getD 0 := by
  have hcell (i : ℕ) : cell line.bytes i = ([99, 100, 32] ++ argument)[i]?.getD 0 := by
    rw [hbytes, cell_lineBytes (by simpa using h0) (by simp; omega)]
  have hcommand : line.command = ⟨some 0, store line.bytes 2 0, some 3⟩ := by
    unfold Line.command
    have hgo (i : ℕ) (hi : i < 2) : cell line.bytes i ≠ 0 ∧ cell line.bytes i ∉ [32] := by
      rw [hcell]
      interval_cases i <;> simp
    have hstop : cell line.bytes 2 = 32 := hcell 2
    rw [strtok_eq 2 rfl (by omega) (Nat.zero_le 2) (fun i _ => hgo i) (.inr (by rw [hstop]; simp)), hstop]
    rfl
  have hbuffer (i : ℕ) : cell (store line.bytes 2 0) i = ([99, 100, 0] ++ argument)[i]?.getD 0 := by
    rw [cell_store _ _ _ (by omega), hcell]
    match i with
    | 0 | 1 | 2 => rfl
    | i + 3 => rfl
  have hargument : line.argument = ⟨some 3, store line.bytes 2 0, some (3 + argument.length)⟩ := by
    unfold Line.argument
    rw [hcommand]
    have hstop : cell (store line.bytes 2 0) (3 + argument.length) = 0 := by
      rw [hbuffer, List.getElem?_eq_none (by simp; omega)]
      rfl
    rw [strtok_eq (3 + argument.length) rfl (by omega) (by omega) (fun i h3 hi => ?_) (.inl hstop), if_pos hstop]
    obtain ⟨j, rfl⟩ := Nat.exists_eq_add_of_le h3
    have hj : cell (store line.bytes 2 0) (3 + j) ∈ argument := by
      rw [hbuffer, List.getElem?_append_right (by simp)]
      simp only [List.length_cons, List.length_nil, Nat.zero_add, Nat.reduceAdd, Nat.add_sub_cancel_left]
      rw [List.getElem?_eq_getElem (by omega)]
      exact List.getElem_mem _
    exact ⟨fun h => h0 (h ▸ hj), fun h => h32 (List.mem_singleton.1 h ▸ hj)⟩
  unfold Line.buffer
  rw [hcommand, hargument]
  exact ⟨rfl, rfl, hbuffer⟩

/-- The byte of the argument `.\..\.\.\…\.` at an index. -/
def longByte (j : ℕ) : UInt8 := if j = 1 ∨ 4 ≤ j ∧ j % 2 = 0 then splitter else 46

/-- The argument of 252 characters that fills a line. -/
def longArgument : List UInt8 := (List.range 252).map longByte

def longLine : Line := ⟨lineBytes ([99, 100, 32] ++ longArgument), by decide +kernel⟩

theorem longByte_ne (j : ℕ) : longByte j ≠ 0 ∧ longByte j ≠ 32 := by
  unfold longByte
  split <;> decide

theorem longLine_buffer : longLine.command.start = some 0 ∧ longLine.argument.start = some 3 ∧
    ∀ i, cell longLine.buffer i = ([99, 100, 0] ++ longArgument)[i]?.getD 0 := by
  refine buffer_cd longLine rfl ?_ ?_ (by simp [longArgument])
  · rw [longArgument, List.mem_map]
    rintro ⟨j, -, hj⟩
    exact (longByte_ne j).1 hj
  · rw [longArgument, List.mem_map]
    rintro ⟨j, -, hj⟩
    exact (longByte_ne j).2 hj

theorem cell_longLine {j : ℕ} (hj : j < 252) : cell longLine.buffer (3 + j) = longByte j := by
  rw [longLine_buffer.2.2, List.getElem?_append_right (by simp), longArgument]
  simp [hj]

theorem longLine_isCd : longLine.isCd = true := by
  obtain ⟨hstart, -, hcell⟩ := longLine_buffer
  have hlen : strlen longLine.buffer 0 = 2 := by
    refine strlen_eq_iff.2 ⟨hcell 2, fun i hi => ?_⟩
    rw [Nat.zero_add, hcell]
    interval_cases i <;> decide
  unfold Line.isCd
  rw [hstart, Option.map_some, Option.getD_some, stringAt, hlen]
  show (strcmp [cell longLine.buffer 0, cell longLine.buffer 1] [99, 100] == 0) = true
  rw [hcell, hcell]
  rfl

/-- The line `cd .\..\.\.\…\.`. -/
def cdLong : CdLine := ⟨longLine, longLine_isCd⟩

theorem cdLong_toLine : cdLong.toLine = longLine := rfl

theorem cdLong_climbs : cdLong.climbs = false := by
  have h4 : cell longLine.buffer 4 = 92 := cell_longLine (j := 1) (by omega)
  rw [cdLong_toLine, ← Bool.not_eq_true, Line.climbs_iff]
  rintro ⟨-, h⟩
  exact absurd (h4.symm.trans h) (by decide)

theorem cdLong_blank : cdLong.blank = false := by
  have h3 : cell longLine.buffer 3 = 46 := cell_longLine (j := 0) (by omega)
  have hlen : strlen longLine.buffer 3 ≠ 0 := by
    rw [ne_eq, strlen_eq_zero, h3]
    decide
  obtain ⟨k, hk⟩ := Nat.exists_eq_succ_of_ne_zero hlen
  have hstring : stringAt longLine.buffer 3 = 46 :: (List.range' 4 k).map (cell longLine.buffer) := by
    rw [stringAt, hk, List.range'_succ, List.map_cons, h3]
  have hspan : strspn (stringAt longLine.buffer 3) [32, 9, 10, 13] = 0 := by
    rw [hstring]
    rfl
  rw [cdLong_toLine, Line.blank, longLine_buffer.2.1]
  simp only
  rw [hspan]
  exact beq_false_of_ne hlen

/-- A round over a component whose name leads somewhere. -/
theorem advance_component {k : ℕ} {name : Vector UInt8 8} (hpos : 0 < k) (hk : k < 8)
    (hcell : ∀ i < k, cell b (p.toNat + i) = cell name i) (hname : ∀ i < k, cell name i ≠ splitter ∧ cell name i ≠ 0)
    (hrest : ∀ i < 8, k ≤ i → cell name i = 0)
    (hstop : cell b (p.toNat + k) = splitter ∨ cell b (p.toNat + k) = 0) (he : entered d name c = some c') :
    advance d b (p, c) = some (p + UInt8.ofNat (k + 1), c') := by
  have hgo (i : ℕ) (hi : i < k) : cell b (p.toNat + i) ≠ splitter ∧ cell b (p.toNat + i) ≠ 0 := by
    rw [hcell i hi]
    exact hname i hi
  have hlen : currentLen b p = k := currentLen_eq hk.le hgo fun _ => hstop
  have hends : ends b p = false := by
    rw [ends_eq_false, hlen]
    exact ⟨(hgo 0 hpos).2, by omega⟩
  rw [advance_eq hends, hlen, folderName_eq (fun i hi => (hcell i hi).symm) hrest, he]
  rfl

/-- The sample folder `cd`. -/
def folderCd : FAT32DriverRequest := { folderB with name := #v[99, 100, 0, 0, 0, 0, 0, 0] }

theorem exists_folderCd : ∃ s, FirstFolder zeroPlatform folderCd s := by
  obtain ⟨s₀, -, hf⟩ := createFat32_formatted zeroPlatform zeroDisk
  have haccepted : Accepted s₀ folderCd 2 3 :=
    hf.accepted rfl (by decide) (name_ne_rootName (by decide)) (by decide) (by decide)
  obtain ⟨s, -, hst⟩ := haccepted.write (π := zeroPlatform) hf.wellFormed.toSound.grounded s₀.disk.liveDir_root
  exact ⟨s, hst.firstFolder hf rfl rfl⟩

/-- Where a name leads, by the slot it is found in and the first slot of the cluster that points to. -/
theorem entered_of_lookUp {i q : ℕ} {name : Vector UInt8 8} {e : FAT32DirectoryEntry}
    (hl : lookUp d c.toNat name = some i) (hq : place (d.slot c.toNat i).cluster = q) (he : d.slot q 0 = e)
    (hname : ¬ (cell e.name 0 = 0xE5 ∨ cell e.name 0 = 0)) : entered d name c = some e.cluster.toUInt16 := by
  rw [entered_eq hl, hq, he, if_neg hname]

/-- Slot 1 is found under its name. -/
theorem lookUp_one {m : ℕ} {name : Vector UInt8 8} (hdot : name ≠ dot) (h : (d.slot m 1).name = name) :
    lookUp d m name = some 1 := by
  unfold lookUp
  rw [if_neg hdot]
  exact first_eq_some.2 ⟨Nat.le_refl 1, by omega, decide_eq_true h, fun j h1 h2 => absurd h1 (by omega)⟩

section

variable {s : Machine} (h : FirstFolder zeroPlatform folderCd s)
include h

theorem rootSelf_leads {name : Vector UInt8 8} {i : ℕ} (hl : lookUp s.disk c.toNat name = some i)
    (hi : (s.disk.slot c.toNat i).cluster = 2) : entered s.disk name c = some 2 := by
  refine (entered_of_lookUp hl (by rw [hi]; rfl) h.rootSelf (by decide)).trans ?_
  rw [rootEntry_cluster]
  rfl

theorem cdSelf_leads {name : Vector UInt8 8} {i : ℕ} (hl : lookUp s.disk c.toNat name = some i)
    (hi : s.disk.slot c.toNat i = newEntry folderCd 3) : entered s.disk name c = some 3 :=
  entered_of_lookUp hl (by rw [hi]; decide) h.self (by decide)

/-- `.` leads from the root and from the folder to themselves. -/
theorem enteredDot (hc : c = 2 ∨ c = 3) : entered s.disk dot c = some c := by
  rcases hc with rfl | rfl
  · refine rootSelf_leads h (i := 0) (if_pos rfl) ?_
    show (s.disk.slot 2 0).cluster = 2
    rw [h.rootSelf, rootEntry_cluster]
  · exact cdSelf_leads h (i := 0) (if_pos rfl) h.self

/-- `..` leads from both to the root. -/
theorem enteredDotDot (hc : c = 2 ∨ c = 3) : entered s.disk dotDot c = some 2 := by
  have hparent : s.disk.slot c.toNat 1 = dotDotEntry (rootEntry zeroPlatform) := by
    rcases hc with rfl | rfl
    · exact h.rootParent
    · exact h.parent
  refine rootSelf_leads h (lookUp_one (by decide) (by rw [hparent, dotDotEntry_name])) ?_
  rw [hparent, dotDotEntry_cluster, rootEntry_cluster]

/-- `cd` leads from the root to the folder. -/
theorem enteredCd : entered s.disk folderCd.name 2 = some 3 := by
  refine cdSelf_leads h (i := 2) ?_ h.slot
  unfold lookUp
  rw [if_neg (by decide)]
  refine first_eq_some.2 ⟨by omega, by omega, ?_, fun j h1 h2 => ?_⟩
  · show decide ((s.disk.slot 2 2).name = folderCd.name) = true
    rw [h.slot, newEntry_name]
    exact decide_eq_true rfl
  · obtain rfl : j = 1 := by omega
    show decide ((s.disk.slot 2 1).name = folderCd.name) = false
    rw [h.rootParent, dotDotEntry_name]
    decide

/-- Where the loop is over that line, with the folder `cd` in the root: it comes back to offset 0 in the root. -/
inductive Looping : UInt8 × UInt16 → Prop
  | front : Looping (0, 2)
  | first {a : UInt16} (ha : a = 2 ∨ a = 3) : Looping (3, a)
  | second {a : UInt16} (ha : a = 2 ∨ a = 3) : Looping (5, a)
  | later {o : UInt8} (h8 : 8 ≤ o.toNat) (heven : o.toNat % 2 = 0) : Looping (o, 2)

/-- A round over a component `.` of that line. -/
theorem advance_longDot (hc : c = 2 ∨ c = 3) (hp : cell longLine.buffer p.toNat = 46)
    (hstop : cell longLine.buffer (p.toNat + 1) = splitter ∨ cell longLine.buffer (p.toNat + 1) = 0) :
    advance s.disk longLine.buffer (p, c) = some (p + 2, c) := by
  refine advance_component (k := 1) (by omega) (by omega) (fun i hi => ?_) (by decide)
    (by decide) hstop (enteredDot h hc)
  obtain rfl : i = 0 := by omega
  exact hp

/-- The round over its component `..`. -/
theorem advance_longDotDot (hc : c = 2 ∨ c = 3) : advance s.disk longLine.buffer (5, c) = some (8, 2) := by
  refine advance_component (k := 2) (by omega) (by omega) (fun i hi => ?_) (by decide) (by decide)
    (.inl (cell_longLine (j := 4) (by omega))) (enteredDotDot h hc)
  have h5 : (5 : UInt8).toNat + i = 3 + (2 + i) := by
    show 5 + i = 3 + (2 + i)
    omega
  rw [h5, cell_longLine (by omega)]
  interval_cases i <;> rfl

/-- The round over `cd` at its front. -/
theorem advance_longFront : advance s.disk longLine.buffer (0, 2) = some (3, 3) := by
  refine advance_component (k := 2) (by omega) (by omega) (fun i hi => ?_) (by decide) (by decide)
    (.inr (longLine_buffer.2.2 2)) (enteredCd h)
  rw [show (0 : UInt8).toNat + i = i from Nat.zero_add i, longLine_buffer.2.2]
  interval_cases i <;> rfl

theorem Looping.step (hx : Looping (p, c)) : ∃ q c', advance s.disk longLine.buffer (p, c) = some (q, c') ∧
    Looping (q, c') := by
  cases hx with
  | front => exact ⟨3, 3, advance_longFront h, .first (.inr rfl)⟩
  | first ha =>
    have h3 : cell longLine.buffer 3 = 46 := cell_longLine (j := 0) (by omega)
    have h4 : cell longLine.buffer 4 = 92 := cell_longLine (j := 1) (by omega)
    exact ⟨5, c, advance_longDot h ha h3 (.inl h4), .second ha⟩
  | second ha => exact ⟨8, 2, advance_longDotDot h ha, .later (by decide) (by decide)⟩
  | later h8 heven =>
    have hlt := p.toNat_lt
    obtain ⟨j, hj⟩ := Nat.exists_eq_add_of_le (show 3 ≤ p.toNat by omega)
    have hp : cell longLine.buffer p.toNat = 46 := by
      rw [hj, cell_longLine (by omega)]
      exact if_neg (by omega)
    by_cases h254 : p.toNat < 254
    · have hstop : cell longLine.buffer (p.toNat + 1) = splitter := by
        rw [hj, Nat.add_assoc, cell_longLine (by omega)]
        exact if_pos (by omega)
      have hnext : (p + 2).toNat = p.toNat + 2 := by
        rw [UInt8.toNat_add, show (2 : UInt8).toNat = 2 from rfl]
        omega
      exact ⟨p + 2, 2, advance_longDot h (.inl rfl) hp (.inl hstop), .later (by omega) (by omega)⟩
    · -- the offset comes back to the front of the line
      obtain rfl : p = 254 := UInt8.toNat_inj.1 (show p.toNat = 254 by omega)
      exact ⟨0, 2, advance_longDot h (.inl rfl) hp (.inr longLine.buffer_last), .front⟩

end

/-- The loop over that line goes on for ever. -/
theorem walkLoop_long {s : Machine} (h : FirstFolder zeroPlatform folderCd s) (n : ℕ) (hat : At s.disk c w)
    (hx : Looping (p, c)) : walkLoop longLine.buffer n p w = none := by
  induction n generalizing p c w with
  | zero => rfl
  | succ n ih =>
    obtain ⟨q, c', hadvance, hy⟩ := hx.step h
    obtain ⟨w', hnext, hat'⟩ := nextRound_some hat hadvance
    rw [walkLoop_some n hnext]
    exact ih hat' hy

/-- The loop does not end for a line of 255 characters in the root of a disk with the folder `cd`. -/
theorem loop_endless : ¬ ∀ (sh : State) (line : CdLine), sh.machine.disk.WellFormed → sh.machine.disk.Tree →
    sh.machine.disk.LiveDir sh.parentCluster.toNat → line.climbs = false → line.blank = false →
    Progresses line.buffer (3, ⟨sh, 0, sh.parentCluster, false⟩) := by
  obtain ⟨s, h⟩ := exists_folderCd
  intro hall
  obtain ⟨n, w, hw⟩ := (hall (start s) cdLong h.wellFormed h.tree s.disk.liveDir_root cdLong_climbs cdLong_blank).ends
  rw [cdLong_toLine, walkLoop_long h n (c := 2) ⟨rfl, rfl, rfl⟩ (.first (.inl rfl))] at hw
  cases hw

end BebasOs.Shell
