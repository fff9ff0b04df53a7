/-
The rounds of the shell against the session: each command shows what the session shows, and after it the shell stands
where the session does.
-/
import BebasOs.Shell.Session

namespace BebasOs.Shell

open Bytes Search Fat32 Disk FileTree Refinement

variable {π κ : Platform} {sh sh' : State} {t : Session} {w : Word} {v : Volume} {s s' : Machine} {k : Key}
  {ks : List Key}

/-! ## Words -/

theorem nameText_nameOf {l : List UInt8} (h0 : 0 ∉ l) (h8 : l.length ≤ 8) : nameText (nameOf l) = l := by
  have hbytes : (nameOf l).toList = l ++ List.replicate (8 - l.length) 0 := by
    refine List.ext_getElem ?_ fun i h1 h2 => ?_
    · rw [Vector.length_toList, List.length_append, List.length_replicate]
      omega
    · rw [Vector.getElem_toList]
      refine (Vector.getElem_ofFn _).trans ?_
      by_cases hi : i < l.length
      · rw [List.getElem_append_left hi, List.getElem?_eq_getElem hi, Option.getD_some]
      · rw [List.getElem_append_right (by omega), List.getElem_replicate, List.getElem?_eq_none (Nat.le_of_not_lt hi),
          Option.getD_none]
  have hall : ∀ x ∈ l, decide (x ≠ 0) = true := fun x hx => decide_eq_true (by
    rintro rfl
    exact h0 hx)
  unfold nameText
  rw [hbytes, List.takeWhile_append_of_pos hall, List.takeWhile_replicate, if_neg (by decide), List.append_nil]

namespace Word

theorem notMem (w : Word) {x : UInt8} (hx : x ∈ [0, 9, 10, 13, 32, dotByte, splitter, 0xE5]) : x ∉ w.chars :=
  fun h => w.plain x h hx

theorem zero_notMem (w : Word) : 0 ∉ w.chars := w.notMem (by decide)

theorem unspaced (w : Word) : ∀ x ∈ w.chars, x ≠ 0 ∧ x ≠ 32 := fun x hx =>
  ⟨fun hc => w.zero_notMem (hc ▸ hx), fun hc => w.notMem (x := 32) (by decide) (hc ▸ hx)⟩

theorem not_white (w : Word) : ¬ ∀ x ∈ w.chars, x ∈ [(9 : UInt8), 10, 13] := by
  intro hall
  obtain ⟨x, hx⟩ := List.exists_mem_of_ne_nil _ w.ne_nil
  have hwhite : ∀ y ∈ [(9 : UInt8), 10, 13], y ∈ [0, 9, 10, 13, 32, dotByte, splitter, 0xE5] := by simp
  exact w.plain x hx (hwhite x (hall x hx))

theorem nameText_key (w : Word) : nameText w.key.1 = w.chars :=
  nameText_nameOf w.zero_notMem (by have := w.length_le; omega)

theorem first_mem (w : Word) : cell w.key.1 0 ∈ w.chars := by
  show cell (nameOf w.chars) 0 ∈ w.chars
  rw [cell_nameOf (by decide)]
  exact getD_mem (List.length_pos_of_ne_nil w.ne_nil)

/-- The name of a word is none with another text. -/
theorem name_ne (w : Word) {name : Vector UInt8 8} (h : nameText name ≠ w.chars) : w.key.1 ≠ name := fun hc =>
  h (hc ▸ w.nameText_key)

theorem named (w : Word) : w.key.1 ≠ Vector.replicate 8 0 := w.name_ne fun h => w.ne_nil (h.symm.trans (by decide))

theorem name_ne_dot (w : Word) : w.key.1 ≠ dot := w.name_ne fun h =>
  w.notMem (x := dotByte) (by decide) (h ▸ by decide)

theorem name_ne_dotDot (w : Word) : w.key.1 ≠ dotDot := w.name_ne fun h =>
  w.notMem (x := dotByte) (by decide) (h ▸ by decide)

theorem key_ne_upKey (w : Word) : w.key ≠ upKey := fun h => w.name_ne_dotDot (congrArg Prod.fst h)

end Word

/-! ## Lines -/

theorem words_word {command : List UInt8} (w : Word) (h : (command ++ 32 :: w.chars).length < 256)
    (hc : ∀ x ∈ command, x ≠ 0 ∧ x ≠ 32) : Words (lineWith (command ++ 32 :: w.chars) h) command w.chars [] := by
  have hlen : (command ++ 32 :: (w.chars ++ [])).length < 256 := by rwa [List.append_nil]
  have hw := words_lineWith hlen hc w.unspaced (.inl rfl)
  simp only [List.append_nil] at hw
  exact hw

theorem words_mkdir (w : Word) : Words (Command.mkdir w).line [109, 107, 100, 105, 114] w.chars [] :=
  words_word w _ (by simp)

theorem words_rm (w : Word) : Words (Command.rm w).line [114, 109] w.chars [] := words_word w _ (by simp)

theorem words_cd (w : Word) : Words (Command.cd w).line [99, 100] w.chars [] := words_word w _ (by simp)

theorem words_cat (w : Word) : Words (Command.cat w).line [99, 97, 116] w.chars [] := words_word w _ (by simp)

section

variable (π : Platform) (sh : State) (memory : ℕ → UInt8) (u : Locals)

theorem parseCommand_branch {line : Line} (h : line.isCd ≠ true) : parseCommand π sh line memory u =
    match line.branch with
    | .ls => ls sh line memory
    | .mkdir => (mkdir π sh line memory).map fun sh => (sh, [])
    | .cat => cat π sh line
    | .cp => (copy π sh line u).map fun x => (x.1, [])
    | .rm => (rm π sh line memory).map fun sh => (sh, [])
    | .mv => (move π sh line u).map fun sh => (sh, [])
    | .find | .ps => none
    | .exec => some (sh, [])
    | .notFound => some (sh.puts "Command not found" 0x4, []) := dif_neg h

theorem parseCommand_mkdir (w : Word) : parseCommand π sh (Command.mkdir w).line memory u =
    (mkdir π sh (Command.mkdir w).line memory).map fun sh => (sh, []) := by
  rw [parseCommand_branch _ _ _ _ fun h => absurd (((words_mkdir w).isCd_iff (by decide)).1 h) (by decide),
    (words_mkdir w).branch_mkdir]

theorem parseCommand_rm (w : Word) : parseCommand π sh (Command.rm w).line memory u =
    (rm π sh (Command.rm w).line memory).map fun sh => (sh, []) := by
  rw [parseCommand_branch _ _ _ _ fun h => absurd (((words_rm w).isCd_iff (by decide)).1 h) (by decide),
    (words_rm w).branch_rm]

theorem parseCommand_cat (w : Word) :
    parseCommand π sh (Command.cat w).line memory u = cat π sh (Command.cat w).line := by
  rw [parseCommand_branch _ _ _ _ fun h => absurd (((words_cat w).isCd_iff (by decide)).1 h) (by decide),
    (words_cat w).branch_cat]

theorem parseCommand_ls : parseCommand π sh Command.ls.line memory u = ls sh Command.ls.line memory := by
  have hcd : Command.ls.line.isCd = false := by decide +kernel
  have hbranch : Command.ls.line.branch = .ls := by decide +kernel
  rw [parseCommand_branch _ _ _ _ (Bool.eq_false_iff.1 hcd), hbranch]

/-- `cd` and a word. -/
def Word.cdLine (w : Word) : CdLine := ⟨(Command.cd w).line, ((words_cd w).isCd_iff (by decide)).2 rfl⟩

theorem parseCommand_cd (w : Word) : parseCommand π sh (Command.cd w).line memory u =
    (changeDirectory sh w.cdLine).map fun sh => (sh, []) := dif_pos w.cdLine.cd

/-- `cd ..` -/
def upLine : CdLine := ⟨Command.up.line, by decide +kernel⟩

theorem parseCommand_up : parseCommand π sh Command.up.line memory u =
    (changeDirectory sh upLine).map fun sh => (sh, []) := dif_pos upLine.cd

end

/-! ## Rounds that the disk decides -/

/-- The shell shows what the session shows, and stands where it stands. -/
def Follows (π : Platform) (t : Session) (c : Command) (result : Option (State × List (List UInt8))) : Prop :=
  ∃ sh' texts, result = some (sh', texts) ∧ (Output.mk sh'.printed texts).Matches (t.serve π c).1 ∧
    StandsAt π sh' (t.serve π c).2

/-- One message on an empty screen. -/
theorem matches_puts (hprinted : sh.printed = []) (text : String) (color : UInt32) :
    (Output.mk (sh.puts text color).printed []).Matches (.message text color) := by
  refine ⟨?_, rfl⟩
  show sh.printed ++ [(text, color)] = [(text, color)]
  rw [hprinted, List.nil_append]

namespace StandsAt

variable (h : StandsAt π sh t)
include h

theorem puts (text : String) (color : UInt32) : StandsAt π (sh.puts text color) t :=
  ⟨h.holds, h.worded, h.room, h.idx, h.here, h.stack⟩

theorem folder : t.volume.tree.node t.path = some .folder := by
  rw [← h.holds.2]
  exact nodeAt_eq_folder.2 ⟨_, h.here⟩

/-- A request that leaves the folders on the path leaves the user where he is. -/
theorem changed (hs : Represents π s' v) (hkeeps : sh.machine.disk.Keeps s'.disk)
    (hpath : ∀ i, v.tree.node (t.path.drop i) = some .folder) (hw : Worded v) :
    StandsAt π { sh with machine := s' } ⟨v, t.path⟩ := by
  obtain ⟨hs, rfl⟩ := hs
  refine ⟨⟨hs, rfl⟩, hw, h.room, h.idx, ?_, fun i hi => ?_⟩
  · exact hkeeps _ _ h.here (hpath 0)
  · exact hkeeps _ _ (h.stack i hi) (hpath _)

/-- A request that only reads. -/
theorem read {q : Request} {code : Int} (hq : ∃ r, q = .read r ∨ q = .readDirectory r)
    (hp : q.data.parent = sh.parentCluster.toNat) (hperform : perform π sh.machine q = some (code, s'))
    (hu : Unmoved sh sh') (hm : sh'.machine = s') : StandsAt π sh' t := by
  have hlive : sh.machine.disk.LiveDir q.data.parent := by
    rw [hp]
    exact liveDir_of_dirAt h.here
  obtain ⟨hs, hv⟩ := h.holds
  have hread := hs.of_read hlive hq hperform
  rw [hv, ← hm] at hread
  refine ⟨hread, h.worded, h.room, hu.idx.trans h.idx, ?_, fun i hi => ?_⟩
  · rw [hu.disk, hu.parentCluster]
    exact h.here
  · rw [hu.idx] at hi ⊢
    rw [hu.disk, hu.clusters]
    exact h.stack i hi

end StandsAt

theorem mkdir_eq {line : Line} {buf : ℕ → UInt8} {code : Int}
    (h : write π sh.machine (mkdirRequest line sh.parentCluster buf) = some (code, s')) (h2 : code ≠ 2) :
    ∃ text color, madeText code = .message text color ∧
      mkdir π sh line buf = some ({ sh with machine := s' }.puts text color) := by
  unfold mkdir madeText
  rw [h]
  simp only [Option.bind_eq_bind, Option.bind_some, if_neg h2]
  split_ifs
  · exact ⟨_, _, rfl, rfl⟩
  · exact ⟨_, _, rfl, rfl⟩
  · exact ⟨_, _, rfl, rfl⟩

theorem mkdir_follows (h : StandsAt π sh t) (hprinted : sh.printed = []) (w : Word) (memory : ℕ → UInt8) :
    Follows π t (.mkdir w) ((mkdir π sh (Command.mkdir w).line memory).map fun sh => (sh, [])) := by
  obtain ⟨v, ks⟩ := t
  obtain ⟨hs, rfl⟩ := h.holds
  have htext : stringAt (Command.mkdir w).line.buffer 6 = w.chars := (words_mkdir w).stringAt_argument w.zero_notMem
  have hkey : (mkdirRequest (Command.mkdir w).line sh.parentCluster memory).key = w.key := by
    have hlen := w.length_le
    refine Prod.ext ?_ rfl
    show nameOf ((stringAt (Command.mkdir w).line.buffer 6).take 8) = nameOf w.chars
    rw [htext, List.take_of_length_le (by omega)]
  have hname : (mkdirRequest (Command.mkdir w).line sh.parentCluster memory).name = w.key.1 := congrArg Prod.fst hkey
  have hp : sh.machine.disk.dirAt ks = some (mkdirRequest (Command.mkdir w).line sh.parentCluster memory).parent :=
    h.here
  have hsize : (mkdirRequest (Command.mkdir w).line sh.parentCluster memory).bufferSize = 0 := rfl
  obtain ⟨code, s', hw, hs', hkeeps, hv⟩ := hs.write hp (fun hc => w.named (hname.symm.trans hc)) (by
    rw [if_pos hsize]
    rfl)
  rw [Volume.write_folder_congr (r := w.request) hkey rfl rfl] at hv
  have hcode := Volume.write_code (congrArg Prod.fst hv)
  obtain ⟨text, color, hsaid, hrun⟩ := mkdir_eq hw (by omega)
  refine ⟨_, [], by rw [hrun, Option.map_some], ?_, ?_⟩
  · show Output.Matches _ (madeText (replyCode ((volumeOf sh.machine.disk).write π ks w.request).1))
    rw [hv, show madeText (replyCode (.done code)) = _ from hsaid]
    exact matches_puts hprinted text color
  · refine StandsAt.puts ?_ text color
    refine h.changed (v := ((volumeOf sh.machine.disk).write π ks w.request).2) ⟨hs', by rw [hv]⟩ hkeeps ?_ ?_
    · exact fun i => Volume.write_node (Tree.node_drop h.folder i)
    · intro ls k hk
      rcases Volume.write_children hk with rfl | hk
      · exact ⟨w, rfl⟩
      · exact h.worded ls k hk

/-! ## Arguments that are words -/

/-- The word as an argument of `cat` and `rm`. -/
def Word.argument (w : Word) : Argument where
  bytes := w.chars
  nonzero := w.zero_notMem
  nospace := w.notMem (by decide)
  fits := by
    have := w.length_le
    omega

theorem Word.base_argument (w : Word) : base w.chars = w.chars ∧ afterDot w.chars = [] :=
  (base_or w.chars).elim (fun h => h.2) fun h => absurd h.1 (w.notMem (by decide))

/-- Copied over a request without a name it is its name, and nothing else is changed. -/
theorem Copied.word {r r' : FAT32DriverRequest} (h : Copied r r' w.chars) (hname : r.name = Vector.replicate 8 0)
    (hext : r.ext = Vector.replicate 3 0) : r'.key = w.key ∧ r'.parentClusterNumber = r.parentClusterNumber ∧
      r'.bufferSize = r.bufferSize ∧ r'.buf = r.buf := by
  have hlen := w.length_le
  refine ⟨Prod.ext (cell_ext fun i hi => ?_) (cell_ext fun i hi => ?_), u32.injective (cell_ext fun i hi => ?_),
    u32.injective (cell_ext fun i hi => ?_), h.buf⟩
  · show cell r'.name i = cell (nameOf w.chars) i
    rw [h.name i hi, hname, cell_replicate, cell_nameOf hi]
  · show cell r'.ext i = cell (Vector.replicate 3 0) i
    rw [h.ext i hi, List.getD_eq_default _ _ (by omega), hext]
  · rw [h.parent i hi, List.getD_eq_default _ _ (by omega)]
  · rw [h.size i hi, List.getD_eq_default _ _ (by omega)]

/-- The request of `rm`. -/
theorem Word.rmRequest (w : Word) (s : Machine) (parentCluster : UInt16) (dirbuffer buf : ℕ → UInt8) :
    ∃ r, rmRequest s (Command.rm w).line parentCluster dirbuffer buf = some (some r) ∧ r.key = w.key ∧
      r.parentClusterNumber = parentCluster.toUInt32 := by
  have hlen := w.length_le
  obtain ⟨r, hr, hcopied⟩ := copyName_spec ⟨buf, Vector.replicate 8 0, Vector.replicate 3 0, parentCluster.toUInt32, 0⟩
    (show w.chars.length ≤ 19 by omega)
  obtain ⟨hkey, hparent, -⟩ := hcopied.word rfl rfl
  have heq := rmRequest_eq w.argument s parentCluster dirbuffer buf
  rw [if_neg, show copyName _ w.argument.bytes = _ from hr] at heq
  · exact ⟨r, heq, hkey, hparent⟩
  · rw [rmLine_blank]
    exact w.not_white

/-! ## Removing -/

theorem StandsAt.lookedIn (h : StandsAt π sh t) (name : List UInt8) (dirbuffer : ℕ → UInt8) :
    StandsAt π { sh with machine := lookedIn sh.machine sh.parentCluster name dirbuffer } t := by
  unfold Shell.lookedIn
  split
  · exact h
  · exact h.read (q := .readDirectory ⟨dirbuffer, dot, Vector.replicate 3 0, sh.parentCluster.toUInt32, 0⟩)
      ⟨_, .inr rfl⟩ (UInt16.toNat_toUInt32 _) rfl ⟨rfl, rfl, rfl, rfl⟩ rfl

theorem rm_eq {memory : ℕ → UInt8} {r : FAT32DriverRequest} {code : Int}
    (hr : rmRequest sh.machine (Command.rm w).line sh.parentCluster memory memory = some (some r))
    (hdelete : delete π (lookedIn sh.machine sh.parentCluster w.chars memory) r = some (code, s')) :
    ∃ text color, removedText code = .message text color ∧
      rm π sh (Command.rm w).line memory = some ({ sh with machine := s' }.puts text color) := by
  have hblank : (Command.rm w).line.blank ≠ true := fun hb => by
    unfold rmRequest at hr
    rw [if_pos hb] at hr
    cases hr
  have hargument := (words_rm w).stringAt_argument w.zero_notMem
  unfold rm removedText
  rw [if_neg hblank, (words_rm w).start]
  simp only [Option.bind_eq_bind, Option.bind_some, hargument, hr, hdelete]
  split_ifs
  · exact ⟨_, _, rfl, rfl⟩
  · exact ⟨_, _, rfl, rfl⟩

theorem rm_follows (h : StandsAt π sh t) (hprinted : sh.printed = []) (hP : t.Permitted π (.rm w))
    (memory : ℕ → UInt8) :
    Follows π t (.rm w) ((rm π sh (Command.rm w).line memory).map fun sh => (sh, [])) := by
  obtain ⟨v, ks⟩ := t
  have hl := h.lookedIn w.chars memory
  obtain ⟨hs, rfl⟩ := hl.holds
  obtain ⟨r, hr, hkey, hparent⟩ := w.rmRequest sh.machine sh.parentCluster memory memory
  have hname : r.name = w.key.1 := congrArg Prod.fst hkey
  have hp := hl.here
  rw [show sh.parentCluster.toNat = r.parent by rw [FAT32DriverRequest.parent, hparent, UInt16.toNat_toUInt32]] at hp
  obtain ⟨code, s', hdelete, hs', hkeeps, hv⟩ := hs.delete hp (fun hc => w.named (hname.symm.trans hc)) (by
    rw [hkey]
    exact hP)
  rw [Volume.delete_congr (r := w.request) hkey] at hv
  obtain ⟨text, color, hsaid, hrun⟩ := rm_eq hr hdelete
  refine ⟨_, [], by rw [hrun, Option.map_some], ?_, ?_⟩
  · show Output.Matches _ (removedText (replyCode (Volume.delete π _ ks w.request).1))
    rw [hv, show removedText (replyCode (.done code)) = _ from hsaid]
    exact matches_puts hprinted text color
  · refine (hl.changed (v := (Volume.delete π _ ks w.request).2) ⟨hs', by rw [hv]⟩ hkeeps ?_ ?_).puts text color
    · exact Volume.delete_node hl.folder w.key_ne_upKey hP
    · exact fun ls k hk => h.worded ls k (Volume.delete_children hk)

/-! ## Going up -/

/-- One folder less on the path: the cluster below the top of the stack is that of the folder above. -/
theorem StandsAt.popped (h : StandsAt π sh ⟨v, k :: ks⟩) :
    StandsAt π { sh with idx := sh.idx - 1, parentCluster := (cell sh.clusters (sh.idx - 1)).toUInt16 } ⟨v, ks⟩ := by
  have hidx : sh.idx = ks.length + 1 := h.idx
  have hbelow (i : ℕ) (hi : i ≤ ks.length) : sh.machine.disk.dirAt (ks.drop (ks.length - i)) =
      some (cell sh.clusters i).toNat := by
    have hstack := h.stack i (by omega)
    rwa [hidx, Nat.succ_sub hi] at hstack
  have habove := hbelow ks.length (Nat.le_refl _)
  rw [Nat.sub_self, List.drop_zero] at habove
  have hlt := (h.holds.1.toSound.liveDir_range (liveDir_of_dirAt habove)).2
  refine ⟨h.holds, h.worded, ?_, ?_, ?_, fun i hi => ?_⟩
  · have hroom : (k :: ks).length < 100 := h.room
    rw [List.length_cons] at hroom
    show ks.length < 100
    omega
  · show sh.idx - 1 = ks.length
    omega
  · show sh.machine.disk.dirAt ks = some (cell sh.clusters (sh.idx - 1)).toUInt16.toNat
    rw [habove, hidx, Nat.add_sub_cancel, UInt32.toNat_toUInt16, Nat.mod_eq_of_lt (by omega)]
  · have hi' : i ≤ sh.idx - 1 := hi
    show sh.machine.disk.dirAt (ks.drop (sh.idx - 1 - i)) = some (cell sh.clusters i).toNat
    rw [hidx, Nat.add_sub_cancel]
    exact hbelow i (by omega)

theorem up_follows (h : StandsAt π sh t) (hprinted : sh.printed = []) :
    Follows π t .up ((changeDirectory sh upLine).map fun sh => (sh, [])) := by
  have hclimbs : upLine.climbs = true := by decide +kernel
  have hidx := h.idx
  obtain ⟨v, ks⟩ := t
  unfold changeDirectory
  rw [if_pos hclimbs]
  match ks with
  | [] =>
    rw [if_pos (show sh.idx = 0 from hidx)]
    exact ⟨_, [], rfl, matches_puts hprinted _ _, h.puts _ _⟩
  | k :: ks =>
    have hsucc : sh.idx = ks.length + 1 := hidx
    rw [if_neg (by omega)]
    exact ⟨_, [], rfl, matches_puts hprinted _ _, h.popped.puts _ _⟩

/-! ## Going down -/

theorem components_word {l : List UInt8} (hne : l ≠ []) (h : splitter ∉ l) : components l = [l] := by
  induction l with
  | nil => exact absurd rfl hne
  | cons a l ih =>
    rw [List.mem_cons, not_or] at h
    unfold components
    rw [if_neg (Ne.symm h.1)]
    by_cases hl : l = []
    · rw [hl]
      rfl
    · rw [ih hl h.2]

/-- The path of the line has the word for its one component. -/
theorem Word.cd_component (w : Word) : ends w.cdLine.buffer 3 = false ∧
    currentLen w.cdLine.buffer 3 = w.chars.length ∧ folderName w.cdLine.buffer 3 w.chars.length = w.key.1 ∧
      strlen w.cdLine.buffer (3 + UInt8.ofNat (w.chars.length + 1)).toNat = 0 := by
  have hlen := w.length_le
  have hpath : stringAt w.cdLine.buffer (3 : UInt8).toNat = w.chars := (words_cd w).stringAt_argument w.zero_notMem
  have hone := components_word w.ne_nil (w.notMem (by decide))
  obtain ⟨hends, hcurrent, hname⟩ := found_component hpath hone (.inl (by omega))
  have hnext : (3 + UInt8.ofNat (w.chars.length + 1)).toNat = w.chars.length + 4 := by
    rw [UInt8.toNat_add, UInt8.toNat_ofNat', show (3 : UInt8).toNat = 3 from rfl]
    omega
  refine ⟨hends, hcurrent, hname, ?_⟩
  rw [hnext, strlen_eq_zero]
  refine ((words_cd w).cells _).trans (List.getD_eq_default _ _ ?_)
  simp only [List.length_append, List.length_cons, List.length_nil]
  omega

theorem Word.cdLine_climbs (w : Word) : w.cdLine.climbs = false := by
  rw [Bool.eq_false_iff, ne_eq, Line.climbs_iff]
  rintro ⟨h, -⟩
  obtain ⟨a, l, hl⟩ := List.exists_cons_of_ne_nil w.ne_nil
  have hcell := (words_cd w).cell_argument 0
  rw [hl] at hcell
  refine w.notMem (x := dotByte) (by decide) ?_
  rw [hl, ← show (46 : UInt8) = a from h.symm.trans hcell]
  exact List.mem_cons_self

theorem Word.cdLine_blank (w : Word) : w.cdLine.blank = false :=
  Bool.eq_false_iff.2 fun h => w.not_white (((words_cd w).blank_iff w.zero_notMem (w.notMem (by decide))).1 h)

section

variable {c c' : UInt16} {name : Vector UInt8 8}

theorem readDirectoryInterface_machine (sh : State) (name : Vector UInt8 8) (c : UInt16) :
    (readDirectoryInterface sh name c).2.machine = (readDirectory sh.machine (nameRequest sh name c)).machine := by
  unfold readDirectoryInterface checkDirectory
  simp only
  split <;> rfl

/-- Nothing is printed where nothing is found. -/
theorem readDirectoryInterface_unfound (h : lookUp sh.machine.disk c.toNat name = none) :
    (readDirectoryInterface sh name c).1 ≠ 0 ∧ (readDirectoryInterface sh name c).2.printed = sh.printed := by
  have hcode : (readDirectory sh.machine (nameRequest sh name c)).code = 2 :=
    readDirectory_none (by rw [place_nameRequest]; exact h)
  unfold readDirectoryInterface checkDirectory
  rw [if_neg fun hc => absurd (hcode.symm.trans hc.1) (by decide)]
  refine ⟨?_, rfl⟩
  show (readDirectory sh.machine (nameRequest sh name c)).code ≠ 0
  rw [hcode]
  decide

/-- Nothing is printed where a directory is found. -/
theorem readDirectoryInterface_printed (h : entered sh.machine.disk name c = some c') :
    (readDirectoryInterface sh name c).2.printed = sh.printed := by
  obtain ⟨hcode, -⟩ := readDirectoryInterface_some rfl h
  unfold readDirectoryInterface checkDirectory at hcode ⊢
  simp only at hcode ⊢
  split at hcode
  · exact absurd (show (-1 : Int) = 0 from hcode) (by decide)
  · rename_i hmark
    rw [if_neg hmark]

/-- Where the string ends the loop ends. -/
theorem walkLoop_stop {b : Vector UInt8 256} {p : UInt8} (n : ℕ) (x : Walk) (h : strlen b p.toNat = 0) :
    walkLoop b (n + 1) p x = some x := by
  rw [walkLoop, if_pos (by omega)]

/-- A word that leads nowhere. -/
theorem changeDirectory_unfound (h : lookUp sh.machine.disk sh.parentCluster.toNat w.key.1 = none) :
    changeDirectory sh w.cdLine =
      some ((readDirectoryInterface sh w.key.1 sh.parentCluster).2.puts "Directory not found!" 0x4) := by
  obtain ⟨hcode, -⟩ := readDirectoryInterface_unfound h
  obtain ⟨hends, hlen, hname, -⟩ := w.cd_component
  generalize hreply : readDirectoryInterface sh w.key.1 sh.parentCluster = reply at hcode ⊢
  have hloop : walkLoop w.cdLine.buffer (2 ^ 24) 3 ⟨sh, 0, sh.parentCluster, false⟩ =
      some ⟨reply.2, reply.1, sh.parentCluster, false⟩ := by
    refine (walkLoop_round (w := ⟨sh, 0, sh.parentCluster, false⟩) 16777215 rfl hends).trans ?_
    rw [hlen, hname]
    simp only [hreply]
    rw [if_pos hcode]
  unfold changeDirectory
  rw [w.cdLine_climbs, w.cdLine_blank, hloop]
  rfl

/-- A word that leads to a directory. -/
theorem changeDirectory_found (h : entered sh.machine.disk w.key.1 sh.parentCluster = some c) :
    changeDirectory sh w.cdLine =
      let sh₁ := (readDirectoryInterface sh w.key.1 sh.parentCluster).2
      some ({ sh₁ with
        idx := sh₁.idx + 1
        clusters := store sh₁.clusters (sh₁.idx + 1) c.toUInt32
        parentCluster := c }.puts "Successfully changed directory." 0xF) := by
  obtain ⟨hcode, hnamed, hcluster⟩ := readDirectoryInterface_some rfl h
  obtain ⟨hends, hlen, hname, hstop⟩ := w.cd_component
  generalize hreply : readDirectoryInterface sh w.key.1 sh.parentCluster = reply at hcode hnamed hcluster ⊢
  have hloop : walkLoop w.cdLine.buffer (2 ^ 24) 3 ⟨sh, 0, sh.parentCluster, false⟩ =
      some ⟨reply.2, reply.1, c, true⟩ := by
    refine (walkLoop_round (w := ⟨sh, 0, sh.parentCluster, false⟩) 16777215 rfl hends).trans ?_
    rw [hlen, hname]
    simp only [hreply]
    rw [if_neg (not_not_intro hcode), if_pos hnamed, hcluster]
    exact walkLoop_stop 16777214 _ hstop
  unfold changeDirectory
  rw [w.cdLine_climbs, w.cdLine_blank, hloop]
  simp only [Bool.false_eq_true, if_false, Option.bind_eq_bind, Option.bind_some, Bool.not_true, hcode, if_true]

end

namespace StandsAt

variable (h : StandsAt π sh t)
include h

/-- The two look-ups agree about words. -/
theorem lookUp (w : Word) : Disk.lookUp sh.machine.disk sh.parentCluster.toNat w.key.1 =
    sh.machine.disk.find sh.parentCluster.toNat w.key := by
  obtain ⟨hs, hv⟩ := h.holds
  have hlive := liveDir_of_dirAt h.here
  rcases hl : Disk.lookUp sh.machine.disk sh.parentCluster.toNat w.key.1 with _ | i
  · rw [Disk.lookUp, if_neg w.name_ne_dot] at hl
    refine ((find_eq_none hlive).2 fun i he hk => ?_).symm
    have hlo := he.lo
    exact of_decide_eq_false (first_eq_none.1 hl i (by omega) he.hi) (congrArg Prod.fst hk)
  · obtain ⟨he, hname⟩ := lookUp_entry hs.toSound hs.keyed hlive w.named w.name_ne_dot w.name_ne_dotDot hl
    obtain ⟨w', hw'⟩ := h.worded t.path (sh.machine.disk.slot sh.parentCluster.toNat i).key (by
      rw [← hv]
      exact (mem_children h.here).2 ⟨i, he, rfl⟩)
    refine ((hs.names.find_iff hlive).2 ⟨he, ?_⟩).symm
    rw [← hw']
    exact Prod.ext ((congrArg Prod.fst hw').trans hname) rfl

/-- A folder under a word is gone into. -/
theorem entered {p : ℕ} (hdir : sh.machine.disk.dirAt (w.key :: t.path) = some p) :
    ∃ c, Shell.entered sh.machine.disk w.key.1 sh.parentCluster = some c ∧ c.toNat = p := by
  have hs := h.holds.1
  have hlt := (hs.toSound.liveDir_range (liveDir_of_dirAt hdir)).2
  have hself := hs.dirs.self p (liveDir_of_dirAt hdir)
  obtain ⟨q, i, hq, hi, hf, rfl⟩ := exists_of_dirAt_cons hdir
  obtain rfl := Option.some.inj (h.here.symm.trans hq)
  obtain ⟨he, hkey⟩ := find_some hi (liveDir_of_dirAt h.here)
  -- its name begins with a character of the word
  have hmark :
      cell (sh.machine.disk.slot (sh.machine.disk.slot sh.parentCluster.toNat i).cluster.toNat 0).name 0 ∈ w.chars := by
    rw [show FAT32DirectoryEntry.name _ = w.key.1 from congrArg Prod.fst ((hs.keyed.own _ _ he hf).trans hkey)]
    exact w.first_mem
  have hent : Shell.entered sh.machine.disk w.key.1 sh.parentCluster =
      some (sh.machine.disk.slot (sh.machine.disk.slot sh.parentCluster.toNat i).cluster.toNat 0).cluster.toUInt16 := by
    rw [entered_eq ((h.lookUp w).trans hi), place_of_lt (by omega), if_neg]
    rintro (hc | hc)
    · exact w.notMem (x := 0xE5) (by decide) (hc ▸ hmark)
    · exact w.zero_notMem (hc ▸ hmark)
  refine ⟨_, hent, ?_⟩
  rw [UInt32.toNat_toUInt16, hself, Nat.mod_eq_of_lt (by omega)]

/-- One folder more on the path. -/
theorem pushed {c : UInt16} (hroom : t.path.length < 99) (hdir : sh.machine.disk.dirAt (k :: t.path) = some c.toNat) :
    StandsAt π { sh with idx := sh.idx + 1, clusters := store sh.clusters (sh.idx + 1) c.toUInt32, parentCluster := c }
      ⟨t.volume, k :: t.path⟩ := by
  have hidx := h.idx
  refine ⟨h.holds, h.worded, ?_, ?_, hdir, fun i hi => ?_⟩
  · rw [List.length_cons]
    omega
  · show sh.idx + 1 = (k :: t.path).length
    rw [hidx, List.length_cons]
  · have hi : i ≤ sh.idx + 1 := hi
    show sh.machine.disk.dirAt ((k :: t.path).drop (sh.idx + 1 - i)) =
      some (cell (store sh.clusters (sh.idx + 1) c.toUInt32) i).toNat
    rcases Nat.lt_or_eq_of_le hi with hlt | rfl
    · rw [cell_store_ne _ _ (by omega), show sh.idx + 1 - i = sh.idx - i + 1 by omega]
      exact h.stack i (by omega)
    · rw [Nat.sub_self, cell_store_self _ _ (by omega), UInt16.toNat_toUInt32]
      exact hdir

end StandsAt

theorem cd_follows (h : StandsAt π sh t) (hprinted : sh.printed = []) (hP : t.Permitted π (.cd w)) :
    Follows π t (.cd w) ((changeDirectory sh w.cdLine).map fun sh => (sh, [])) := by
  obtain ⟨hroom, hfile⟩ := hP
  have hnode : t.volume.tree.node (w.key :: t.path) = sh.machine.disk.nodeAt (w.key :: t.path) := by
    rw [← h.holds.2, volumeOf_node]
  have hread : StandsAt π (readDirectoryInterface sh w.key.1 sh.parentCluster).2 t :=
    h.read (q := .readDirectory (nameRequest sh w.key.1 sh.parentCluster)) ⟨_, .inr rfl⟩ (UInt16.toNat_toUInt32 _) rfl
      (readDirectoryInterface_unmoved _ _ _) (readDirectoryInterface_machine _ _ _)
  have hdisk := (readDirectoryInterface_unmoved sh w.key.1 sh.parentCluster).disk
  unfold Follows
  by_cases hf : t.volume.tree.node (w.key :: t.path) = some .folder
  · obtain ⟨p, hdir⟩ := nodeAt_eq_folder.1 (hnode.symm.trans hf)
    obtain ⟨c, hc, rfl⟩ := h.entered hdir
    rw [Session.serve_cd hf, changeDirectory_found hc]
    have hempty := (readDirectoryInterface_printed hc).trans hprinted
    exact ⟨_, [], rfl, matches_puts hempty _ _, (hread.pushed hroom (by rw [hdisk]; exact hdir)).puts _ _⟩
  · have hnone : sh.machine.disk.nodeAt (w.key :: t.path) = none := by
      rw [← hnode]
      rcases hn : t.volume.tree.node (w.key :: t.path) with _ | _ | bytes
      · rfl
      · exact absurd hn hf
      · exact absurd hn (hfile bytes)
    rw [nodeAt, h.here, Option.map_eq_none_iff, entryIn_eq_none, ← h.lookUp w] at hnone
    rw [Session.serve_cd_unfound hf, changeDirectory_unfound hnone]
    have hempty := (readDirectoryInterface_unfound hnone).2.trans hprinted
    exact ⟨_, [], rfl, matches_puts hempty _ _, hread.puts _ _⟩

/-! ## Showing a file -/

/-- The request of `cat`. -/
theorem Word.catRequest (w : Word) (parentCluster : UInt16) (buf : ℕ → UInt8) :
    ∃ r, catRequest (Command.cat w).line parentCluster buf = some r ∧ r.key = w.key ∧
      r.parentClusterNumber = parentCluster.toUInt32 ∧ r.bufferSize = 8192 := by
  have hlen := w.length_le
  obtain ⟨hbase, hafter⟩ := w.base_argument
  have hext : extOf [] = Vector.replicate 3 0 := by decide
  obtain ⟨r, hr, hcopied⟩ := copyName_spec ⟨buf, Vector.replicate 8 0, Vector.replicate 3 0,
    parentCluster.toUInt32, 8192⟩
    (show w.chars.length ≤ 19 by omega)
  obtain ⟨hkey, hparent, hsize, -⟩ := hcopied.word rfl rfl
  have heq := catRequest_eq w.argument parentCluster buf
  rw [show w.argument.bytes = w.chars from rfl, hbase, hafter, hext] at heq
  exact ⟨r, heq.trans hr, hkey, hparent, hsize⟩

section

variable {r : FAT32DriverRequest} (hr : catRequest (Command.cat w).line sh.parentCluster (fun _ => 0) = some r)
include hr

theorem cat_shown (hcode : (read π sh.machine r).code = 0) : cat π sh (Command.cat w).line =
    some ({ sh with machine := (read π sh.machine r).machine }, [(List.range 2048).map (read π sh.machine r).buf,
      (List.range' 2048 2048).map (read π sh.machine r).buf, [newline]]) := by
  have hanswered : answered 0 0 = 0 := by decide
  unfold cat
  rw [hr]
  simp only [Option.bind_eq_bind, Option.bind_some, hcode, hanswered]
  rfl

theorem cat_unfound (hcode : (read π sh.machine r).code = 2) : cat π sh (Command.cat w).line =
    some ({ sh with machine := (read π sh.machine r).machine }.puts "Can't find the file!" 0x4, []) := by
  have hanswered : answered 0 2 = 2 := by decide
  unfold cat
  rw [hr]
  simp only [Option.bind_eq_bind, Option.bind_some, hcode, hanswered]
  rfl

end

/-- A buffer that begins with a file begins with what is printed of it. -/
theorem take_prefix_printed {bytes : List UInt8} {buf : ℕ → UInt8} (h : (List.range bytes.length).map buf = bytes) :
    bytes.take 4096 <+: [(List.range 2048).map buf, (List.range' 2048 2048).map buf, [newline]].flatten := by
  have hprinted : [(List.range 2048).map buf, (List.range' 2048 2048).map buf, [newline]].flatten =
      (List.range 4096).map buf ++ [newline] := by
    rw [List.range_eq_range', List.range_eq_range', show 4096 = 2048 + 2048 from rfl, ← List.range'_append_1,
      List.map_append]
    simp
  have htake : bytes.take 4096 = ((List.range 4096).map buf).take bytes.length := by
    conv_lhs => rw [← h]
    rw [← List.map_take, ← List.map_take, List.take_range, List.take_range, Nat.min_comm]
  rw [hprinted, htake]
  exact (List.take_prefix _ _).trans (List.prefix_append _ _)

theorem cat_follows (h : StandsAt π sh t) (hprinted : sh.printed = []) (hP : t.Permitted π (.cat w)) :
    Follows π t (.cat w) (cat π sh (Command.cat w).line) := by
  obtain ⟨hown, hfolder, -⟩ := hP
  obtain ⟨hs, hv⟩ := h.holds
  obtain ⟨r, hr, hkey, hparent, hsize⟩ := w.catRequest sh.parentCluster fun _ => 0
  have hp : r.parent = sh.parentCluster.toNat := by
    rw [FAT32DriverRequest.parent, hparent, UInt16.toNat_toUInt32]
  have hdir := h.here
  rw [← hp] at hdir
  have hM := hs.read hdir fun hc => w.named ((congrArg Prod.fst hkey).symm.trans hc)
  have hafter : StandsAt π { sh with machine := (read π sh.machine r).machine } t :=
    h.read (q := .read r) ⟨_, .inl rfl⟩ hp rfl ⟨rfl, rfl, rfl,
      (error_keeps_disk (q := .read r) rfl).2 ⟨_, .inl rfl⟩⟩ rfl
  rw [hv] at hM
  unfold Volume.read Volume.resolve at hM
  rw [hkey, if_neg hown, if_neg w.key_ne_upKey] at hM
  unfold Follows
  rcases hnode : t.volume.tree.node (w.key :: t.path) with _ | _ | bytes
  · rw [hnode] at hM
    rw [Session.serve_cat_unfound hnode, cat_unfound hr hM]
    exact ⟨_, [], rfl, matches_puts hprinted _ _, hafter.puts _ _⟩
  · exact absurd hnode hfolder
  · rw [hnode, Option.map_some] at hM
    simp only at hM
    rw [if_neg (by rw [hsize]; decide), Volume.contents, hnode] at hM
    obtain ⟨hcode, hbytes⟩ := hM
    rw [Session.serve_cat hnode, cat_shown hr hcode]
    exact ⟨_, _, rfl, ⟨hprinted, take_prefix_printed hbytes⟩, hafter⟩

end BebasOs.Shell
