/-
The requests that `cat` and `rm` make of their argument. `cat` goes through it up to the first dot, takes what
follows for the extension, and copies what it went through over the fields of the packed request, from the name on;
`rm` copies the whole argument there. So they ask for one file exactly for short names without an extension, and by
luck for some arguments that write the cluster number of the directory over itself.
-/
import Mathlib.Data.List.TakeWhile
import BebasOs.Shell.Arguments

namespace BebasOs.Shell

open Bytes Search Fat32 Disk

/-! ## Requests -/

def dotByte : UInt8 := 46

/-- The bytes of the packed request from `name` to its end. -/
def requestBytes (r : FAT32DriverRequest) : Vector UInt8 19 :=
  r.name ++ (r.ext ++ (u32 r.parentClusterNumber ++ u32 r.bufferSize))

/-- The request with other bytes from `name` on. -/
def withBytes (r : FAT32DriverRequest) (v : Vector UInt8 19) : FAT32DriverRequest :=
  { r with
    name := Vector.ofFn fun i => v[i.1]
    ext := Vector.ofFn fun i => v[8 + i.1]
    parentClusterNumber := u32.symm (Vector.ofFn fun i => v[11 + i.1])
    bufferSize := u32.symm (Vector.ofFn fun i => v[15 + i.1]) }

/-- `memcpy(request.name, src, n)`; there is nothing of the request behind its 19 bytes. -/
def copyName (r : FAT32DriverRequest) (src : List UInt8) : Option FAT32DriverRequest :=
  if src.length ≤ 19 then some (withBytes r (overwrite src (requestBytes r))) else none

/-- `nameLen` after the loop over the string at an offset: the offset of its first dot in it, or its length. -/
def nameLen (buffer : Vector UInt8 256) (p : ℕ) : ℕ :=
  (first (fun i => cell buffer (p + i) == dotByte) 0 (strlen buffer p)).getD (strlen buffer p)

/-- The loop over the string at an offset, and the `memcpy` after it, which `cat`, `cp` and `mv` share. -/
def fillName (buffer : Vector UInt8 256) (p : ℕ) (r : FAT32DriverRequest) : Option FAT32DriverRequest :=
  let len := nameLen buffer p
  let ext := #v[cell buffer (p + len + 1), cell buffer (p + len + 2), cell buffer (p + len + 3)]
  copyName (if len < strlen buffer p then { r with ext := ext } else r) ((List.range' p len).map (cell buffer))

/-- The request of `cat`; `buf` is what the memory holds from `cl_b` on. -/
def catRequest (line : Line) (parentCluster : UInt16) (buf : ℕ → UInt8) : Option FAT32DriverRequest := do
  fillName line.buffer (← line.argument.start)
    ⟨buf, Vector.replicate 8 0, Vector.replicate 3 0, parentCluster.toUInt32, 2048 * 4⟩

/-- `is_in_directory`, which never looks for the name; `dirbuffer` is what the memory holds there. -/
def isInDirectory (s : Machine) (parentCluster : UInt16) (name : List UInt8) (dirbuffer : ℕ → UInt8) : Bool :=
  if strcmp name [47] = 0 ∨ strcmp name [] = 0 then true
  else (readDirectory s ⟨dirbuffer, dot, Vector.replicate 3 0, parentCluster.toUInt32, 0⟩).code == 0

/-- The request of `rm`, if it makes one; `buf` is what the memory holds from address 0 on. -/
def rmRequest (s : Machine) (line : Line) (parentCluster : UInt16) (dirbuffer buf : ℕ → UInt8) :
    Option (Option FAT32DriverRequest) :=
  if line.blank then some none
  else do
    let argument := stringAt line.buffer (← line.argument.start)
    if isInDirectory s parentCluster argument dirbuffer then do
      return some (← copyName ⟨buf, Vector.replicate 8 0, Vector.replicate 3 0, parentCluster.toUInt32, 0⟩ argument)
    else return none

/-! ## Fields -/

variable {r : FAT32DriverRequest} {src : List UInt8} {b : Vector UInt8 256} {p i : ℕ}

/-- What a copy of at most 19 bytes from `name` on leaves in each field. -/
structure Copied (r r' : FAT32DriverRequest) (src : List UInt8) : Prop where
  buf : r'.buf = r.buf
  name : ∀ i < 8, cell r'.name i = src.getD i (cell r.name i)
  ext : ∀ i < 3, cell r'.ext i = src.getD (8 + i) (cell r.ext i)
  parent : ∀ i < 4, cell (u32 r'.parentClusterNumber) i = src.getD (11 + i) (cell (u32 r.parentClusterNumber) i)
  size : ∀ i < 4, cell (u32 r'.bufferSize) i = src.getD (15 + i) (cell (u32 r.bufferSize) i)

theorem copyName_spec (r : FAT32DriverRequest) (h : src.length ≤ 19) :
    ∃ r', copyName r src = some r' ∧ Copied r r' src := by
  have hcell (i : ℕ) (hi : i < 19) : cell (overwrite src (requestBytes r)) i = src.getD i (cell (requestBytes r) i) :=
    cell_overwrite src _ hi
  have hbytes (i : ℕ) : cell (requestBytes r) i = if i < 8 then cell r.name i else if i - 8 < 3 then cell r.ext (i - 8)
      else if i - 8 - 3 < 4 then cell (u32 r.parentClusterNumber) (i - 8 - 3)
      else cell (u32 r.bufferSize) (i - 8 - 3 - 4) := by
    unfold requestBytes
    rw [cell_append, cell_append, cell_append]
  refine ⟨withBytes r (overwrite src (requestBytes r)), if_pos h, rfl, fun i hi => ?_, fun i hi => ?_, fun i hi => ?_,
    fun i hi => ?_⟩
  · refine (cell_ofFn hi).trans ?_
    rw [← cell_of_lt _ (by omega), hcell i (by omega), hbytes, if_pos hi]
  · refine (cell_ofFn hi).trans ?_
    rw [← cell_of_lt _ (by omega), hcell (8 + i) (by omega), hbytes, if_neg (by omega), if_pos (by omega),
      Nat.add_sub_cancel_left]
  · show cell (u32 (u32.symm _)) i = _
    rw [Equiv.apply_symm_apply, cell_ofFn hi, ← cell_of_lt _ (by omega), hcell (11 + i) (by omega), hbytes,
      if_neg (by omega), if_neg (by omega), if_pos (by omega)]
    congr 2
    omega
  · show cell (u32 (u32.symm _)) i = _
    rw [Equiv.apply_symm_apply, cell_ofFn hi, ← cell_of_lt _ (by omega), hcell (15 + i) (by omega), hbytes,
      if_neg (by omega), if_neg (by omega), if_neg (by omega)]
    congr 2
    omega

/-! ## Lines -/

/-- A buffer holds a text, and null bytes behind it. -/
def Holds (b : Vector UInt8 256) (text : List UInt8) : Prop := ∀ i, cell b i = text.getD i 0

/-- The line with a text in it. -/
def lineWith (text : List UInt8) (h : text.length < 256) : Line where
  bytes := overwrite text (Vector.replicate 256 0)
  last := by
    rw [cell_overwrite _ _ (by decide), List.getD_eq_default _ _ (by omega)]
    exact Vector.getElem_replicate (by decide)

theorem holds_lineWith {text : List UInt8} (h : text.length < 256) : Holds (lineWith text h).bytes text := by
  intro i
  by_cases hi : i < 256
  · refine (cell_overwrite _ _ hi).trans ?_
    rw [cell_of_lt _ hi, Vector.getElem_replicate]
  · rw [List.getD_eq_default _ _ (by omega)]
    exact dif_neg hi

theorem getD_word {pre word tail : List UInt8} (h : i < word.length) :
    (pre ++ (word ++ tail)).getD (pre.length + i) 0 = word.getD i 0 := by
  rw [List.getD_append_right _ _ _ _ (Nat.le_add_right _ _), Nat.add_sub_cancel_left, List.getD_append _ _ _ _ h]

theorem getD_tail {pre word tail : List UInt8} (j : ℕ) :
    (pre ++ (word ++ tail)).getD (pre.length + word.length + j) 0 = tail.getD j 0 := by
  rw [Nat.add_assoc, List.getD_append_right _ _ _ _ (Nat.le_add_right _ _), Nat.add_sub_cancel_left,
    List.getD_append_right _ _ _ _ (Nat.le_add_right _ _), Nat.add_sub_cancel_left]

theorem getD_mem {l : List UInt8} (h : i < l.length) : l.getD i 0 ∈ l := by
  rw [List.getD_eq_getElem _ _ h]
  exact List.getElem_mem h

/-- A null byte at the end of a text makes no difference. -/
theorem getD_null (l : List UInt8) (i : ℕ) : (l ++ [0]).getD i 0 = l.getD i 0 := by
  by_cases hi : i < l.length
  · exact List.getD_append _ _ _ _ hi
  · rw [List.getD_eq_default l _ (by omega), List.getD_append_right _ _ _ _ (by omega)]
    rcases Nat.eq_zero_or_pos (i - l.length) with h | h
    · rw [h]
      rfl
    · exact List.getD_eq_default _ _ h

/-- A call of `strtok` on a word that a space or the end of the text ends: the space is made a null byte. -/
theorem strtok_word {word tail : List UInt8} (pre : List UInt8) (nextToken str : Option ℕ)
    (hb : Holds b (pre ++ (word ++ tail))) (hlt : (pre ++ (word ++ tail)).length < 256)
    (hword : ∀ x ∈ word, x ≠ 0 ∧ x ≠ 32) (htail : tail = [] ∨ ∃ rest, tail = 32 :: rest)
    (hstr : (str <|> nextToken) = some pre.length) :
    ∃ b' next, strtok b nextToken str [32] = ⟨some pre.length, b', some next⟩ ∧
      Holds b' (pre ++ (word ++ 0 :: tail.drop 1)) ∧ (tail ≠ [] → next = pre.length + word.length + 1) := by
  rw [List.length_append, List.length_append] at hlt
  have hgo (i : ℕ) (h1 : pre.length ≤ i) (h2 : i < pre.length + word.length) : cell b i ≠ 0 ∧ cell b i ∉ [32] := by
    obtain ⟨j, rfl⟩ := Nat.exists_eq_add_of_le h1
    have hj : j < word.length := by omega
    obtain ⟨hne, hnospace⟩ := hword _ (getD_mem hj)
    rw [hb, getD_word hj, List.mem_singleton]
    exact ⟨hne, hnospace⟩
  have hstop : cell b (pre.length + word.length) = tail.getD 0 0 := by
    rw [hb]
    exact getD_tail 0
  rcases htail with rfl | ⟨rest, rfl⟩
  · have hnull : cell b (pre.length + word.length) = 0 := hstop
    rw [List.length_nil] at hlt
    have htoken := strtok_eq (pre.length + word.length) hstr (by omega) (Nat.le_add_right _ _) hgo (.inl hnull)
    rw [if_pos hnull] at htoken
    refine ⟨b, _, htoken, fun i => ?_, fun h => absurd rfl h⟩
    rw [hb, List.append_nil, List.drop_nil, ← List.append_assoc, getD_null]
  · have hspace : cell b (pre.length + word.length) ≠ 0 := by
      rw [hstop]
      show (32 : UInt8) ≠ 0
      decide
    have hin : cell b (pre.length + word.length) ∈ [(32 : UInt8)] := by
      rw [hstop]
      exact List.mem_singleton_self _
    rw [List.length_cons] at hlt
    have htoken := strtok_eq (pre.length + word.length) hstr (by omega) (Nat.le_add_right _ _) hgo (.inr hin)
    rw [if_neg hspace] at htoken
    refine ⟨_, _, htoken, fun i => ?_, fun _ => rfl⟩
    rw [cell_store _ _ _ (by omega), hb, ← List.append_assoc, ← List.append_assoc]
    have hlen : (pre ++ word).length = pre.length + word.length := List.length_append
    rcases Nat.lt_trichotomy i (pre.length + word.length) with h | h | h
    · rw [if_neg (by omega), List.getD_append (pre ++ word) _ _ _ (by omega),
        List.getD_append (pre ++ word) _ _ _ (by omega)]
    · rw [if_pos h, List.getD_append_right _ _ _ _ (by omega), h, hlen, Nat.sub_self]
      rfl
    · rw [if_neg (by omega), List.getD_append_right _ _ _ _ (by omega), List.getD_append_right _ _ _ _ (by omega)]
      obtain ⟨j, hj⟩ := Nat.exists_eq_add_of_lt h
      rw [hlen, hj, show pre.length + word.length + j + 1 - (pre.length + word.length) = j + 1 by omega]
      rfl

variable {line : Line} {command argument rest : List UInt8}

/-- Both calls of `strtok` are done on a line: its command, its argument, and what follows, after a null byte each. -/
structure Words (line : Line) (command argument rest : List UInt8) : Prop where
  start : line.argument.start = some (command.length + 1)
  cells : Holds line.buffer (command ++ 0 :: (argument ++ 0 :: rest))

theorem words_lineWith {tail : List UInt8} (h : (command ++ 32 :: (argument ++ tail)).length < 256)
    (hc : ∀ x ∈ command, x ≠ 0 ∧ x ≠ 32) (ha : ∀ x ∈ argument, x ≠ 0 ∧ x ≠ 32)
    (ht : tail = [] ∨ ∃ rest, tail = 32 :: rest) : Words (lineWith _ h) command argument (tail.drop 1) := by
  obtain ⟨b, next, hcommand, hb, hnext⟩ := strtok_word [] none (some 0) (holds_lineWith h) h hc
    (.inr ⟨_, rfl⟩) rfl
  obtain rfl : next = command.length + 1 := by
    rw [hnext (List.cons_ne_nil _ _), List.length_nil, Nat.zero_add]
  have hpre : command ++ 0 :: (argument ++ tail) = (command ++ [0]) ++ (argument ++ tail) := by
    rw [List.append_assoc, List.singleton_append]
  rw [List.nil_append, List.drop_one, List.tail_cons, hpre] at hb
  have hlen : ((command ++ [0]) ++ (argument ++ tail)).length < 256 := by
    rw [← hpre]
    rw [List.length_append, List.length_cons] at h ⊢
    exact h
  obtain ⟨b', next', hargument, hb', -⟩ := strtok_word (command ++ [0]) (some (command.length + 1)) none
    hb hlen ha ht (by rw [List.length_append, List.length_singleton]; rfl)
  have htoken : (lineWith _ h).argument = ⟨some (command ++ [0]).length, b', some next'⟩ := by
    unfold Line.argument Line.command
    rw [hcommand]
    exact hargument
  refine ⟨?_, ?_⟩
  · rw [htoken, List.length_append, List.length_singleton]
  · unfold Line.buffer
    rw [htoken]
    rw [List.append_assoc, List.singleton_append] at hb'
    exact hb'

/-! ## The loop up to the dot -/

/-- The characters of an argument before its first dot. -/
def base (argument : List UInt8) : List UInt8 := argument.takeWhile (· ≠ dotByte)

/-- The characters of an argument behind its first dot. -/
def afterDot (argument : List UInt8) : List UInt8 := (argument.dropWhile (· ≠ dotByte)).drop 1

theorem dot_notMem_base (argument : List UInt8) : dotByte ∉ base argument := fun h =>
  absurd (List.mem_takeWhile_imp h) (by simp)

/-- An argument is all before the dot, or cut by it. -/
theorem base_or (argument : List UInt8) : (dotByte ∉ argument ∧ base argument = argument ∧ afterDot argument = []) ∨
    (dotByte ∈ argument ∧ argument = base argument ++ dotByte :: afterDot argument) := by
  induction argument with
  | nil => exact .inl ⟨List.not_mem_nil, rfl, rfl⟩
  | cons x argument ih =>
    by_cases hx : x = dotByte
    · subst hx
      refine .inr ⟨List.mem_cons_self, ?_⟩
      simp [base, afterDot]
    · have hbase : base (x :: argument) = x :: base argument := by simp [base, hx]
      have hafter : afterDot (x :: argument) = afterDot argument := by simp [afterDot, hx]
      rw [hbase, hafter]
      rcases ih with ⟨hno, hb, ha⟩ | ⟨hin, heq⟩
      · refine .inl ⟨?_, by rw [hb], ha⟩
        rw [List.mem_cons, not_or]
        exact ⟨fun h => hx h.symm, hno⟩
      · exact .inr ⟨List.mem_cons_of_mem _ hin, by rw [List.cons_append, ← heq]⟩

theorem Words.cell_argument (hw : Words line command argument rest) (i : ℕ) :
    cell line.buffer (command.length + 1 + i) = (argument ++ 0 :: rest).getD i 0 := by
  rw [hw.cells, List.getD_append_right _ _ _ _ (by omega),
    show command.length + 1 + i - command.length = i + 1 by omega]
  rfl

theorem Words.stringAt_argument (hw : Words line command argument rest) (h0 : 0 ∉ argument) :
    stringAt line.buffer (command.length + 1) = argument := by
  refine stringAt_eq h0 fun i hi => ?_
  rw [hw.cell_argument]
  rcases Nat.lt_or_eq_of_le hi with hlt | rfl
  · exact List.getD_append _ _ _ _ hlt
  · rw [List.getD_append_right _ _ _ _ (Nat.le_refl _), Nat.sub_self, List.getD_eq_default _ _ (Nat.le_refl _)]
    rfl

theorem Words.strlen_argument (hw : Words line command argument rest) (h0 : 0 ∉ argument) :
    strlen line.buffer (command.length + 1) = argument.length := by
  rw [← length_stringAt, hw.stringAt_argument h0]

/-- The loop goes through what stands before the dot. -/
theorem Words.nameLen_eq (hw : Words line command argument rest) (h0 : 0 ∉ argument) :
    nameLen line.buffer (command.length + 1) = (base argument).length := by
  have hcell (i : ℕ) (hi : i < argument.length) : cell line.buffer (command.length + 1 + i) = argument[i] := by
    rw [hw.cell_argument, List.getD_append _ _ _ _ hi, List.getD_eq_getElem _ _ hi]
  unfold nameLen
  rw [hw.strlen_argument h0]
  rcases base_or argument with ⟨hno, hb, -⟩ | ⟨hin, heq⟩
  · have hnone : first (fun i => cell line.buffer (command.length + 1 + i) == dotByte) 0 argument.length = none := by
      refine first_eq_none.2 fun i _ hi => ?_
      rw [hcell i hi, beq_eq_false_iff_ne]
      exact fun he => hno (he ▸ List.getElem_mem hi)
    rw [hnone, hb]
    rfl
  · have hlen : (base argument).length < argument.length := by
      conv_rhs => rw [heq]
      rw [List.length_append, List.length_cons]
      omega
    have hsome : first (fun i => cell line.buffer (command.length + 1 + i) == dotByte) 0 argument.length =
        some (base argument).length := by
      refine first_eq_some.2 ⟨Nat.zero_le _, hlen, ?_, fun i _ hi => ?_⟩
      · rw [hcell _ hlen, beq_iff_eq]
        rw [List.getElem_of_eq heq, List.getElem_append_right (Nat.le_refl _)]
        simp
      · rw [hcell i (by omega), beq_eq_false_iff_ne, List.getElem_of_eq heq, List.getElem_append_left hi]
        exact fun he => dot_notMem_base argument (he ▸ List.getElem_mem hi)
    rw [hsome]
    rfl

/-- What the loop and the copy after it do to a request. -/
theorem Words.fillName_eq (hw : Words line command argument rest) (h0 : 0 ∉ argument) (r : FAT32DriverRequest) :
    fillName line.buffer (command.length + 1) r = copyName (if dotByte ∈ argument then
      { r with ext := Vector.ofFn fun i : Fin 3 => (argument ++ 0 :: rest).getD ((base argument).length + 1 + i.1) 0 }
      else r) (base argument) := by
  have hlt : (base argument).length < argument.length ↔ dotByte ∈ argument := by
    rcases base_or argument with ⟨hno, hb, -⟩ | ⟨hin, heq⟩
    · rw [hb]
      exact ⟨fun h => absurd h (Nat.lt_irrefl _), fun h => absurd h hno⟩
    · refine ⟨fun _ => hin, fun _ => ?_⟩
      conv_rhs => rw [heq]
      rw [List.length_append, List.length_cons]
      omega
  have hsrc : (List.range' (command.length + 1) (base argument).length).map (cell line.buffer) = base argument := by
    refine List.ext_getElem (by rw [List.length_map, List.length_range']) fun i h1 h2 => ?_
    have hle : (base argument).length ≤ argument.length := (List.takeWhile_prefix _).length_le
    rw [List.getElem_map, List.getElem_range', Nat.one_mul, hw.cell_argument, List.getD_append _ _ _ _ (by omega),
      List.getD_eq_getElem _ _ (by omega)]
    exact (List.IsPrefix.getElem (List.takeWhile_prefix _) h2).symm
  have hext : #v[cell line.buffer (command.length + 1 + (base argument).length + 1),
      cell line.buffer (command.length + 1 + (base argument).length + 2),
      cell line.buffer (command.length + 1 + (base argument).length + 3)] =
      Vector.ofFn fun i : Fin 3 => (argument ++ 0 :: rest).getD ((base argument).length + 1 + i.1) 0 := by
    have hcell (i : ℕ) : cell line.buffer (command.length + 1 + (base argument).length + (i + 1)) =
        (argument ++ 0 :: rest).getD ((base argument).length + 1 + i) 0 := by
      rw [← hw.cell_argument]
      congr 1
      omega
    rw [show 1 = 0 + 1 from rfl, hcell 0, show 2 = 1 + 1 from rfl, hcell 1, hcell 2]
    rfl
  unfold fillName
  simp only
  rw [hw.nameLen_eq h0, hw.strlen_argument h0, hsrc, hext]
  simp only [hlt]

/-! ## Behind the name -/

variable {c : ℕ → UInt8} {behind q : List UInt8}

/-- What is copied behind the name is the extension, and leaves the bytes of the field after it as they are. -/
structure Fits (c : ℕ → UInt8) (behind : List UInt8) : Prop where
  ext : ∀ i < 3, behind.getD i 0 = (afterDot behind).getD i 0
  parent : ∀ i < 4, behind.getD (3 + i) (c i) = c i

theorem afterDot_cons (x : UInt8) (l : List UInt8) : afterDot (x :: l) = if x = dotByte then l else afterDot l := by
  unfold afterDot
  split <;> simp [*]

theorem length_le_of_getD {l : List UInt8} (h0 : 0 ∉ l) {i : ℕ} (h : l.getD i 0 = 0) : l.length ≤ i := by
  by_contra hlt
  exact h0 (h ▸ getD_mem (by omega))

theorem Fits.length_le {behind : List UInt8} (h : Fits c behind) (h0 : 0 ∉ behind) (hc : c 2 = 0) :
    behind.length ≤ 5 := by
  have hp := h.parent 2 (by decide)
  rw [hc] at hp
  exact length_le_of_getD h0 hp

/-- What is copied behind the name is three dots or two characters around one for the extension, and then the
lower bytes of the cluster number as they are. -/
def Lucky (low high : UInt8) (behind : List UInt8) : Prop :=
  low = 46 ∧ (behind = [46, 46, 46, 46] ∨ behind = [46, 46, 46, 46, high] ∨ behind = [high, 46, high, 46, high])

/-- Each byte of the extension takes one more behind the dot. -/
theorem Fits.two_lt (h : Fits c behind) (h0 : 0 ∉ behind) (heq : behind = q ++ dotByte :: afterDot behind) :
    2 < (afterDot behind).length := by
  have hn : behind.length = q.length + 1 + (afterDot behind).length := by
    conv_lhs => rw [heq]
    rw [List.length_append, List.length_cons]
    omega
  have hext (i : ℕ) (hi : i < 3) (hlt : i < behind.length) : i < (afterDot behind).length := by
    by_contra hge
    have he := h.ext i hi
    rw [List.getD_eq_default (afterDot behind) _ (by omega)] at he
    exact absurd (length_le_of_getD h0 he) (by omega)
  have h1 := hext 0 (by decide) (by omega)
  have h2 := hext 1 (by decide) (by omega)
  exact hext 2 (by decide) (by omega)

/-- Of at most five bytes three or more are behind the dot, so no more than one is before it. -/
theorem Fits.lucky (h : Fits c behind) (h0 : 0 ∉ behind) (hc : c 2 = 0)
    (heq : behind = q ++ dotByte :: afterDot behind) :
    Lucky (c 0) (c 1) behind := by
  have hlen := h.length_le h0 hc
  have h3 := h.two_lt h0 heq
  have he0 := h.ext 0 (by decide)
  have he1 := h.ext 1 (by decide)
  have he2 := h.ext 2 (by decide)
  have hp0 := h.parent 0 (by decide)
  have hp1 := h.parent 1 (by decide)
  generalize afterDot behind = t at heq h3 he0 he1 he2
  have hn : behind.length = q.length + 1 + t.length := by
    rw [heq, List.length_append, List.length_cons]
    omega
  obtain ⟨t0, t1, t2, t3, rfl⟩ : ∃ t0 t1 t2 t3, t = t0 :: t1 :: t2 :: t3 := by
    match t, h3 with
    | t0 :: t1 :: t2 :: t3, _ => exact ⟨t0, t1, t2, t3, rfl⟩
  rw [heq] at hp0 hp1 he0 he1 he2
  rcases q with _ | ⟨x, _ | ⟨y, q⟩⟩
  · obtain rfl : t0 = 46 := he0.symm
    obtain rfl : t1 = 46 := he1.symm
    obtain rfl : t2 = 46 := he2.symm
    refine ⟨hp0.symm, ?_⟩
    rcases t3 with _ | ⟨x, _ | ⟨y, t3⟩⟩
    · exact .inl heq
    · obtain rfl : x = c 1 := hp1
      exact .inr (.inl heq)
    · simp only [List.length_cons, List.length_nil] at hn
      omega
  · obtain rfl : t1 = 46 := he1.symm
    obtain rfl : x = t0 := he0
    obtain rfl : x = t2 := he2
    rcases t3 with _ | ⟨y, t3⟩
    · obtain rfl : x = c 1 := hp1
      exact ⟨hp0.symm, .inr (.inr heq)⟩
    · simp only [List.length_cons, List.length_nil] at hn
      omega
  · simp only [List.length_cons] at hn
    omega

theorem Lucky.fits (h : Lucky (c 0) (c 1) behind) : Fits c behind := by
  obtain ⟨hlow, rfl | rfl | rfl⟩ := h
  · refine ⟨fun i hi => ?_, fun i hi => ?_⟩ <;> interval_cases i <;> simp [afterDot_cons, dotByte, hlow]
  · refine ⟨fun i hi => ?_, fun i hi => ?_⟩ <;> interval_cases i <;> simp [afterDot_cons, dotByte, hlow]
  · have hafter : afterDot [c 1, 46, c 1, 46, c 1] = if c 1 = 46 then [46, c 1, 46, c 1] else [c 1, 46, c 1] := by
      rw [afterDot_cons, afterDot_cons]
      rfl
    refine ⟨fun i hi => ?_, fun i hi => ?_⟩
    · rw [hafter]
      split
      · interval_cases i <;> simp [*]
      · interval_cases i <;> rfl
    · interval_cases i <;> simp [hlow]

theorem fits_iff (h0 : 0 ∉ behind) (hc : c 2 = 0) : Fits c behind ↔ behind = [] ∨ Lucky (c 0) (c 1) behind := by
  constructor
  · intro h
    rcases base_or behind with ⟨-, -, hnone⟩ | ⟨-, heq⟩
    · have he := h.ext 0 (by decide)
      rw [hnone] at he
      exact .inl (List.length_eq_zero_iff.1 (Nat.le_zero.1 (length_le_of_getD h0 he)))
    · exact .inr (h.lucky h0 hc heq)
  · rintro (rfl | h)
    · exact ⟨fun i hi => rfl, fun i hi => rfl⟩
    · exact h.fits

/-- What stands before the dot behind the name leaves both fields as they are, too. -/
theorem Fits.base {behind : List UInt8} (h : Fits c behind) :
    (∀ i < 3, (base behind).getD i ((afterDot behind).getD i 0) = (afterDot behind).getD i 0) ∧
      ∀ i < 4, (base behind).getD (3 + i) (c i) = c i := by
  have hfront : Shell.base behind <+: behind := List.takeWhile_prefix _
  have hget (i : ℕ) (d : UInt8) : (Shell.base behind).getD i d = d ∨
      ∀ d', (Shell.base behind).getD i d = behind.getD i d' := by
    rcases Nat.lt_or_ge i (Shell.base behind).length with hlt | hge
    · refine .inr fun d' => ?_
      have hle := hfront.length_le
      rw [List.getD_eq_getElem _ _ hlt, List.getD_eq_getElem _ _ (by omega)]
      exact hfront.getElem hlt
    · exact .inl (List.getD_eq_default _ _ hge)
  refine ⟨fun i hi => ?_, fun i hi => ?_⟩
  · rcases hget i ((afterDot behind).getD i 0) with he | he
    · exact he
    · rw [he 0, h.ext i hi]
  · rcases hget (3 + i) (c i) with he | he
    · exact he
    · rw [he (c i), h.parent i hi]

/-! ## `cat` and `rm` -/

/-- An argument: a string without a space that fits into a line behind a command of up to three letters. -/
structure Argument where
  bytes : List UInt8
  nonzero : 0 ∉ bytes
  nospace : 32 ∉ bytes
  fits : bytes.length ≤ 251

/-- The line with a command and an argument. -/
def Argument.lineBehind (a : Argument) (command : List UInt8) (h : command.length ≤ 3) : Line :=
  lineWith (command ++ 32 :: a.bytes) (by
    have := a.fits
    rw [List.length_append, List.length_cons]
    omega)

def catLine (a : Argument) : Line := a.lineBehind [99, 97, 116] (by decide)

def rmLine (a : Argument) : Line := a.lineBehind [114, 109] (by decide)

theorem Argument.words (a : Argument) (h : command.length ≤ 3) (hc : ∀ x ∈ command, x ≠ 0 ∧ x ≠ 32) :
    Words (a.lineBehind command h) command a.bytes [] := by
  have ha (x : UInt8) (hx : x ∈ a.bytes) : x ≠ 0 ∧ x ≠ 32 :=
    ⟨fun he => a.nonzero (he ▸ hx), fun he => a.nospace (he ▸ hx)⟩
  have hfits := a.fits
  have hlen : (command ++ 32 :: (a.bytes ++ [])).length < 256 := by
    rw [List.append_nil, List.length_append, List.length_cons]
    omega
  have hwords := words_lineWith hlen hc ha (.inl rfl)
  simp only [List.append_nil] at hwords
  exact hwords

/-- The extension of a file in a request. -/
def extOf (ext : List UInt8) : Vector UInt8 3 := Vector.ofFn fun i : Fin 3 => ext[i.1]?.getD 0

/-- A request for the file that an argument names in a directory: up to 8 characters before the dot, and up to 3
behind it. -/
structure Addresses (argument : List UInt8) (parentCluster : UInt16) (r : FAT32DriverRequest) : Prop where
  name : r.name = nameOf (base argument)
  ext : r.ext = extOf (afterDot argument)
  parent : r.parentClusterNumber = parentCluster.toUInt32

/-- `cat` and `rm` both make a request, for the one file that the argument names, and change nothing else of it. -/
def SameTarget (a : Argument) (s : Machine) (parentCluster : UInt16) (clBuf dirbuffer null : ℕ → UInt8) : Prop :=
  ∃ cat rm, catRequest (catLine a) parentCluster clBuf = some cat ∧
    rmRequest s (rmLine a) parentCluster dirbuffer null = some (some rm) ∧
    Addresses a.bytes parentCluster cat ∧ Addresses a.bytes parentCluster rm ∧ cat.bufferSize = 8192 ∧ rm.bufferSize = 0

/-- The bytes of a cluster number in a request. -/
theorem cell_u32_toUInt32 (x : UInt16) : cell (u32 x.toUInt32) 0 = x.toUInt8 ∧
    cell (u32 x.toUInt32) 1 = (x >>> 8).toUInt8 ∧
    cell (u32 x.toUInt32) 2 = 0 ∧ cell (u32 x.toUInt32) 3 = 0 := by
  have hx := x.toNat_lt
  refine ⟨UInt8.toNat_inj.1 ?_, UInt8.toNat_inj.1 ?_, UInt8.toNat_inj.1 ?_, UInt8.toNat_inj.1 ?_⟩
  · show (UInt8.ofNat x.toUInt32.toNat).toNat = _
    simp
  · show (UInt8.ofNat (x.toUInt32.toNat / 256)).toNat = _
    simp [Nat.shiftRight_eq_div_pow]
  · show (UInt8.ofNat (x.toUInt32.toNat / 65536)).toNat = _
    simp
    omega
  · show (UInt8.ofNat (x.toUInt32.toNat / 16777216)).toNat = _
    simp
    omega

variable {cat rm : FAT32DriverRequest} {parentCluster : UInt16}

theorem cell_nameOf {k : List UInt8} (hi : i < 8) : cell (nameOf k) i = k.getD i 0 := by
  unfold nameOf
  rw [cell_ofFn hi, List.getD_eq_getElem?_getD]

theorem cell_extOf {k : List UInt8} (hi : i < 3) : cell (extOf k) i = k.getD i 0 := by
  unfold extOf
  rw [cell_ofFn hi, List.getD_eq_getElem?_getD]

/-- The fields of a request for the file that the argument names, byte by byte. -/
theorem Copied.addresses_iff {r r' : FAT32DriverRequest} {argument : List UInt8} (h : Copied r r' src)
    (hname : r.name = Vector.replicate 8 0) (hparent : r.parentClusterNumber = parentCluster.toUInt32) :
    Addresses argument parentCluster r' ↔ (∀ i < 8, src.getD i 0 = (base argument).getD i 0) ∧
      (∀ i < 3, src.getD (8 + i) (cell r.ext i) = (afterDot argument).getD i 0) ∧
      ∀ i < 4, src.getD (11 + i) (cell (u32 parentCluster.toUInt32) i) = cell (u32 parentCluster.toUInt32) i := by
  have hn (i : ℕ) (hi : i < 8) : cell r'.name i = src.getD i 0 := by
    rw [h.name i hi, hname, cell_replicate]
  have hp (i : ℕ) (hi : i < 4) : cell (u32 r'.parentClusterNumber) i =
      src.getD (11 + i) (cell (u32 parentCluster.toUInt32) i) := by
    rw [h.parent i hi, hparent]
  constructor
  · intro ha
    refine ⟨fun i hi => ?_, fun i hi => ?_, fun i hi => ?_⟩
    · rw [← hn i hi, ha.name, cell_nameOf hi]
    · rw [← h.ext i hi, ha.ext, cell_extOf hi]
    · rw [← hp i hi, ha.parent]
  · rintro ⟨h1, h2, h3⟩
    refine ⟨cell_ext fun i hi => ?_, cell_ext fun i hi => ?_, u32.injective (cell_ext fun i hi => ?_)⟩
    · rw [hn i hi, h1 i hi, cell_nameOf hi]
    · rw [h.ext i hi, h2 i hi, cell_extOf hi]
    · rw [hp i hi, h3 i hi]

/-- The request of `cat` copies what is before the dot over one that has the extension. -/
theorem catRequest_eq (a : Argument) (parentCluster : UInt16) (buf : ℕ → UInt8) :
    catRequest (catLine a) parentCluster buf = copyName
      ⟨buf, Vector.replicate 8 0, extOf (afterDot a.bytes), parentCluster.toUInt32, 8192⟩ (base a.bytes) := by
  have hw : Words (catLine a) [99, 97, 116] a.bytes [] := a.words (by decide) (by simp)
  have hext : (if dotByte ∈ a.bytes then
      Vector.ofFn fun i : Fin 3 => (a.bytes ++ 0 :: []).getD ((base a.bytes).length + 1 + i.1) 0
      else Vector.replicate 3 0) = extOf (afterDot a.bytes) := by
    refine cell_ext fun i hi => ?_
    rw [cell_extOf hi]
    rcases base_or a.bytes with ⟨hno, -, hnone⟩ | ⟨hin, heq⟩
    · rw [if_neg hno, cell_replicate, hnone]
      rfl
    · have hbehind (l pre tail : List UInt8) (h : l = pre ++ dotByte :: tail) :
          (l ++ [0]).getD (pre.length + 1 + i) 0 = tail.getD i 0 := by
        rw [getD_null, h, List.getD_append_right _ _ _ _ (by omega),
          show pre.length + 1 + i - pre.length = i + 1 by omega]
        rfl
      rw [if_pos hin, cell_ofFn hi]
      exact hbehind _ _ _ heq
  unfold catRequest
  rw [hw.start, Option.bind_eq_bind, Option.bind_some, hw.fillName_eq a.nonzero]
  rw [← hext]
  split <;> rfl

/-- `is_in_directory` finds everything. -/
theorem isInDirectory_eq (s : Machine) (parentCluster : UInt16) (name : List UInt8) (dirbuffer : ℕ → UInt8) :
    isInDirectory s parentCluster name dirbuffer = true := by
  unfold isInDirectory
  split
  · rfl
  · unfold readDirectory readDirectoryLoaded
    simp only [memcmp_eq_zero, if_true]
    rfl

theorem length_takeWhile_eq {l : List UInt8} {p : UInt8 → Bool} :
    l.length = (l.takeWhile p).length ↔ ∀ x ∈ l, p x = true := by
  rw [← List.takeWhile_eq_self_iff]
  refine ⟨fun h => ?_, fun h => by rw [h]⟩
  exact (List.takeWhile_prefix p).eq_of_length h.symm

/-- The test for an argument of white space, which is no space in a word. -/
theorem Words.blank_iff (hw : Words line command argument rest) (h0 : 0 ∉ argument) (hs : 32 ∉ argument) :
    line.blank = true ↔ ∀ x ∈ argument, x ∈ [(9 : UInt8), 10, 13] := by
  unfold Line.blank
  rw [hw.start]
  simp only
  rw [hw.strlen_argument h0, hw.stringAt_argument h0, beq_iff_eq]
  unfold strspn
  rw [length_takeWhile_eq]
  refine forall_congr' fun x => ⟨fun h hx => ?_, fun h hx => ?_⟩
  · have hin : x = 32 ∨ x ∈ [(9 : UInt8), 10, 13] := by simpa using h hx
    exact hin.resolve_left fun he => hs (he ▸ hx)
  · have hin := List.mem_cons_of_mem 32 (h hx)
    simpa using hin

theorem rmLine_words (a : Argument) : Words (rmLine a) [114, 109] a.bytes [] := a.words (by decide) (by simp)

theorem rmLine_blank (a : Argument) : (rmLine a).blank = true ↔ ∀ x ∈ a.bytes, x ∈ [(9 : UInt8), 10, 13] :=
  (rmLine_words a).blank_iff a.nonzero a.nospace

/-- The request of `rm` copies the whole argument, unless it is blank. -/
theorem rmRequest_eq (a : Argument) (s : Machine) (parentCluster : UInt16) (dirbuffer buf : ℕ → UInt8) :
    rmRequest s (rmLine a) parentCluster dirbuffer buf = if (rmLine a).blank then some none
      else
        (copyName ⟨buf, Vector.replicate 8 0, Vector.replicate 3 0, parentCluster.toUInt32, 0⟩ a.bytes).map some := by
  have hw := rmLine_words a
  unfold rmRequest
  by_cases hb : (rmLine a).blank = true
  · rw [if_pos hb, if_pos hb]
  · rw [if_neg hb, if_neg hb, hw.start, Option.bind_eq_bind, Option.bind_some]
    simp only [isInDirectory_eq, hw.stringAt_argument a.nonzero, if_true]
    cases copyName _ a.bytes <;> rfl

/-- There is something in the argument but white space, no dot among its first 8 characters, and nothing behind them,
or what by luck leaves the number of the directory as it is. -/
def OneFile (argument : List UInt8) (parentCluster : UInt16) : Prop :=
  (¬ ∀ x ∈ argument, x ∈ [(9 : UInt8), 10, 13]) ∧ dotByte ∉ argument.take 8 ∧
    (argument.drop 8 = [] ∨ Lucky parentCluster.toUInt8 (parentCluster >>> 8).toUInt8 (argument.drop 8))

theorem fits_parent_iff {argument : List UInt8} (h0 : 0 ∉ argument) :
    Fits (fun i => cell (u32 parentCluster.toUInt32) i) (argument.drop 8) ↔
      argument.drop 8 = [] ∨ Lucky parentCluster.toUInt8 (parentCluster >>> 8).toUInt8 (argument.drop 8) := by
  obtain ⟨hlow, hhigh, hzero, -⟩ := cell_u32_toUInt32 parentCluster
  have hbehind : 0 ∉ argument.drop 8 := fun h => h0 (List.mem_of_mem_drop h)
  rw [fits_iff hbehind hzero, hlow, hhigh]

/-- Without a dot among the first 8 characters, these are the first before the dot, too. -/
theorem base_drop {argument : List UInt8} (h : dotByte ∉ argument.take 8) :
    base argument = argument.take 8 ++ base (argument.drop 8) ∧ afterDot argument = afterDot (argument.drop 8) := by
  have hpos (x : UInt8) (hx : x ∈ argument.take 8) : decide (x ≠ dotByte) = true :=
    decide_eq_true fun he => h (he ▸ hx)
  have hsplit (l pre behind : List UInt8) (hl : pre ++ behind = l) (hpos : ∀ x ∈ pre, decide (x ≠ dotByte) = true) :
      base l = pre ++ base behind ∧ afterDot l = afterDot behind := by
    subst hl
    unfold base afterDot
    rw [List.takeWhile_append_of_pos hpos, List.dropWhile_append_of_pos hpos]
    exact ⟨rfl, rfl⟩
  exact hsplit argument _ _ (List.take_append_drop 8 argument) hpos

theorem getD_drop (l : List UInt8) (i : ℕ) (d : UInt8) : (l.drop 8).getD i d = l.getD (8 + i) d := by
  rw [List.getD_eq_getElem?_getD, List.getElem?_drop, List.getD_eq_getElem?_getD]

/-- A dot among the first 8 characters ends the name there, but `rm` copies it with the others. -/
theorem dot_notMem_take {argument : List UInt8} (h : ∀ i < 8, argument.getD i 0 = (base argument).getD i 0) :
    dotByte ∉ argument.take 8 := by
  rcases base_or argument with ⟨hno, -, -⟩ | ⟨-, heq⟩
  · exact fun hin => hno (List.mem_of_mem_take hin)
  · have hlen : 8 ≤ (base argument).length := by
      by_contra hlt
      have he := h (base argument).length (by omega)
      rw [List.getD_eq_default _ _ (Nat.le_refl _)] at he
      have hdot (l pre tail : List UInt8) (hl : l = pre ++ dotByte :: tail) : l.getD pre.length 0 = dotByte := by
        rw [hl, List.getD_append_right _ _ _ _ (Nat.le_refl _), Nat.sub_self]
        rfl
      rw [hdot _ _ _ heq] at he
      exact absurd he (by decide)
    have htake (l pre tail : List UInt8) (hl : l = pre ++ tail) (hlen : 8 ≤ pre.length) : l.take 8 = pre.take 8 := by
      rw [hl, List.take_append_of_le_length hlen]
    rw [htake _ _ _ heq hlen]
    exact fun hin => dot_notMem_base argument (List.mem_of_mem_take hin)

/-- What `cat` asks for is the file, if what it copies behind the name is that of a file. -/
theorem cat_addresses {a : Argument} (buf : ℕ → UInt8) (hdot : dotByte ∉ a.bytes.take 8)
    (h : Fits (fun i => cell (u32 parentCluster.toUInt32) i) (a.bytes.drop 8)) (hlen : (a.bytes.drop 8).length ≤ 5) :
    ∃ cat, catRequest (catLine a) parentCluster buf = some cat ∧ Addresses a.bytes parentCluster cat ∧
      cat.bufferSize = 8192 := by
  obtain ⟨hbase, hafter⟩ := base_drop hdot
  obtain ⟨hext, hparent⟩ := h.base
  have hbehind (i : ℕ) (d : UInt8) : (base a.bytes).getD (8 + i) d = (base (a.bytes.drop 8)).getD i d := by
    rcases Nat.lt_or_ge a.bytes.length 8 with hlt | hge
    · have hnil : a.bytes.drop 8 = [] := List.drop_eq_nil_of_le (by omega)
      rw [hbase, hnil, List.getD_eq_default _ _ (by
        rw [List.length_append, List.length_take]
        show _ + 0 ≤ _
        omega)]
      rfl
    · have htake : (a.bytes.take 8).length = 8 := List.length_take_of_le hge
      rw [hbase, List.getD_append_right _ _ _ _ (by omega), htake, Nat.add_sub_cancel_left]
  have hshort : (base (a.bytes.drop 8)).length ≤ 5 := (List.takeWhile_prefix _).length_le.trans hlen
  have hle : (base a.bytes).length ≤ 19 := by
    rw [hbase, List.length_append]
    have := List.length_take_le 8 a.bytes
    omega
  obtain ⟨cat, hcat, hcopied⟩ := copyName_spec
    ⟨buf, Vector.replicate 8 0, extOf (afterDot a.bytes), parentCluster.toUInt32, 8192⟩ hle
  refine ⟨cat, (catRequest_eq a parentCluster buf).trans hcat, (hcopied.addresses_iff rfl rfl).2
    ⟨fun _ _ => rfl, fun i hi => ?_, fun i hi => ?_⟩, u32.injective (cell_ext fun i hi => ?_)⟩
  · rw [cell_extOf hi, hbehind, hafter]
    exact hext i hi
  · rw [show 11 + i = 8 + (3 + i) by omega, hbehind]
    exact hparent i hi
  · rw [hcopied.size i hi, show 15 + i = 8 + (7 + i) by omega, hbehind, List.getD_eq_default _ _ (by omega)]

/-- The file that both ask for is named without a dot in the first 8 characters, and nothing behind them is lost. -/
theorem SameTarget.oneFile {a : Argument} {s : Machine} {clBuf dirbuffer null : ℕ → UInt8}
    (h : SameTarget a s parentCluster clBuf dirbuffer null) : OneFile a.bytes parentCluster := by
  obtain ⟨cat, rm, -, hrm, -, haddr, -, -⟩ := h
  rw [rmRequest_eq] at hrm
  split at hrm
  · cases hrm
  · rename_i hblank
    obtain ⟨rm', hcopy, heq⟩ := Option.map_eq_some_iff.1 hrm
    cases heq
    have hle : a.bytes.length ≤ 19 := by
      by_contra hgt
      rw [copyName, if_neg hgt] at hcopy
      cases hcopy
    obtain ⟨rm'', hcopy', hcopied⟩ := copyName_spec
      ⟨null, Vector.replicate 8 0, Vector.replicate 3 0, parentCluster.toUInt32, 0⟩ hle
    rw [hcopy] at hcopy'
    cases hcopy'
    obtain ⟨hname, hext, hparent⟩ := (hcopied.addresses_iff rfl rfl).1 haddr
    have hdot := dot_notMem_take hname
    refine ⟨(rmLine_blank a).not.1 hblank, hdot, (fits_parent_iff a.nonzero).1 ⟨fun i hi => ?_, fun i hi => ?_⟩⟩
    · rw [getD_drop, ← (base_drop hdot).2, ← hext i hi, cell_replicate]
    · rw [getD_drop, ← Nat.add_assoc]
      exact hparent i hi

/-- The name before the dot is all of the first 8 characters. -/
theorem getD_base {argument : List UInt8} (h : dotByte ∉ argument.take 8) (hi : i < 8) :
    argument.getD i 0 = (base argument).getD i 0 := by
  have hfront : base argument <+: argument := List.takeWhile_prefix _
  rcases Nat.lt_or_ge i (base argument).length with hlt | hge
  · have hle := hfront.length_le
    rw [List.getD_eq_getElem _ _ hlt, List.getD_eq_getElem _ _ (by omega)]
    exact (hfront.getElem hlt).symm
  · have hlen : argument.length ≤ i := by
      rw [(base_drop h).1, List.length_append, List.length_take] at hge
      omega
    rw [List.getD_eq_default _ _ hge, List.getD_eq_default _ _ hlen]

theorem OneFile.sameFile {a : Argument} (h : OneFile a.bytes parentCluster) (s : Machine)
    (clBuf dirbuffer null : ℕ → UInt8) :
    SameTarget a s parentCluster clBuf dirbuffer null := by
  obtain ⟨hblank, hdot, hfits⟩ := h
  have hfits := (fits_parent_iff a.nonzero).2 hfits
  have hlen := hfits.length_le (fun h => a.nonzero (List.mem_of_mem_drop h)) (cell_u32_toUInt32 parentCluster).2.2.1
  obtain ⟨cat, hcat, haddr, hsize⟩ := cat_addresses clBuf hdot hfits hlen
  have hle : a.bytes.length ≤ 19 := by
    rw [List.length_drop] at hlen
    omega
  obtain ⟨rm, hcopy, hcopied⟩ := copyName_spec
    ⟨null, Vector.replicate 8 0, Vector.replicate 3 0, parentCluster.toUInt32, 0⟩ hle
  refine ⟨cat, rm, hcat, ?_, haddr, (hcopied.addresses_iff rfl rfl).2
    ⟨fun i hi => getD_base hdot hi, fun i hi => ?_, fun i hi => ?_⟩, hsize, u32.injective (cell_ext fun i hi => ?_)⟩
  · rw [rmRequest_eq, if_neg ((rmLine_blank a).not.2 hblank), hcopy]
    rfl
  · rw [cell_replicate, ← getD_drop, (base_drop hdot).2]
    exact hfits.ext i hi
  · rw [show 11 + i = 8 + (3 + i) by omega, ← getD_drop]
    exact hfits.parent i hi
  · rw [hcopied.size i hi, show 15 + i = 8 + (7 + i) by omega, ← getD_drop, List.getD_eq_default _ _ (by omega)]

/-- `cat` and `rm` ask for one and the same file, the one the argument names, exactly for short names without an
extension, luck apart. -/
theorem same_file_iff (a : Argument) (s : Machine) (parentCluster : UInt16) (clBuf dirbuffer null : ℕ → UInt8) :
    SameTarget a s parentCluster clBuf dirbuffer null ↔ OneFile a.bytes parentCluster :=
  ⟨SameTarget.oneFile, fun h => h.sameFile s clBuf dirbuffer null⟩

/-- The argument `a.b`. -/
def argumentAB : Argument := ⟨[97, 46, 98], by decide, by decide, by decide⟩

/-- For `a.b`, `cat` asks for the file `a` with the extension `b`, and `rm` for the file `a.b` without one. -/
theorem cat_rm_differ : argumentAB.bytes = [97, 46, 98] ∧ ∀ s parentCluster clBuf dirbuffer null, ∃ cat rm,
    catRequest (catLine argumentAB) parentCluster clBuf = some cat ∧
      rmRequest s (rmLine argumentAB) parentCluster dirbuffer null = some (some rm) ∧
      cat.name = nameOf [97] ∧ cat.ext = extOf [98] ∧ rm.name = nameOf [97, 46, 98] ∧ rm.ext = extOf [] ∧
      ¬ SameTarget argumentAB s parentCluster clBuf dirbuffer null := by
  refine ⟨rfl, fun s parentCluster clBuf dirbuffer null => ?_⟩
  obtain ⟨cat, hcat, hcopied⟩ := copyName_spec
    ⟨clBuf, Vector.replicate 8 0, extOf [98], parentCluster.toUInt32, 8192⟩
    (show ([97] : List UInt8).length ≤ 19 by decide)
  obtain ⟨rm, hrm, hcopied'⟩ := copyName_spec
    ⟨null, Vector.replicate 8 0, Vector.replicate 3 0, parentCluster.toUInt32, 0⟩
    (show ([97, 46, 98] : List UInt8).length ≤ 19 by decide)
  refine ⟨cat, rm, (catRequest_eq argumentAB parentCluster clBuf).trans hcat, ?_, cell_ext fun i hi => ?_,
    cell_ext fun i hi => ?_, cell_ext fun i hi => ?_, cell_ext fun i hi => ?_, fun h => ?_⟩
  · have hblank : ¬ (rmLine argumentAB).blank = true := fun h =>
      absurd ((rmLine_blank argumentAB).1 h 97 (by decide)) (by decide)
    rw [rmRequest_eq, if_neg hblank]
    exact congrArg (Option.map some) hrm
  · rw [hcopied.name i hi, cell_nameOf hi, cell_replicate]
  · rw [hcopied.ext i hi, List.getD_eq_default _ _ (by
      show 1 ≤ 8 + i
      omega)]
  · rw [hcopied'.name i hi, cell_nameOf hi, cell_replicate]
  · rw [hcopied'.ext i hi, cell_extOf hi, cell_replicate, List.getD_eq_default _ _ (by
      show 3 ≤ 8 + i
      omega)]
    rfl
  · obtain ⟨-, hdot, -⟩ := h.oneFile
    exact absurd hdot (by decide)

end BebasOs.Shell
