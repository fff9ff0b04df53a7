/-
The line editor of the shell. `handleInput` appends to its buffer and counts, and on a backspace it counts down
and clears the byte behind the one to erase: the byte itself stays, and the string in the buffer is right again only
when the next character overwrites it.
-/
import BebasOs.Stdlib.String

namespace BebasOs.Shell

open Bytes Search

/-! ## The editor -/

def newline : UInt8 := 10

def backspace : UInt8 := 8

/-- The buffer and the counter of `handleInput`, and the characters it has written to the screen. -/
structure Input where
  inputBuffer : Vector UInt8 256
  inputLength : ℕ
  written : List UInt8

def Input.writeChar (st : Input) (charBuffer : UInt8) : Input := { st with written := st.written ++ [charBuffer] }

def clearBuffer {n : ℕ} (buffer : Vector UInt8 n) (length : ℕ) : Vector UInt8 n :=
  (List.range length).foldl (fun buffer i => store buffer i 0) buffer

/-- `handleInput` on the characters that the keyboard returns; without a newline among them it still waits. -/
def handleInput : (keys : List UInt8) → Input → Option Input
  | [], _ => none
  | charBuffer :: keys, st =>
    if charBuffer = 0 then handleInput keys st
    else if charBuffer = newline then some (st.writeChar charBuffer)
    else if charBuffer = backspace then
      if 0 < st.inputLength then
        let st := { st with
          inputBuffer := store st.inputBuffer st.inputLength 0
          inputLength := st.inputLength - 1 }
        handleInput keys (st.writeChar charBuffer)
      else handleInput keys st
    else if st.inputLength < 255 then
      let st := st.writeChar charBuffer
      handleInput keys { st with
        inputBuffer := store st.inputBuffer st.inputLength charBuffer
        inputLength := st.inputLength + 1 }
    else handleInput keys st

/-- What `shell` calls `handleInput` with. -/
def startInput (buffer : Vector UInt8 256) : Input := ⟨clearBuffer buffer 256, 0, []⟩

theorem cell_clearBuffer {n : ℕ} (buffer : Vector UInt8 n) (i : ℕ) : cell (clearBuffer buffer n) i = 0 := by
  have hcleared (k : ℕ) (hk : k ≤ n) : ∀ i < k, cell (clearBuffer buffer k) i = 0 := by
    induction k with
    | zero => simp
    | succ k ih =>
      intro i hi
      unfold clearBuffer
      rw [List.range_succ, List.foldl_append]
      show cell (store (clearBuffer buffer k) k 0) i = 0
      rw [cell_store _ _ _ (by omega)]
      split
      · rfl
      · exact ih (by omega) i (by omega)
  rcases Nat.lt_or_ge i n with hi | hi
  · exact hcleared n (Nat.le_refl n) i hi
  · unfold cell
    rw [dif_neg (by omega)]
    rfl

/-! ## The line that is meant -/

/-- A line after one more character: a backspace takes the last character away, a null is nothing, and any other
character is appended while there are fewer than 255. -/
def edit (line : List UInt8) (c : UInt8) : List UInt8 :=
  if c = 0 then line
  else if c = backspace then line.dropLast
  else if line.length < 255 then line ++ [c]
  else line

/-- The line that the characters spell. -/
def lineOf (keys : List UInt8) : List UInt8 := keys.foldl edit []

/-- The last character that changed the line took one away. -/
inductive ErasedLast : List UInt8 → Prop
  | erase {keys : List UInt8} (h : lineOf keys ≠ []) : ErasedLast (keys ++ [backspace])
  | skip {keys : List UInt8} {c : UInt8} (h : ErasedLast keys) (hc : edit (lineOf keys) c = lineOf keys) :
      ErasedLast (keys ++ [c])

theorem lineOf_snoc (keys : List UInt8) (c : UInt8) : lineOf (keys ++ [c]) = edit (lineOf keys) c := by
  simp [lineOf]

theorem length_lineOf (keys : List UInt8) : (lineOf keys).length ≤ 255 := by
  induction keys using List.reverseRecOn with
  | nil => exact Nat.zero_le _
  | append_singleton keys c ih =>
    rw [lineOf_snoc, edit]
    split
    · exact ih
    split
    · rw [List.length_dropLast]
      omega
    split
    · rw [List.length_append, List.length_singleton]
      omega
    · exact ih

variable {keys : List UInt8} {c : UInt8} {st : Input}

theorem erasedLast_snoc : ErasedLast (keys ++ [c]) ↔
    c = backspace ∧ lineOf keys ≠ [] ∨ ErasedLast keys ∧ edit (lineOf keys) c = lineOf keys := by
  constructor
  · intro h
    generalize hl : keys ++ [c] = l at h
    cases h with
    | erase h =>
      obtain ⟨rfl, hc⟩ := List.append_inj' hl rfl
      exact .inl ⟨List.cons.inj hc |>.1, h⟩
    | skip h he =>
      obtain ⟨rfl, hc⟩ := List.append_inj' hl rfl
      obtain rfl := (List.cons.inj hc).1
      exact .inr ⟨h, he⟩
  · rintro (⟨rfl, h⟩ | ⟨h, he⟩)
    · exact .erase h
    · exact .skip h he

theorem not_erasedLast_nil : ¬ ErasedLast [] := by
  intro h
  generalize hl : ([] : List UInt8) = l at h
  cases h <;> simp at hl

/-! ## The buffer -/

/-- The buffer holds the line that the characters spell: the counter is its length, its characters come first, the
byte behind them is left over from an erasure or null, and the bytes from there on are null. -/
structure Edited (keys : List UInt8) (st : Input) : Prop where
  length : st.inputLength = (lineOf keys).length
  characters : (List.range st.inputLength).map (cell st.inputBuffer) = lineOf keys
  nonzero : 0 ∉ lineOf keys
  leftover : cell st.inputBuffer st.inputLength ≠ 0 ↔ ErasedLast keys
  beyond : ∀ j, st.inputLength < j → cell st.inputBuffer j = 0
  last : cell st.inputBuffer 255 = 0
  written : lineOf st.written = lineOf keys

theorem cell_startInput (buffer : Vector UInt8 256) (j : ℕ) : cell (startInput buffer).inputBuffer j = 0 := by
  have hbuffer : (startInput buffer).inputBuffer = clearBuffer buffer 256 := by
    unfold startInput
    simp only
  rw [hbuffer, cell_clearBuffer]

theorem edited_start (buffer : Vector UInt8 256) : Edited [] (startInput buffer) where
  length := rfl
  characters := rfl
  nonzero := by simp [lineOf]
  leftover := iff_of_false (not_not_intro (cell_startInput buffer _)) not_erasedLast_nil
  beyond j _ := cell_startInput buffer j
  last := cell_startInput buffer 255
  written := rfl

/-- A character that does nothing. -/
theorem Edited.skip (h : Edited keys st) (he : edit (lineOf keys) c = lineOf keys)
    (hc : ¬ (c = backspace ∧ lineOf keys ≠ [])) : Edited (keys ++ [c]) st := by
  have hline : lineOf (keys ++ [c]) = lineOf keys := (lineOf_snoc keys c).trans he
  have herased : ErasedLast (keys ++ [c]) ↔ ErasedLast keys := by
    rw [erasedLast_snoc]
    simp [hc, he]
  exact ⟨by rw [hline, h.length], by rw [hline, h.characters], by rw [hline]; exact h.nonzero,
    by rw [herased, h.leftover], h.beyond, h.last, by rw [hline, h.written]⟩

theorem edit_backspace (line : List UInt8) : edit line backspace = line.dropLast := by
  unfold edit
  rw [if_neg (by decide), if_pos rfl]

theorem edit_append {line : List UInt8} (h0 : c ≠ 0) (h8 : c ≠ backspace) (hroom : line.length < 255) :
    edit line c = line ++ [c] := by
  unfold edit
  rw [if_neg h0, if_neg h8, if_pos hroom]

/-- The characters of a line are those of a shorter one and the last. -/
theorem Edited.split (h : Edited keys st) (hpos : 0 < st.inputLength) : lineOf keys =
    (List.range (st.inputLength - 1)).map (cell st.inputBuffer) ++ [cell st.inputBuffer (st.inputLength - 1)] := by
  rw [← h.characters]
  obtain ⟨n, hn⟩ : ∃ n, st.inputLength = n + 1 := ⟨st.inputLength - 1, by omega⟩
  rw [hn, List.range_succ, List.map_append]
  rfl

theorem map_cell_store {b : Vector UInt8 256} {n i : ℕ} (hi : i < 256) (hn : n ≤ i) (a : UInt8) :
    (List.range n).map (cell (store b i a)) = (List.range n).map (cell b) := by
  refine List.map_congr_left fun j hj => ?_
  rw [List.mem_range] at hj
  rw [cell_store _ _ _ hi, if_neg (by omega)]

/-- A backspace on a line with characters: the counter goes down, and the character stays. -/
theorem Edited.erase (h : Edited keys st) (hpos : 0 < st.inputLength) : Edited (keys ++ [backspace])
    ({ st with inputBuffer := store st.inputBuffer st.inputLength 0, inputLength := st.inputLength - 1 }.writeChar
      backspace) := by
  have hlen : st.inputLength ≤ 255 := h.length ▸ length_lineOf keys
  have hsplit := h.split hpos
  have hline : lineOf (keys ++ [backspace]) = (List.range (st.inputLength - 1)).map (cell st.inputBuffer) := by
    rw [lineOf_snoc, edit_backspace, hsplit, List.dropLast_concat]
  have hcell (j : ℕ) : cell (store st.inputBuffer st.inputLength 0) j =
      if j = st.inputLength then 0 else cell st.inputBuffer j := cell_store _ _ _ (by omega)
  constructor
  · rw [hline, List.length_map, List.length_range]
    rfl
  · show (List.range (st.inputLength - 1)).map (cell (store st.inputBuffer st.inputLength 0)) = _
    rw [hline, map_cell_store (by omega) (by omega)]
  · rw [lineOf_snoc, edit_backspace]
    exact fun h0 => h.nonzero (List.mem_of_mem_dropLast h0)
  · -- what is left over is the character that was to be erased
    refine iff_of_true ?_ (.erase ?_)
    · show cell (store st.inputBuffer st.inputLength 0) (st.inputLength - 1) ≠ 0
      rw [hcell, if_neg (by omega)]
      intro h0
      refine h.nonzero ?_
      rw [hsplit, h0]
      simp
    · rw [hsplit]
      simp
  · intro j hj
    have hj : st.inputLength - 1 < j := hj
    show cell (store st.inputBuffer st.inputLength 0) j = 0
    rw [hcell]
    split
    · rfl
    · exact h.beyond j (by omega)
  · show cell (store st.inputBuffer st.inputLength 0) 255 = 0
    rw [hcell]
    split
    · rfl
    · exact h.last
  · show lineOf (st.written ++ [backspace]) = _
    rw [lineOf_snoc, lineOf_snoc, h.written]

/-- A character that is appended overwrites what was left over. -/
theorem Edited.append (h : Edited keys st) (h0 : c ≠ 0) (h8 : c ≠ backspace) (hroom : st.inputLength < 255) :
    Edited (keys ++ [c]) { st.writeChar c with
      inputBuffer := store st.inputBuffer st.inputLength c, inputLength := st.inputLength + 1 } := by
  have hedit : edit (lineOf keys) c = lineOf keys ++ [c] := edit_append h0 h8 (by rw [← h.length]; exact hroom)
  have hline : lineOf (keys ++ [c]) = lineOf keys ++ [c] := (lineOf_snoc keys c).trans hedit
  have hcell (j : ℕ) : cell (store st.inputBuffer st.inputLength c) j =
      if j = st.inputLength then c else cell st.inputBuffer j := cell_store _ _ _ (by omega)
  constructor
  · rw [hline, List.length_append, ← h.length]
    rfl
  · show (List.range (st.inputLength + 1)).map (cell (store st.inputBuffer st.inputLength c)) = _
    rw [hline, List.range_succ, List.map_append, map_cell_store (by omega) (Nat.le_refl _), h.characters,
      List.map_singleton,
      hcell, if_pos rfl]
  · rw [hline, List.mem_append, List.mem_singleton]
    rintro (hm | hm)
    · exact h.nonzero hm
    · exact h0 hm.symm
  · refine iff_of_false (not_not_intro ?_) ?_
    · show cell (store st.inputBuffer st.inputLength c) (st.inputLength + 1) = 0
      rw [hcell, if_neg (by omega)]
      exact h.beyond _ (Nat.lt_succ_self _)
    · rw [erasedLast_snoc, hedit]
      rintro (⟨hc, -⟩ | ⟨-, hc⟩)
      · exact h8 hc
      · simp at hc
  · intro j hj
    have hj : st.inputLength + 1 < j := hj
    show cell (store st.inputBuffer st.inputLength c) j = 0
    rw [hcell, if_neg (by omega)]
    exact h.beyond j (by omega)
  · show cell (store st.inputBuffer st.inputLength c) 255 = 0
    rw [hcell, if_neg (by omega)]
    exact h.last
  · show lineOf (st.written ++ [c]) = _
    rw [lineOf_snoc, lineOf_snoc, h.written]

/-- The editor takes one character after another until the newline, and keeps the buffer as described. -/
theorem handleInput_edited {rest : List UInt8} (h : Edited keys st) (hrest : newline ∉ rest) :
    ∃ st', handleInput (rest ++ [newline]) st = some (st'.writeChar newline) ∧ Edited (keys ++ rest) st' := by
  induction rest generalizing keys st with
  | nil =>
    refine ⟨st, ?_, by rwa [List.append_nil]⟩
    rw [List.nil_append, handleInput, if_neg (by decide), if_pos rfl]
  | cons c rest ih =>
    rw [List.mem_cons, not_or] at hrest
    have step {st' : Input} (h' : Edited (keys ++ [c]) st') :
        ∃ st'', handleInput (rest ++ [newline]) st' = some (st''.writeChar newline) ∧
        Edited (keys ++ c :: rest) st'' := by
      have := ih h' hrest.2
      rwa [List.append_assoc] at this
    have hskip (he : edit (lineOf keys) c = lineOf keys) (hc : ¬ (c = backspace ∧ lineOf keys ≠ [])) :=
      step (h.skip he hc)
    rw [List.cons_append, handleInput]
    by_cases h0 : c = 0
    · subst h0
      rw [if_pos rfl]
      exact hskip (if_pos rfl) fun h => absurd h.1 (by decide)
    rw [if_neg h0, if_neg fun h => hrest.1 h.symm]
    by_cases h8 : c = backspace
    · subst h8
      rw [if_pos rfl]
      by_cases hpos : 0 < st.inputLength
      · rw [if_pos hpos]
        exact step (h.erase hpos)
      · -- there is nothing to erase
        have hempty : lineOf keys = [] := List.length_eq_zero_iff.1 (by rw [← h.length]; omega)
        rw [if_neg hpos]
        exact hskip (by rw [edit_backspace, hempty]; rfl) fun h => h.2 hempty
    · rw [if_neg h8]
      by_cases hroom : st.inputLength < 255
      · rw [if_pos hroom]
        exact step (h.append h0 h8 hroom)
      · have hfull : edit (lineOf keys) c = lineOf keys := by
          unfold edit
          rw [if_neg h0, if_neg h8, if_neg (by rw [← h.length]; exact hroom)]
        rw [if_neg hroom]
        exact hskip hfull fun h => h8 h.1

/-! ## The string -/

/-- A character of the line is not null. -/
theorem Edited.cell_ne_zero (h : Edited keys st) {j : ℕ} (hj : j < st.inputLength) : cell st.inputBuffer j ≠ 0 := by
  intro h0
  refine h.nonzero ?_
  rw [← h.characters, ← h0]
  exact List.mem_map_of_mem (List.mem_range.2 hj)

/-- The string in the buffer is as long as the counter says when nothing is left over. -/
theorem Edited.strlen_iff (h : Edited keys st) : strlen st.inputBuffer 0 = st.inputLength ↔ ¬ ErasedLast keys := by
  have hlen : st.inputLength ≤ 255 := h.length ▸ length_lineOf keys
  have hfirst : first (fun i => cell st.inputBuffer i == 0) 0 256 = some st.inputLength ↔ ¬ ErasedLast keys := by
    rw [← h.leftover, not_not, first_eq_some]
    constructor
    · rintro ⟨-, -, h0, -⟩
      exact beq_iff_eq.1 h0
    · intro h0
      exact ⟨Nat.zero_le _, by omega, beq_iff_eq.2 h0, fun j _ hj => beq_eq_false_iff_ne.2 (h.cell_ne_zero hj)⟩
  rw [← hfirst, strlen, Nat.sub_zero]
  rcases first (fun i => cell st.inputBuffer i == 0) 0 256 with _ | i
  · simp
    omega
  · simp

/-- The string of a buffer in which nothing is left over is the line. -/
theorem Edited.stringAt_eq (h : Edited keys st) (hs : strlen st.inputBuffer 0 = st.inputLength) :
    stringAt st.inputBuffer 0 = lineOf keys := by
  rw [stringAt, hs, ← List.range_eq_range', h.characters]

/-- Whatever is typed up to a newline, the string in the buffer is the line that it spells, and as long as the counter
says, if and only if the last character that changed the line was not a backspace. -/
theorem handleInput_line_iff (buffer : Vector UInt8 256) (h : newline ∉ keys) :
    ∃ st, handleInput (keys ++ [newline]) (startInput buffer) = some st ∧
      (stringAt st.inputBuffer 0 = lineOf keys ∧ (stringAt st.inputBuffer 0).length = st.inputLength ↔
        ¬ ErasedLast keys) := by
  obtain ⟨st, hst, hedited⟩ := handleInput_edited (edited_start buffer) h
  rw [List.nil_append] at hedited
  have hlength : (stringAt st.inputBuffer 0).length = strlen st.inputBuffer 0 := by
    rw [stringAt, List.length_map, List.length_range']
  refine ⟨_, hst, ?_⟩
  show stringAt st.inputBuffer 0 = lineOf keys ∧ (stringAt st.inputBuffer 0).length = st.inputLength ↔ _
  rw [hlength, hedited.strlen_iff]
  constructor
  · exact fun h => h.2
  · exact fun hn => ⟨hedited.stringAt_eq (hedited.strlen_iff.2 hn), hn⟩

/-- The line `ab`, with a `c` that was erased in its middle. -/
theorem handleInput_line_iff_ab : ∃ st,
    handleInput ([97, 99, backspace, 98] ++ [newline]) (startInput (Vector.replicate 256 0)) = some st ∧
      stringAt st.inputBuffer 0 = [97, 98] ∧ st.inputLength = 2 := by
  have hkeys : newline ∉ [97, 99, backspace, 98] := by decide
  obtain ⟨st, hst, hline⟩ := handleInput_line_iff (Vector.replicate 256 0) hkeys
  have hlast : ¬ ErasedLast ([97, 99, backspace] ++ [98]) := by
    rw [erasedLast_snoc]
    rintro (⟨h, -⟩ | ⟨-, h⟩)
    · exact absurd h (by decide)
    · exact absurd h (by decide)
  obtain ⟨hs, hl⟩ := hline.2 hlast
  rw [hs] at hl
  exact ⟨st, hst, hs, hl.symm⟩

/-- An `a` that is erased before the newline is still the string in the buffer. -/
theorem handleInput_leftover : ¬ ∀ (keys : List UInt8) (buffer : Vector UInt8 256) (st : Input), newline ∉ keys →
    handleInput (keys ++ [newline]) (startInput buffer) = some st →
      stringAt st.inputBuffer 0 = lineOf keys ∧ (stringAt st.inputBuffer 0).length = st.inputLength := by
  intro hall
  have hkeys : newline ∉ [97] ++ [backspace] := by decide
  obtain ⟨st, hst, hline⟩ := handleInput_line_iff (Vector.replicate 256 0) hkeys
  exact hline.1 (hall _ _ st hkeys hst) (.erase (by decide))

end BebasOs.Shell
