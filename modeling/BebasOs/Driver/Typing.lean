/-
What each function of `framebuffer.c` does to the screen, with the cursor as one number: clearing,
scrolling, and the four ways a character is typed.
-/
import BebasOs.Driver.Framebuffer

namespace BebasOs.Driver

open Bytes Loop

/-- The cell that `framebuffer_write` makes of the arguments 0x00, 0x07, 0x07. -/
def blank : Cell := ⟨0x00, 0x07 ||| 0x07⟩

/-- The cursor as a number, the row in eighties. -/
def Screen.pos (s : Screen) : ℕ := (getCursorPos s).toNat

/-- The character of a cell. -/
def Screen.glyph (s : Screen) (k : ℕ) : UInt8 := (cell s.cells k).char

/-! ## The controller -/

/-- The two registers put together again are the position that was split. -/
theorem registers_join (x : UInt16) :
    (x &&& 0xFF).toUInt8.toUInt16 ||| (x >>> 8 &&& 0xFF).toUInt8.toUInt16 <<< 8 = x := by
  have hx := x.toNat_lt
  have hlow : (x &&& 0xFF).toUInt8.toUInt16.toNat = x.toNat % 256 := by
    have h : x.toNat &&& 255 = x.toNat % 2 ^ 8 := Nat.and_two_pow_sub_one_eq_mod _ 8
    rw [UInt8.toNat_toUInt16, UInt16.toNat_toUInt8, UInt16.toNat_and]
    show (x.toNat &&& 255) % 256 = _
    omega
  have hhigh : (x >>> 8 &&& 0xFF).toUInt8.toUInt16.toNat = x.toNat / 256 := by
    have h : (x.toNat >>> 8) &&& 255 = (x.toNat >>> 8) % 2 ^ 8 := Nat.and_two_pow_sub_one_eq_mod _ 8
    rw [UInt8.toNat_toUInt16, UInt16.toNat_toUInt8, UInt16.toNat_and, UInt16.toNat_shiftRight]
    show ((x.toNat >>> 8) &&& 255) % 256 = _
    rw [h, Nat.shiftRight_eq_div_pow]
    omega
  have hshift : (x.toNat / 256) <<< 8 % 2 ^ 16 = (x.toNat / 256) <<< 8 := by
    rw [Nat.shiftLeft_eq]
    omega
  apply UInt16.toNat_inj.1
  rw [UInt16.toNat_or, UInt16.toNat_shiftLeft, hlow, hhigh]
  show x.toNat % 256 ||| (x.toNat / 256) <<< 8 % 2 ^ 16 = x.toNat
  rw [hshift, Nat.or_comm, ← Nat.shiftLeft_add_eq_or_of_lt (Nat.mod_lt _ (by decide)), Nat.shiftLeft_eq]
  omega

@[simp] theorem pos_setCursor (s : Screen) (r c : UInt8) :
    (framebufferSetCursor s r c).pos = r.toNat * 80 + c.toNat := by
  have hr := r.toNat_lt
  have hc := c.toNat_lt
  unfold Screen.pos getCursorPos framebufferSetCursor
  dsimp only
  rw [registers_join, UInt16.toNat_add, UInt16.toNat_mul, UInt8.toNat_toUInt16, UInt8.toNat_toUInt16]
  show (r.toNat * 80 % 2 ^ 16 + c.toNat) % 2 ^ 16 = _
  omega

theorem row_toNat (s : Screen) : (getCursorPos s / 80).toNat = s.pos / 80 := UInt16.toNat_div _ _

theorem col_toNat (s : Screen) : (getCursorPos s % 80).toNat = s.pos % 80 := UInt16.toNat_mod _ _

theorem row_pos {s : Screen} (h : 0 < getCursorPos s / 80) : 0 < s.pos / 80 := by
  rw [← row_toNat]
  exact h

theorem row_pred {s : Screen} (h : 0 < getCursorPos s / 80) : (getCursorPos s / 80 - 1).toNat = s.pos / 80 - 1 := by
  rw [UInt16.toNat_sub_of_le _ 1 (by rw [UInt16.le_iff_toNat_le, row_toNat]; exact row_pos h), row_toNat]
  rfl

/-! ## Cells -/

theorem putCell_of_lt (s : Screen) {k : ℕ} (v : Cell) (h : k < 2000) :
    putCell s k v = some { s with cells := store s.cells k v } := if_pos h

theorem getCell_of_lt (s : Screen) {k : ℕ} (h : k < 2000) : getCell s k = some (cell s.cells k) := if_pos h

/-- A write to a row and column of the grid. -/
theorem framebufferWrite_at (s : Screen) {row col : UInt8} {p : ℕ} (c fg bg : UInt8)
    (hp : row.toNat * 80 + col.toNat = p) (h : p < 2000) :
    framebufferWrite s row col c fg bg = some { s with cells := store s.cells p ⟨c, fg ||| bg⟩ } := by
  unfold framebufferWrite
  rw [hp]
  exact putCell_of_lt s _ h

theorem framebufferGet_at (s : Screen) {row col : UInt8} {p : ℕ} (hp : row.toNat * 80 + col.toNat = p) (h : p < 2000) :
    framebufferGet s row col = some (s.glyph p) := by
  unfold framebufferGet
  rw [hp, getCell_of_lt s h]
  rfl

/-! ## Clearing -/

/-- `framebuffer_clear` goes column by column; here the columns before the `i`-th and the first `j` rows of
it are blank. -/
def Cleared (i j : ℕ) (s : Screen) : Prop :=
  ∀ k < 2000, k % 80 < i ∨ k % 80 = i ∧ k / 80 < j → cell s.cells k = blank

theorem clear_column {i : ℕ} {s : Screen} (hi : i < 80) (h : Cleared i 0 s) :
    ∃ s', counted 25 (fun j s => framebufferWrite s (UInt8.ofNat j) (UInt8.ofNat i) 0x00 0x07 0x07) s = some s' ∧
      Cleared i 25 s' := by
  refine counted_rule _ (Cleared i) h 25 fun j hj t hI => ?_
  have hp : (UInt8.ofNat j).toNat * 80 + (UInt8.ofNat i).toNat = j * 80 + i := by
    rw [UInt8.toNat_ofNat', UInt8.toNat_ofNat']
    omega
  refine ⟨_, framebufferWrite_at t 0x00 0x07 0x07 hp (by omega), fun k hk hkj => ?_⟩
  rw [cell_store _ _ _ (by omega)]
  split
  · rfl
  · exact hI k hk (by omega)

theorem framebufferClear_spec (s : Screen) :
    ∃ s', framebufferClear s = some s' ∧ s'.pos = 0 ∧ ∀ k < 2000, cell s'.cells k = blank := by
  have h₀ : Cleared 0 0 s := fun k _ h => by omega
  obtain ⟨t, ht, hI⟩ := counted_rule _ (fun i => Cleared i 0) h₀ 80 fun i hi u hI => by
    obtain ⟨v, hv, hJ⟩ := clear_column hi hI
    exact ⟨v, hv, fun k hk h => hJ k hk (by omega)⟩
  refine ⟨framebufferSetCursor t 0 0, ?_, by simp, fun k hk => hI k hk (.inl (Nat.mod_lt k (by decide)))⟩
  unfold framebufferClear
  rw [ht]
  rfl

/-! ## Scrolling -/

/-- `shift_up` copies forward, so the cells up to the one reached have moved and the others have not. -/
def Raised (t u : Vector Cell 2000) (n : ℕ) : Prop :=
  ∀ k < 2000, cell u k = if k < n then cell t (k + 80) else cell t k

/-- Every row has the cells of the row below it, and the last row is blank. -/
def Scrolled (t u : Vector Cell 2000) : Prop :=
  ∀ k < 2000, cell u k = if k < 1920 then cell t (k + 80) else blank

theorem moveUp_raised {t : Vector Cell 2000} {s : Screen} {i j : ℕ} (hi : i < 24) (hj : j < 80)
    (h : Raised t s.cells (i * 80 + j)) : ∃ s', moveUp s i j = some s' ∧ Raised t s'.cells (i * 80 + (j + 1)) := by
  have hbelow : getCell s ((i + 1) * 80 + j) = some (cell t (i * 80 + j + 80)) := by
    rw [getCell_of_lt s (by omega), h _ (by omega), if_neg (by omega)]
    congr 2
    omega
  unfold moveUp
  rw [hbelow]
  refine ⟨_, putCell_of_lt s _ (by omega), fun k hk => ?_⟩
  rw [cell_store _ _ _ (by omega)]
  split
  · subst_vars
    rw [if_pos (by omega)]
  · rw [h k hk]
    congr 1
    simp only [eq_iff_iff]
    omega

theorem raise_rows (s : Screen) :
    ∃ s', counted 24 (fun i => counted 80 fun j s => moveUp s i j) s = some s' ∧ Raised s.cells s'.cells 1920 := by
  refine counted_rule _ (fun i (t : Screen) => Raised s.cells t.cells (i * 80)) (fun _ _ => rfl) 24 fun i hi t hI => ?_
  obtain ⟨u, hu, hJ⟩ := counted_rule (fun j s => moveUp s i j) (fun j u => Raised s.cells u.cells (i * 80 + j)) hI 80
    fun j hj u hJ => moveUp_raised hi hj hJ
  exact ⟨u, hu, by rwa [Nat.succ_mul]⟩

theorem clear_lastRow {t : Vector Cell 2000} {s : Screen} (h : Raised t s.cells 1920) :
    ∃ s', counted 80 (fun j s => framebufferWrite s 24 (UInt8.ofNat j) 0x00 0x07 0x07) s = some s' ∧
      Scrolled t s'.cells := by
  obtain ⟨u, hu, hB⟩ := counted_rule (fun j s => framebufferWrite s 24 (UInt8.ofNat j) 0x00 0x07 0x07)
    (fun j u => ∀ k < 1920 + j, cell u.cells k = if k < 1920 then cell t (k + 80) else blank)
    (fun k hk => by rw [h k (by omega), if_pos hk, if_pos hk]) 80 fun j hj u hB => by
      have hp : (24 : UInt8).toNat * 80 + (UInt8.ofNat j).toNat = 1920 + j := by
        rw [UInt8.toNat_ofNat']
        show 24 * 80 + j % 256 = _
        omega
      refine ⟨_, framebufferWrite_at u 0x00 0x07 0x07 hp (by omega), fun k hk => ?_⟩
      rw [cell_store _ _ _ (by omega)]
      split
      · rw [if_neg (by omega)]
        rfl
      · exact hB k (by omega)
  exact ⟨u, hu, hB⟩

theorem shiftUp_spec (s : Screen) : ∃ s', shiftUp s = some s' ∧ Scrolled s.cells s'.cells := by
  obtain ⟨t, ht, hR⟩ := raise_rows s
  obtain ⟨u, hu, hS⟩ := clear_lastRow hR
  refine ⟨u, ?_, hS⟩
  unfold shiftUp
  rw [ht, Option.bind_eq_bind, Option.bind_some]
  exact hu

/-! ## Typing -/

/-- After a character the cursor goes to the cell `q`; below the grid, the rows scroll and it goes to the
start of the last one. -/
def Settled (t : Vector Cell 2000) (q : ℕ) (s' : Screen) : Prop :=
  if q < 2000 then s'.cells = t ∧ s'.pos = q else Scrolled t s'.cells ∧ s'.pos = 1920

/-- The cell to go on from after typing `c` in the cell `p`. -/
def following (c : UInt8) (p : ℕ) : ℕ := if c = newline then (p / 80 + 1) * 80 else p + 1

inductive PutcharSpec (s : Screen) (c : UInt8) : Screen → Prop
  | idle : c = 0 → PutcharSpec s c s
  | typed {s' : Screen} (v : Cell) : c ≠ 0 → c ≠ backspace → v.char = c →
      Settled (store s.cells s.pos v) (following c s.pos) s' → PutcharSpec s c s'
  | erased {s' : Screen} (q : ℕ) : c = backspace → q < s.pos →
      s'.cells = store s.cells q blank → s'.pos = q → PutcharSpec s c s'
  | home {s' : Screen} : c = backspace → s.pos = 0 → s'.cells = s.cells → s'.pos = 0 → PutcharSpec s c s'

/-- A row has a character in it. -/
def Filled (t : Vector Cell 2000) (row : ℕ) : Prop := ∃ col < 80, (cell t (row * 80 + col)).char ≠ 0

/-- The cursor is in the grid, and every row above it has a character in it. -/
structure OnScreen (s : Screen) : Prop where
  pos_lt : s.pos < 2000
  filled : ∀ row < s.pos / 80, Filled s.cells row

/-- The row after the wrap, for any row and column of one cell. -/
theorem wrapped_row (row col : UInt16) {q : ℕ} (hq : row.toNat * 80 + col.toNat = q) (hle : q ≤ 2000) :
    (row + col / 80).toNat = q / 80 := by
  rw [UInt16.toNat_add, UInt16.toNat_div]
  show (row.toNat + col.toNat / 80) % 2 ^ 16 = _
  omega

theorem settle_spec (t : Screen) (row col : UInt16) {q : ℕ}
    (hq : row.toNat * 80 + col.toNat = q) (hle : q ≤ 2000) :
    ∃ s', putcharSettle t row col = some s' ∧ Settled t.cells q s' := by
  have hr := wrapped_row row col hq hle
  have hc : (col % 80).toNat = q % 80 := by
    rw [UInt16.toNat_mod]
    show col.toNat % 80 = _
    omega
  have hpos (u : Screen) (r : UInt8) (n : ℕ) (hn : r.toNat * 80 + q % 80 = n) :
      (framebufferSetCursor u r (col % 80).toUInt8).pos = n := by
    rw [pos_setCursor, UInt16.toNat_toUInt8, hc]
    omega
  unfold putcharSettle Settled
  by_cases h : q < 2000
  · have h25 : row + col / 80 ≠ 25 := fun e => by
      have := congrArg UInt16.toNat e
      rw [hr] at this
      change q / 80 = 25 at this
      omega
    rw [if_neg h25]
    refine ⟨_, rfl, ?_⟩
    rw [if_pos h]
    refine ⟨rfl, hpos _ _ _ ?_⟩
    rw [UInt16.toNat_toUInt8, hr]
    omega
  · have h25 : row + col / 80 = 25 := UInt16.toNat_inj.1 (by
      rw [hr]
      show q / 80 = 25
      omega)
    obtain ⟨u, hu, hS⟩ := shiftUp_spec t
    rw [if_pos h25, hu]
    refine ⟨_, rfl, ?_⟩
    rw [if_neg h]
    refine ⟨hS, hpos _ _ _ ?_⟩
    show 24 * 80 + q % 80 = 1920
    omega

/-- A place of the row that the search comes to before it has passed the column `d`. -/
def Searching (row : UInt16) (d : ℕ) (at' : UInt16 × UInt16) : Prop :=
  at'.1 = row ∧ at'.2.toNat < 80 ∧ d ≤ at'.2.toNat

/-- A round of the search stops at a column with a character in it, and goes one to the left at any other. -/
theorem searchBack_round {s : Screen} {row : UInt16} {d : ℕ} (hrow : row.toNat < 25)
    (hd : s.glyph (row.toNat * 80 + d) ≠ 0) (x : UInt16 × UInt16) (hx : Searching row d x) :
    isVacant s x = some false ∧ s.glyph (row.toNat * 80 + x.2.toNat) ≠ 0 ∨
      isVacant s x = some true ∧ s.glyph (row.toNat * 80 + x.2.toNat) = 0 ∧
        ∃ y, stepBack x = some y ∧ Searching row d y ∧ y.2.toNat + 1 = x.2.toNat := by
  obtain ⟨r, c⟩ := x
  obtain ⟨rfl, hc, hdc⟩ := hx
  dsimp only at hrow hd hc hdc
  have hget : isVacant s (r, c) = some (s.glyph (r.toNat * 80 + c.toNat) == 0 &&
      s.glyph (r.toNat * 80 + c.toNat) != newline) := by
    unfold isVacant
    rw [framebufferGet_at s (p := r.toNat * 80 + c.toNat) (by simp; omega) (by omega)]
    rfl
  rw [hget]
  by_cases hg : s.glyph (r.toNat * 80 + c.toNat) = 0
  · have hne : c.toNat ≠ d := fun e => hd (e ▸ hg)
    have hc0 : c ≠ 0 := fun e => by
      rw [e] at hne hdc
      exact hne (Nat.le_zero.1 hdc).symm
    have hpred : (c - 1).toNat = c.toNat - 1 := by
      rw [UInt16.toNat_sub_of_le c 1 (by rw [UInt16.le_iff_toNat_le]; show 1 ≤ c.toNat; omega)]
      rfl
    refine .inr ⟨by rw [hg]; rfl, hg, (r, c - 1), if_neg hc0, ⟨rfl, ?_, ?_⟩, ?_⟩ <;> dsimp only <;> omega
  · refine .inl ⟨?_, hg⟩
    rw [beq_eq_false_iff_ne.2 hg]
    rfl

/-- The search backwards from the end of a row with a character in it ends at the last character of the row. -/
theorem searchBack_spec (s : Screen) (row : UInt16) (hrow : row.toNat < 25) (h : Filled s.cells row.toNat) :
    ∃ col, col.toNat < 80 ∧ searchBack s row (80 - 1) = some (row, col) ∧
      s.glyph (row.toNat * 80 + col.toNat) ≠ 0 ∧
        ∀ k, col.toNat < k → k < 80 → s.glyph (row.toNat * 80 + k) = 0 := by
  obtain ⟨d, hd, hg⟩ := h
  -- the columns that the search has passed are empty
  have hI : Searching row d (row, 80 - 1) ∧
      ∀ k, (80 - 1 : UInt16).toNat < k → k < 80 → s.glyph (row.toNat * 80 + k) = 0 := by
    refine ⟨⟨rfl, (by decide : (80 - 1 : UInt16).toNat < 80), ?_⟩, fun k h1 h2 => ?_⟩
    · show d ≤ 79
      omega
    · have h1 : 79 < k := h1
      omega
  have hfuel : (80 - 1 : UInt16).toNat < 2 ^ 16 * 80 := by decide
  have hround (x : UInt16 × UInt16) (hx : Searching row d x ∧
      ∀ k, x.2.toNat < k → k < 80 → s.glyph (row.toNat * 80 + k) = 0) : isVacant s x = some false ∨
      isVacant s x = some true ∧ ∃ y, stepBack x = some y ∧ (Searching row d y ∧
        ∀ k, y.2.toNat < k → k < 80 → s.glyph (row.toNat * 80 + k) = 0) ∧ y.2.toNat < x.2.toNat := by
    obtain ⟨hx, hpassed⟩ := hx
    rcases searchBack_round hrow hg x hx with ⟨ht, -⟩ | ⟨ht, hzero, y, hy, hsy, hlt⟩
    · exact .inl ht
    · refine .inr ⟨ht, y, hy, ⟨hsy, fun k h1 h2 => ?_⟩, by omega⟩
      rcases Nat.lt_or_ge x.2.toNat k with h3 | h3
      · exact hpassed k h3 h2
      · rwa [show k = x.2.toNat by omega]
  obtain ⟨⟨r, c⟩, hs, ⟨hx, hpassed⟩, hstop⟩ := guarded_rule _ (fun x : UInt16 × UInt16 => x.2.toNat) hround _ _ hI hfuel
  have hfound : s.glyph (row.toNat * 80 + c.toNat) ≠ 0 := by
    rcases searchBack_round hrow hg (r, c) hx with ⟨-, hne⟩ | ⟨ht, -⟩
    · exact hne
    · rw [hstop] at ht
      cases ht
  obtain ⟨rfl, hc, -⟩ := hx
  exact ⟨c, hc, hs, hfound, hpassed⟩

/-- The branch of a character that is no backspace: it is written at the cursor, and the row and column to go on from
are those of the cell that follows. -/
theorem putcharBranch_typed {s : Screen} {c : UInt8} (color : UInt32) (hp : s.pos < 2000) (hb : c ≠ backspace) :
    ∃ t v row col, putcharBranch s c color (getCursorPos s / 80) (getCursorPos s % 80) = some (t, row, col) ∧
      v.char = c ∧ t.cells = store s.cells s.pos v ∧ row.toNat * 80 + col.toNat = following c s.pos := by
  have hrow := row_toNat s
  have hcol := col_toNat s
  have hat : (getCursorPos s / 80).toUInt8.toNat * 80 + (getCursorPos s % 80).toUInt8.toNat = s.pos := by
    rw [UInt16.toNat_toUInt8, UInt16.toNat_toUInt8, hrow, hcol]
    omega
  unfold putcharBranch
  by_cases hn : c = newline
  · have hq : (getCursorPos s / 80 + 1).toNat * 80 + (0 : UInt16).toNat = following c s.pos := by
      rw [following, if_pos hn, UInt16.toNat_add, hrow]
      show (s.pos / 80 + 1) % 2 ^ 16 * 80 + 0 = _
      omega
    rw [if_pos hn, framebufferWrite_at s c 0x00 0x00 hat hp]
    exact ⟨_, _, _, _, rfl, rfl, rfl, hq⟩
  · have hq : (getCursorPos s / 80).toNat * 80 + (getCursorPos s % 80 + 1).toNat = following c s.pos := by
      rw [following, if_neg hn, UInt16.toNat_add, hrow, hcol]
      show s.pos / 80 * 80 + (s.pos % 80 + 1) % 2 ^ 16 = _
      omega
    rw [if_neg hn, if_neg hb, framebufferWrite_at s c color.toUInt8 0 hat hp]
    exact ⟨_, _, _, _, rfl, rfl, rfl, hq⟩

theorem following_le {p : ℕ} (c : UInt8) (hp : p < 2000) : following c p ≤ 2000 := by
  unfold following
  split <;> omega

theorem typed_spec {s : Screen} {c : UInt8} (color : UInt32) (hp : s.pos < 2000) (h₀ : c ≠ 0) (hb : c ≠ backspace) :
    ∃ s', putchar s c color = some s' ∧ PutcharSpec s c s' := by
  obtain ⟨t, v, row, col, hbranch, hv, ht, hq⟩ := putcharBranch_typed color hp hb
  obtain ⟨s', hs', hS⟩ := settle_spec t row col hq (following_le c hp)
  unfold putchar
  rw [if_neg h₀, hbranch]
  rw [ht] at hS
  exact ⟨s', hs', .typed v h₀ hb hv hS⟩

/-- What a backspace does: it goes back to the last character before the cursor, or, inside a row, to the cell before
the cursor, and clears it. -/
inductive Erasure (s s' : Screen) : Prop
  | erased (q : ℕ) (hlt : q < s.pos) (hq : s.glyph q ≠ 0 ∨ s.pos % 80 ≠ 0 ∧ q + 1 = s.pos)
      (hbetween : ∀ k, q < k → k < s.pos → s.glyph k = 0) (hcells : s'.cells = store s.cells q blank)
      (hpos : s'.pos = q) : Erasure s s'
  | home (h : s.pos = 0) (hcells : s'.cells = s.cells) (hpos : s'.pos = 0) : Erasure s s'

/-- Erasing the cell `q` before the cursor. -/
theorem erase_spec (s : Screen) (row col : UInt16) {q : ℕ} (hrow : row.toNat < 25) (hcol : col.toNat < 80)
    (hq : row.toNat * 80 + col.toNat = q) :
    ∃ t s', framebufferWrite s row.toUInt8 col.toUInt8 0x00 0x07 0x07 = some t ∧
      putcharSettle t row col = some s' ∧ s'.cells = store s.cells q blank ∧ s'.pos = q := by
  have hat : row.toUInt8.toNat * 80 + col.toUInt8.toNat = q := by
    rw [UInt16.toNat_toUInt8, UInt16.toNat_toUInt8]
    omega
  obtain ⟨s', hs', hS⟩ := settle_spec { s with cells := store s.cells q blank } row col hq (by omega)
  rw [Settled, if_pos (by omega)] at hS
  exact ⟨_, s', framebufferWrite_at s 0x00 0x07 0x07 hat (by omega), hs', hS.1, hS.2⟩

/-- The backspace branch. -/
theorem erasure_spec {s : Screen} (color : UInt32) (h : OnScreen s) :
    ∃ s', putchar s backspace color = some s' ∧ Erasure s s' := by
  have hp := h.pos_lt
  have hrow := row_toNat s
  have hcol := col_toNat s
  unfold putchar putcharBranch
  rw [if_neg (by decide), if_neg (by decide), if_pos rfl]
  by_cases hc : 0 < getCursorPos s % 80
  · have hc' : 0 < s.pos % 80 := by rw [← hcol]; exact hc
    have hpred : (getCursorPos s % 80 - 1).toNat = s.pos % 80 - 1 := by
      rw [UInt16.toNat_sub_of_le _ 1 (by rw [UInt16.le_iff_toNat_le, hcol]; exact hc'), hcol]
      rfl
    rw [if_pos hc]
    obtain ⟨t, s', ht, hs', hcells, hpos⟩ := erase_spec s (getCursorPos s / 80) (getCursorPos s % 80 - 1)
      (by omega) (by omega) (q := s.pos - 1) (by rw [hrow, hpred]; omega)
    rw [ht]
    exact ⟨s', hs', .erased _ (by omega) (.inr ⟨by omega, by omega⟩) (fun k h1 h2 => by omega) hcells hpos⟩
  · have hc' : s.pos % 80 = 0 := by
      rw [← hcol]
      exact Nat.le_zero.1 (Nat.not_lt.1 hc)
    rw [if_neg hc]
    by_cases hr : 0 < getCursorPos s / 80
    · have hr' := row_pos hr
      have hpred := row_pred hr
      obtain ⟨col, hcol', hs, hfound, hpassed⟩ := searchBack_spec s (getCursorPos s / 80 - 1) (by omega)
        (by rw [hpred]; exact h.filled _ (by omega))
      obtain ⟨t, s', ht, hs', hcells, hpos⟩ := erase_spec s (getCursorPos s / 80 - 1) col (by omega) hcol' rfl
      rw [if_pos hr, hs]
      simp only [Option.bind_eq_bind, Option.bind_some, ht]
      refine ⟨s', hs', .erased _ (by rw [hpred]; omega) (.inl hfound) (fun k h1 h2 => ?_) hcells hpos⟩
      -- what lies between is the rest of the row above
      rw [hpred] at h1 hpassed
      have hk := hpassed (k - (s.pos / 80 - 1) * 80) (by omega) (by omega)
      rwa [show (s.pos / 80 - 1) * 80 + (k - (s.pos / 80 - 1) * 80) = k by omega] at hk
    · have hr' : s.pos / 80 = 0 := by
        rw [← hrow]
        exact Nat.le_zero.1 (Nat.not_lt.1 hr)
      rw [if_neg hr]
      obtain ⟨s', hs', hS⟩ := settle_spec s (getCursorPos s / 80) (getCursorPos s % 80) (q := 0)
        (by omega) (by omega)
      rw [Settled, if_pos (by omega)] at hS
      exact ⟨s', hs', .home (by omega) hS.1 hS.2⟩

theorem erased_spec {s : Screen} (color : UInt32) (h : OnScreen s) :
    ∃ s', putchar s backspace color = some s' ∧ PutcharSpec s backspace s' := by
  obtain ⟨s', hs', herasure⟩ := erasure_spec color h
  refine ⟨s', hs', ?_⟩
  cases herasure with
  | erased q hlt _ _ hcells hpos => exact .erased q rfl hlt hcells hpos
  | home h hcells hpos => exact .home rfl h hcells hpos

theorem putchar_spec {s : Screen} (c : UInt8) (color : UInt32) (h : OnScreen s) :
    ∃ s', putchar s c color = some s' ∧ PutcharSpec s c s' := by
  by_cases h₀ : c = 0
  · exact ⟨s, if_pos h₀, .idle h₀⟩
  by_cases hb : c = backspace
  · subst hb
    exact erased_spec color h
  · exact typed_spec color h.pos_lt h₀ hb

end BebasOs.Driver
