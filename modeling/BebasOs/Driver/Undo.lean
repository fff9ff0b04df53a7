/-
Backspaces take back what was typed. A backspace goes by the characters on the screen alone: it looks for the last
one before the cursor. On a screen that was cleared and typed on, nothing is at the cursor or behind it, so what it
finds is what was typed last, wherever a newline or the end of a row has taken the cursor since.
-/
import BebasOs.Driver.OnScreen

namespace BebasOs.Driver

open Bytes Loop

variable {s t u : Screen} {c : UInt8} {color : UInt32}

/-! ## The end of the text -/

/-- There is no character at the cursor or behind it. -/
structure AtEnd (s : Screen) : Prop extends OnScreen s where
  behind : ∀ k < 2000, s.pos ≤ k → s.glyph k = 0

theorem glyph_blank {k : ℕ} (h : cell s.cells k = blank) : s.glyph k = 0 := by
  unfold Screen.glyph
  rw [h]
  rfl

theorem AtEnd.of_clear (hpos : s.pos = 0) (h : ∀ k < 2000, cell s.cells k = blank) : AtEnd s :=
  ⟨.of_clear hpos, fun k hk _ => glyph_blank (h k hk)⟩

theorem lt_following (c : UInt8) (p : ℕ) : p < following c p := by
  unfold following
  split <;> omega

theorem glyph_of_store {v : Cell} {p : ℕ} (hc : t.cells = store s.cells p v) (hp : p < 2000) (k : ℕ) :
    t.glyph k = if k = p then v.char else s.glyph k := by
  unfold Screen.glyph
  rw [hc, cell_store _ _ _ hp]
  split <;> rfl

theorem AtEnd.erasure (h : AtEnd s) (he : Erasure s t) (ht : OnScreen t) : AtEnd t := by
  refine ⟨ht, fun k hk hle => ?_⟩
  cases he with
  | erased q hlt _ hbetween hcells hpos =>
    have hp := h.pos_lt
    rw [glyph_of_store hcells (by omega)]
    split
    · rfl
    · rcases Nat.lt_or_ge k s.pos with hks | hks
      · exact hbetween k (by omega) hks
      · exact h.behind k hk hks
  | home h0 hcells _ =>
    have hglyph : t.glyph k = s.glyph k := by
      unfold Screen.glyph
      rw [hcells]
    rw [hglyph]
    exact h.behind k hk (by omega)

theorem AtEnd.typed {v : Cell} (h : AtEnd s) (hS : Settled (store s.cells s.pos v) (following c s.pos) t)
    (ht : OnScreen t) : AtEnd t := by
  have hp := h.pos_lt
  have hlt := lt_following c s.pos
  refine ⟨ht, fun k hk hle => ?_⟩
  unfold Settled at hS
  split at hS
  · obtain ⟨hcells, hpos⟩ := hS
    rw [glyph_of_store hcells hp, if_neg (by omega)]
    exact h.behind k hk (by omega)
  · obtain ⟨hscrolled, hpos⟩ := hS
    refine glyph_blank ?_
    rw [hscrolled k hk, if_neg (by omega)]

/-- Every character keeps the cursor at the end of the text. -/
theorem AtEnd.putchar (h : AtEnd s) (c : UInt8) (color : UInt32) : ∃ t, putchar s c color = some t ∧ AtEnd t := by
  by_cases h0 : c = 0
  · exact ⟨s, if_pos h0, h⟩
  by_cases hb : c = backspace
  · subst hb
    obtain ⟨t, ht, he⟩ := erasure_spec color h.toOnScreen
    obtain ⟨t', ht', hOn⟩ := h.toOnScreen.putchar backspace color
    obtain rfl := Option.some.inj (ht.symm.trans ht')
    exact ⟨t, ht, h.erasure he hOn⟩
  · obtain ⟨t, ht, hspec⟩ := typed_spec color h.pos_lt h0 hb
    refine ⟨t, ht, ?_⟩
    have hOn := hspec.onScreen h.toOnScreen
    cases hspec with
    | idle h => exact absurd h h0
    | typed v _ _ _ hS => exact h.typed hS hOn
    | erased _ h => exact absurd h hb
    | home h => exact absurd h hb

theorem AtEnd.of_run {calls : List Call} (h : run s (.framebufferClear :: calls) = some t) : AtEnd t := by
  obtain ⟨s₁, hs₁, hpos, hblank⟩ := framebufferClear_spec s
  obtain ⟨t', ht', hend⟩ := run_rule AtEnd (fun _ => .of_clear) (fun _ c color h => h.putchar c color)
    (AtEnd.of_clear hpos hblank) calls
  have hrun : run s (.framebufferClear :: calls) = run s₁ calls := by
    show (framebufferClear s).bind _ = _
    rw [hs₁]
    rfl
  rw [hrun, ht'] at h
  cases h
  exact hend

/-! ## One character and one backspace -/

/-- The two screens show the same characters and have the cursor in the same cell. -/
structure Alike (s t : Screen) : Prop where
  pos : t.pos = s.pos
  glyph : ∀ k < 2000, t.glyph k = s.glyph k

theorem Alike.onScreen (h : Alike s t) (hs : OnScreen s) : OnScreen t := by
  have hp := hs.pos_lt
  have hpos := h.pos
  refine ⟨by omega, fun row hrow => ?_⟩
  obtain ⟨col, hcol, hg⟩ := hs.filled row (by omega)
  refine ⟨col, hcol, ?_⟩
  have hglyph := h.glyph (row * 80 + col) (by omega)
  unfold Screen.glyph at hglyph
  rwa [hglyph]

/-- Typing the character in the cell of the cursor makes the screen scroll: the test of `putchar` after it has
wrapped the row. -/
def Scrolls (s : Screen) (c : UInt8) (color : UInt32) : Prop :=
  ∃ t row col, putcharBranch s c color (getCursorPos s / 80) (getCursorPos s % 80) = some (t, row, col) ∧
    row + col / 80 = 25

/-- The screen scrolls when no cell follows. -/
theorem scrolls_iff (hp : s.pos < 2000) (hb : c ≠ backspace) : Scrolls s c color ↔ following c s.pos = 2000 := by
  obtain ⟨t, v, row, col, hbranch, -, -, hq⟩ := putcharBranch_typed color hp hb
  have hle := following_le c hp
  have hrow := wrapped_row row col hq hle
  constructor
  · rintro ⟨t', row', col', hbranch', h25⟩
    cases hbranch.symm.trans hbranch'
    rw [h25] at hrow
    change 25 = following c s.pos / 80 at hrow
    omega
  · intro hlast
    refine ⟨t, row, col, hbranch, UInt16.toNat_inj.1 ?_⟩
    rw [hrow, hlast]
    rfl

theorem pos_of_typed (hp : s.pos < 2000) (h0 : c ≠ 0) (hb : c ≠ backspace) (hlt : following c s.pos < 2000)
    (ht : putchar s c color = some t) : t.pos = following c s.pos := by
  obtain ⟨t', ht', hspec⟩ := typed_spec color hp h0 hb
  obtain rfl := Option.some.inj (ht.symm.trans ht')
  cases hspec with
  | idle h => exact absurd h h0
  | erased _ h => exact absurd h hb
  | home h => exact absurd h hb
  | typed w _ _ _ hS =>
    rw [Settled, if_pos hlt] at hS
    exact hS.2

/-- A backspace takes a character back that was typed without scrolling, on any screen alike. -/
theorem undo_one (h : AtEnd s) (h0 : c ≠ 0) (hb : c ≠ backspace) (hscroll : ¬ Scrolls s c color)
    (ht : putchar s c color = some t) (hu : Alike t u) (color' : UInt32) :
    ∃ v, putchar u backspace color' = some v ∧ Alike s v := by
  have hp := h.pos_lt
  have hle := following_le c hp
  have hlt := lt_following c s.pos
  rw [scrolls_iff hp hb] at hscroll
  obtain ⟨t', ht', hspec⟩ := typed_spec color hp h0 hb
  obtain rfl := Option.some.inj (ht.symm.trans ht')
  have hOn := hu.onScreen (hspec.onScreen h.toOnScreen)
  cases hspec with
  | idle h => exact absurd h h0
  | erased _ h => exact absurd h hb
  | home h => exact absurd h hb
  | typed w _ _ hw hS =>
    rw [Settled, if_pos (by omega)] at hS
    obtain ⟨hcells, hpos⟩ := hS
    have hglyph (k : ℕ) (hk : k < 2000) : u.glyph k = if k = s.pos then c else s.glyph k := by
      rw [hu.glyph k hk, glyph_of_store hcells hp, hw]
    have hupos : u.pos = following c s.pos := hu.pos.trans hpos
    obtain ⟨v, hv, he⟩ := erasure_spec color' hOn
    refine ⟨v, hv, ?_⟩
    cases he with
    | home h => omega
    | erased q hqlt hq hbetween hvcells hvpos =>
      -- the character that is found is the one that was typed
      have hqs : q = s.pos := by
        rcases Nat.lt_trichotomy q s.pos with hlt' | heq | hgt
        · have hzero := hbetween s.pos hlt' (by omega)
          rw [hglyph _ hp, if_pos rfl] at hzero
          exact absurd hzero h0
        · exact heq
        · rcases hq with hq | ⟨hcol, hq⟩
          · rw [hglyph q (by omega), if_neg (by omega)] at hq
            exact absurd (h.behind q (by omega) (by omega)) hq
          · unfold following at hupos
            split at hupos <;> omega
      subst hqs
      refine ⟨hvpos, fun k hk => ?_⟩
      rw [glyph_of_store hvcells hp, hglyph k hk]
      split
      · subst_vars
        exact (h.behind _ hk (Nat.le_refl _)).symm
      · rfl

/-! ## Words -/

/-- The calls that type a word, each character in its colour. -/
def typing (w : List (UInt8 × UInt32)) : List Call := w.map fun x => .putchar x.1 x.2

/-- As many backspaces as there are colours for them. -/
def erasing (colors : List UInt32) : List Call := colors.map (.putchar backspace)

/-- No character of the word makes the screen scroll. -/
def ScrollFree : Screen → List (UInt8 × UInt32) → Prop
  | _, [] => True
  | s, (c, color) :: w => ¬ Scrolls s c color ∧ ∀ t, putchar s c color = some t → ScrollFree t w

/-- The cell after a word, from the cell of its first character on. -/
def behind (w : List (UInt8 × UInt32)) (p : ℕ) : ℕ := w.foldl (fun p x => following x.1 p) p

theorem le_behind (w : List (UInt8 × UInt32)) (p : ℕ) : p ≤ behind w p := by
  induction w generalizing p with
  | nil => exact Nat.le_refl p
  | cons x w ih => exact (lt_following x.1 p).le.trans (ih _)

/-- A word that ends before the last cell does not scroll. -/
theorem scrollFree_of_behind {w : List (UInt8 × UInt32)} (hw : ∀ x ∈ w, x.1 ≠ 0 ∧ x.1 ≠ backspace)
    (h : behind w s.pos < 2000) : ScrollFree s w := by
  induction w generalizing s with
  | nil => trivial
  | cons x w ih =>
    obtain ⟨c, color⟩ := x
    obtain ⟨h0, hb⟩ := hw (c, color) List.mem_cons_self
    have hnext : following c s.pos < 2000 := (le_behind w _).trans_lt h
    have hp : s.pos < 2000 := (lt_following c s.pos).trans hnext
    refine ⟨fun hscroll => ?_, fun t ht => ih (fun x hx => hw x (List.mem_cons_of_mem _ hx)) ?_⟩
    · exact hnext.ne ((scrolls_iff hp hb).1 hscroll)
    · rw [pos_of_typed hp h0 hb hnext ht]
      exact h

theorem run_append (s : Screen) (xs ys : List Call) : run s (xs ++ ys) = (run s xs).bind (run · ys) := by
  induction xs generalizing s with
  | nil => rfl
  | cons x xs ih =>
    rw [List.cons_append, run, run]
    rcases perform s x with _ | t
    · rfl
    · exact ih t

/-- What `puts` prints is typed character by character. -/
theorem puts_eq_run (s : Screen) (str : ℕ → UInt8) (len color : UInt32) :
    puts s str len color = run s (typing ((List.range len.toNat).map fun i => (str i, color))) := by
  unfold puts
  induction len.toNat with
  | zero => rfl
  | succ n ih =>
    have hsplit : typing ((List.range (n + 1)).map fun i => (str i, color)) =
        typing ((List.range n).map fun i => (str i, color)) ++ [.putchar (str n) color] := by
      simp [typing, List.range_succ]
    rw [counted, ih, hsplit, run_append]
    rcases run s (typing ((List.range n).map fun i => (str i, color))) with _ | t
    · rfl
    · show putchar t (str n) color = (putchar t (str n) color).bind _
      rcases putchar t (str n) color with _ | u <;> rfl

/-- As many backspaces as characters were typed take all of them back, the last one first. -/
theorem undo_word (h : AtEnd s) {w : List (UInt8 × UInt32)} (hw : ∀ x ∈ w, x.1 ≠ 0 ∧ x.1 ≠ backspace)
    (hscroll : ScrollFree s w) {colors : List UInt32} (hlen : colors.length = w.length) :
    ∃ t u, run s (typing w) = some t ∧ run t (erasing colors) = some u ∧ Alike s u := by
  induction w generalizing s colors with
  | nil =>
    obtain rfl := List.length_eq_zero_iff.1 hlen
    exact ⟨s, s, rfl, rfl, rfl, fun _ _ => rfl⟩
  | cons x w ih =>
    obtain ⟨c, color⟩ := x
    obtain ⟨h0, hb⟩ := hw (c, color) List.mem_cons_self
    obtain ⟨hone, hrest⟩ := hscroll
    obtain ⟨s₁, hs₁, hend⟩ := h.putchar c color
    obtain ⟨colors, last, rfl⟩ : ∃ l a, colors = l ++ [a] := by
      refine ⟨colors.dropLast, colors.getLast ?_, (List.dropLast_append_getLast _).symm⟩
      rintro rfl
      cases hlen
    have hlen' : colors.length = w.length := by simpa using hlen
    obtain ⟨t, u, ht, hu, halike⟩ := ih hend (fun x hx => hw x (List.mem_cons_of_mem _ hx)) (hrest s₁ hs₁) hlen'
    obtain ⟨v, hv, hback⟩ := undo_one h h0 hb hone hs₁ halike last
    refine ⟨t, v, ?_, ?_, hback⟩
    · show (putchar s c color).bind _ = _
      rw [hs₁]
      exact ht
    · rw [erasing, List.map_append, run_append, ← erasing, hu]
      show (putchar u backspace last).bind _ = _
      rw [hv]
      rfl

/-- On every screen that was cleared and typed on, printing a word and as many backspaces brings back the character of
every cell and the cursor, provided that the word does not make the screen scroll. -/
theorem backspaces_undo {calls : List Call} (h : run s (.framebufferClear :: calls) = some t)
    {w : List (UInt8 × UInt32)} (hw : ∀ x ∈ w, x.1 ≠ 0 ∧ x.1 ≠ backspace) (hscroll : ScrollFree t w)
    {colors : List UInt32} (hlen : colors.length = w.length) :
    ∃ u v, run t (typing w) = some u ∧ run u (erasing colors) = some v ∧ v.pos = t.pos ∧
      ∀ k < 2000, v.glyph k = t.glyph k := by
  obtain ⟨u, v, hu, hv, halike⟩ := undo_word (.of_run h) hw hscroll hlen
  exact ⟨u, v, hu, hv, halike.pos, halike.glyph⟩

/-- Two letters with a newline between them on a new screen, and the backspaces that take them back. -/
theorem backspaces_undo_puts : ∃ s t u v : Screen, run s [.framebufferClear] = some t ∧
    puts t (fun i => if i = 1 then newline else 0x61) 3 7 = some u ∧ run u (erasing [7, 7, 7]) = some v ∧
    v.pos = t.pos ∧ ∀ k < 2000, v.glyph k = t.glyph k := by
  obtain ⟨t, ht, hpos, -⟩ := framebufferClear_spec ⟨Vector.replicate 2000 blank, 0, 0⟩
  have hrun : run ⟨Vector.replicate 2000 blank, 0, 0⟩ [.framebufferClear] = some t := by
    show (framebufferClear _).bind _ = _
    rw [ht]
    rfl
  have hw : ∀ x ∈ [((0x61 : UInt8), (7 : UInt32)), (newline, 7), (0x61, 7)], x.1 ≠ 0 ∧ x.1 ≠ backspace := by
    simp
    decide
  have hlen : ([7, 7, 7] : List UInt32).length = [((0x61 : UInt8), (7 : UInt32)), (newline, 7), (0x61, 7)].length := rfl
  have hfree := scrollFree_of_behind (s := t) hw (by rw [hpos]; decide)
  obtain ⟨u, v, hu, hv, hback⟩ := backspaces_undo hrun hw hfree hlen
  exact ⟨_, t, u, v, hrun, (puts_eq_run t _ 3 7).trans hu, hv, hback⟩

end BebasOs.Driver
