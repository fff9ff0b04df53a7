/-
What `puts` leaves on the screen: the last 25 rows of the text, laid out on a page without a bottom.
-/
import BebasOs.Driver.Typing
import BebasOs.Lib.Page

namespace BebasOs.Driver

open Bytes Loop Page

/-- The rows of a text: 80 characters, or less where a newline ends the row. -/
def rowsOf (text : List UInt8) : List (List UInt8) := layout 80 (· == newline) [] text

/-- The screen shows the last 25 rows of a page, and its cursor is at the next free cell of the last row. -/
structure Shows (s : Screen) (rows : List (List UInt8)) : Prop where
  grid : ∀ i < 25, ∀ j < 80, s.glyph (i * 80 + j) = entry 0 rows (top 25 rows + i) j
  cursor : s.pos = bottom 25 rows * 80 + (rows.getLastD []).length

theorem Shows.of_clear {s : Screen} (hpos : s.pos = 0) (h : ∀ k < 2000, cell s.cells k = blank) : Shows s [[]] := by
  refine ⟨fun i hi j hj => ?_, by rw [hpos]; rfl⟩
  rw [Screen.glyph, h _ (by omega), ← List.nil_append [[]], entry_newRow, entry_ge _ (Nat.zero_le _)]
  rfl

theorem top_snoc (n : ℕ) (done : List (List UInt8)) (cur : List UInt8) :
    top n (done ++ [cur]) = done.length + 1 - n := by
  rw [top, List.length_append, List.length_singleton]

theorem bottom_snoc (n : ℕ) (done : List (List UInt8)) (cur : List UInt8) :
    bottom n (done ++ [cur]) = done.length - top n (done ++ [cur]) := by
  rw [bottom, List.length_append, List.length_singleton, Nat.add_sub_cancel]

section Step

variable {s s' : Screen} {done : List (List UInt8)} {cur : List UInt8} {v : Cell} {c : UInt8}

theorem Shows.pos_eq (h : Shows s (done ++ [cur])) :
    s.pos = (done.length - (done.length + 1 - 25)) * 80 + cur.length := by
  rw [h.cursor, bottom_snoc, top_snoc, List.getLastD_concat]

/-- The cell of the cursor is the one that the next character has on the page. -/
theorem Shows.store (h : Shows s (done ++ [cur])) (hcur : cur.length < 80) (hv : v.char = c) :
    ∀ i < 25, ∀ j < 80, (cell (store s.cells s.pos v) (i * 80 + j)).char =
      entry 0 (done ++ [cur ++ [c]]) (done.length + 1 - 25 + i) j := fun i hi j hj => by
  have hp := h.pos_eq
  have hold := h.grid i hi j hj
  rw [top_snoc] at hold
  rw [cell_store _ _ _ (by omega), entry_type, ← hold]
  by_cases hk : i * 80 + j = s.pos
  · rw [if_pos hk, if_pos (by omega)]
    exact hv
  · rw [if_neg hk, if_neg (by omega)]
    rfl

/-- Typing inside a row. -/
theorem Shows.type_inside (h : Shows s (done ++ [cur])) (hcur : cur.length + 1 < 80) (hv : v.char = c)
    (hs : Settled (Bytes.store s.cells s.pos v) (s.pos + 1) s') : Shows s' (done ++ [cur ++ [c]]) := by
  have hp := h.pos_eq
  have hgrid := h.store (by omega) hv
  rw [Settled, if_pos (by omega)] at hs
  obtain ⟨hc, hpos⟩ := hs
  refine ⟨fun i hi j hj => ?_, ?_⟩
  · rw [Screen.glyph, hc, top_snoc]
    exact hgrid i hi j hj
  · rw [hpos, bottom_snoc, top_snoc, List.getLastD_concat, List.length_append, List.length_singleton]
    omega

/-- Typing the character that ends a row; on the last row of the screen, the rows scroll. -/
theorem Shows.type_last (h : Shows s (done ++ [cur])) (hcur : cur.length < 80) (hv : v.char = c)
    (hs : Settled (Bytes.store s.cells s.pos v) ((s.pos / 80 + 1) * 80) s') : Shows s' (done ++ [cur ++ [c], []]) := by
  have hp := h.pos_eq
  have hgrid := h.store hcur hv
  have hrows : done ++ [cur ++ [c], []] = (done ++ [cur ++ [c]]) ++ [[]] := by simp
  have hlen : (done ++ [cur ++ [c]]).length = done.length + 1 := by
    rw [List.length_append, List.length_singleton]
  unfold Settled at hs
  rw [hrows]
  split at hs
  · obtain ⟨hc, hpos⟩ := hs
    refine ⟨fun i hi j hj => ?_, ?_⟩
    · have htop : done.length + 1 + 1 - 25 = done.length + 1 - 25 := by omega
      rw [Screen.glyph, hc, hgrid i hi j hj, entry_newRow, top_snoc, hlen, htop]
    · rw [hpos, bottom_snoc, top_snoc, hlen, List.getLastD_concat, List.length_nil]
      omega
  · obtain ⟨hS, hpos⟩ := hs
    refine ⟨fun i hi j hj => ?_, ?_⟩
    · rw [Screen.glyph, hS _ (by omega), entry_newRow, top_snoc, hlen]
      split
      · have htop : done.length + 1 + 1 - 25 + i = done.length + 1 - 25 + (i + 1) := by omega
        rw [show i * 80 + j + 80 = (i + 1) * 80 + j by omega, hgrid (i + 1) (by omega) j hj, htop]
      · rw [entry_ge _ (by omega)]
        rfl
    · rw [hpos, bottom_snoc, top_snoc, hlen, List.getLastD_concat, List.length_nil]
      omega

theorem Shows.typed (h : Shows s (done ++ [cur])) (hcur : cur.length < 80) (hv : v.char = c)
    (hs : Settled (Bytes.store s.cells s.pos v) (following c s.pos) s') :
    Shows s' (done ++ typed 80 (· == newline) cur c) := by
  have hp := h.pos_eq
  unfold Page.typed
  split
  · next hend =>
    refine h.type_last hcur hv ?_
    unfold following at hs
    split at hs
    · exact hs
    · next hn =>
      have hfull : cur.length + 1 = 80 := hend.resolve_left fun e => hn (beq_iff_eq.1 e)
      rwa [show (s.pos / 80 + 1) * 80 = s.pos + 1 by omega]
  · next hend =>
    have hn : c ≠ newline := fun e => hend (.inl (beq_iff_eq.2 e))
    rw [following, if_neg hn] at hs
    exact h.type_inside (by omega) hv hs

end Step

/-- One character more on the screen is one more in the text. -/
theorem Shows.putchar {s : Screen} {text : List UInt8} {c : UInt8} (h : Shows s (rowsOf text)) (h₀ : c ≠ 0)
    (hb : c ≠ backspace) (color : UInt32) :
    ∃ s', Driver.putchar s c color = some s' ∧ Shows s' (rowsOf (text ++ [c])) := by
  obtain ⟨done, cur, hrows, hcur, hnext⟩ := layout_snoc c (by decide : 0 < 80) text [] (by decide)
  unfold rowsOf at h ⊢
  rw [hrows] at h
  rw [hnext]
  have hp := h.pos_eq
  obtain ⟨s', hs', hspec⟩ := typed_spec (s := s) color (by omega) h₀ hb
  refine ⟨s', hs', ?_⟩
  cases hspec with
  | idle e => exact absurd e h₀
  | typed v _ _ hv hS => exact h.typed hcur hv hS
  | erased _ e _ _ _ => exact absurd e hb
  | home e _ _ _ => exact absurd e hb

/-- After `framebuffer_clear`, `puts` of a text without NUL and backspace shows its last 25 rows. -/
theorem puts_shows (s : Screen) (str : ℕ → UInt8) (len color : UInt32)
    (hstr : ∀ i < len.toNat, str i ≠ 0 ∧ str i ≠ backspace) :
    ∃ s₁ s₂, framebufferClear s = some s₁ ∧ puts s₁ str len color = some s₂ ∧
      Shows s₂ (rowsOf ((List.range len.toNat).map str)) := by
  obtain ⟨s₁, hs₁, hpos, hblank⟩ := framebufferClear_spec s
  obtain ⟨s₂, hs₂, hshow⟩ := counted_rule (fun i s => putchar s (str i) color)
    (fun i s => Shows s (rowsOf ((List.range i).map str))) (Shows.of_clear hpos hblank) len.toNat
    fun i hi t hI => by
      obtain ⟨u, hu, hJ⟩ := hI.putchar (hstr i hi).1 (hstr i hi).2 color
      refine ⟨u, hu, ?_⟩
      rwa [List.range_succ, List.map_append]
  exact ⟨s₁, s₂, hs₁, hs₂, hshow⟩

/-- The letter `a` behind thirty newlines, over a screen full of them: the first six rows are gone. -/
theorem puts_shows_scrolled :
    ∃ s₁ s₂, framebufferClear ⟨Vector.replicate 2000 ⟨0x61, 0⟩, 0xFF, 0xFF⟩ = some s₁ ∧
      puts s₁ (fun i => if i < 30 then newline else 0x61) 31 0x0F = some s₂ ∧
        Shows s₂ (List.replicate 30 [newline] ++ [[0x61]]) ∧
        top 25 (List.replicate 30 [newline] ++ [[(0x61 : UInt8)]]) = 6 := by
  obtain ⟨s₁, s₂, hclear, hputs, hshows⟩ := puts_shows ⟨Vector.replicate 2000 ⟨0x61, 0⟩, 0xFF, 0xFF⟩
    (fun i => if i < 30 then newline else 0x61) 31 0x0F (by decide)
  have hrows : rowsOf ((List.range (31 : UInt32).toNat).map fun i => if i < 30 then newline else 0x61) =
      List.replicate 30 [newline] ++ [[0x61]] := by
    decide +kernel
  rw [hrows] at hshows
  exact ⟨s₁, s₂, hclear, hputs, hshows, rfl⟩

end BebasOs.Driver
