/-
The terminal stays on the screen: whatever is typed after `framebuffer_clear`, the cursor stays in the
grid and the rows above it are never empty, which is all that stops the search of the backspace branch.
-/
import BebasOs.Driver.Typing

namespace BebasOs.Driver

open Bytes Loop

theorem OnScreen.of_clear {s : Screen} (h : s.pos = 0) : OnScreen s :=
  ⟨by omega, fun row hrow => by omega⟩

/-- Typing fills the cursor's row, and changes no row above it. -/
theorem filled_store {s : Screen} (h : OnScreen s) {v : Cell} (hv : v.char ≠ 0) :
    ∀ row ≤ s.pos / 80, Filled (store s.cells s.pos v) row := fun row hrow => by
  have hp := h.pos_lt
  rcases Nat.lt_or_eq_of_le hrow with hlt | rfl
  · obtain ⟨col, hcol, hg⟩ := h.filled row hlt
    exact ⟨col, hcol, by rwa [cell_store_ne _ _ (by omega)]⟩
  · refine ⟨s.pos % 80, by omega, ?_⟩
    rwa [show s.pos / 80 * 80 + s.pos % 80 = s.pos by omega, cell_store_self _ _ hp]

theorem following_row (c : UInt8) (p : ℕ) : following c p / 80 ≤ p / 80 + 1 := by
  unfold following
  split <;> omega

theorem Filled.scrolled {t u : Vector Cell 2000} (hS : Scrolled t u) {row : ℕ} (hrow : row < 24)
    (h : Filled t (row + 1)) : Filled u row := by
  obtain ⟨col, hcol, hg⟩ := h
  refine ⟨col, hcol, ?_⟩
  rwa [hS _ (by omega), if_pos (by omega), show row * 80 + col + 80 = (row + 1) * 80 + col by omega]

/-- Every way to type a character keeps the invariant. -/
theorem PutcharSpec.onScreen {s s' : Screen} {c : UInt8} (hspec : PutcharSpec s c s') (h : OnScreen s) :
    OnScreen s' := by
  have hp := h.pos_lt
  cases hspec with
  | idle _ => exact h
  | typed v h₀ _ hv hS =>
    have hfill := filled_store h (v := v) (hv ▸ h₀)
    have hrow := following_row c s.pos
    unfold Settled at hS
    split at hS
    · obtain ⟨hc, hpos⟩ := hS
      refine ⟨by omega, fun row hlt => ?_⟩
      rw [hc]
      exact hfill row (by omega)
    · obtain ⟨hS, hpos⟩ := hS
      refine ⟨by omega, fun row hlt => ?_⟩
      exact (hfill (row + 1) (by omega)).scrolled hS (by omega)
  | erased q _ hq hc hpos =>
    refine ⟨by omega, fun row hlt => ?_⟩
    obtain ⟨col, hcol, hg⟩ := h.filled row (by omega)
    refine ⟨col, hcol, ?_⟩
    rwa [hc, cell_store_ne _ _ (by omega)]
  | home _ _ _ hpos => exact .of_clear hpos

theorem OnScreen.putchar {s : Screen} (h : OnScreen s) (c : UInt8) (color : UInt32) :
    ∃ s', putchar s c color = some s' ∧ OnScreen s' := by
  obtain ⟨s', hs', hspec⟩ := putchar_spec c color h
  exact ⟨s', hs', hspec.onScreen h⟩

/-! ## Runs -/

/-- A call of the driver. -/
inductive Call
  | framebufferClear
  | putchar (c : UInt8) (color : UInt32)
  | puts (str : ℕ → UInt8) (len color : UInt32)

def perform (s : Screen) : Call → Option Screen
  | .framebufferClear => framebufferClear s
  | .putchar c color => putchar s c color
  | .puts str len color => puts s str len color

/-- One call after the other. -/
def run (s : Screen) : List Call → Option Screen
  | [] => some s
  | call :: calls => (perform s call).bind fun s' => run s' calls

/-- What holds of a cleared screen and is kept by every character holds of every screen that a run comes to. -/
theorem run_rule (P : Screen → Prop) (hclear : ∀ s, s.pos = 0 → (∀ k < 2000, cell s.cells k = blank) → P s)
    (htype : ∀ s c color, P s → ∃ s', putchar s c color = some s' ∧ P s') {s : Screen} (h : P s) (calls : List Call) :
    ∃ s', run s calls = some s' ∧ P s' := by
  have step {s : Screen} (h : P s) (call : Call) : ∃ s', perform s call = some s' ∧ P s' := by
    cases call with
    | framebufferClear =>
      obtain ⟨s', hs', hpos, hblank⟩ := framebufferClear_spec s
      exact ⟨s', hs', hclear s' hpos hblank⟩
    | putchar c color => exact htype s c color h
    | puts str len color => exact counted_rule _ (fun _ => P) h _ fun i _ t ht => htype t (str i) color ht
  induction calls generalizing s with
  | nil => exact ⟨s, rfl, h⟩
  | cons call calls ih =>
    obtain ⟨t, ht, hP⟩ := step h call
    obtain ⟨s', hs', hP'⟩ := ih hP
    refine ⟨s', ?_, hP'⟩
    unfold Driver.run
    rw [ht]
    exact hs'

theorem OnScreen.run {s : Screen} (h : OnScreen s) (calls : List Call) : ∃ s', run s calls = some s' ∧ OnScreen s' :=
  run_rule OnScreen (fun _ hpos _ => .of_clear hpos) (fun _ c color h => h.putchar c color) h calls

/-- Every run that starts with `framebuffer_clear` has a result, so each of its accesses is in the grid and
each of its searches ends. The cursor is in the grid, and where a backspace would search backwards, the
search stops in the row just above the cursor. -/
theorem terminal_on_screen (s : Screen) (calls : List Call) :
    ∃ s', run s (.framebufferClear :: calls) = some s' ∧ s'.pos < 25 * 80 ∧
      (getCursorPos s' % 80 = 0 → 0 < getCursorPos s' / 80 →
        ∃ col < 80, searchBack s' (getCursorPos s' / 80 - 1) (80 - 1) = some (getCursorPos s' / 80 - 1, col)) := by
  obtain ⟨t, ht, hpos, -⟩ := framebufferClear_spec s
  obtain ⟨s', hs', hOn⟩ := (OnScreen.of_clear hpos).run calls
  have hp := hOn.pos_lt
  refine ⟨s', ?_, hp, fun _ hr => ?_⟩
  · show (framebufferClear s).bind _ = _
    rw [ht]
    exact hs'
  · have hpred := row_pred hr
    obtain ⟨col, hcol, hs, -⟩ := searchBack_spec s' (getCursorPos s' / 80 - 1) (by omega)
      (by rw [hpred]; exact hOn.filled _ (by have := row_pos hr; omega))
    exact ⟨col, hcol, hs⟩

end BebasOs.Driver
