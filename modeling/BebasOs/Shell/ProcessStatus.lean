/-
The `ps` command of `user-shell.c`. After each field it prints blanks until the column that the kernel reports has
reached the next field. But it hands its print requests to a system call that takes them for a text of length zero,
and the column reported is a counter of key presses, of which the system call only fills the lowest byte: no round
of a padding loop comes nearer to the end than the one before.
-/
import BebasOs.Driver.Framebuffer
import BebasOs.Driver.Keyboard
import BebasOs.Process.Query

namespace BebasOs.Shell

open Bytes Loop Driver Process Fat32

/-! ## The command -/

/-- What the command works on: the screen, the keyboard driver, the local `col`, and the scancodes that come before
each of the reports of the column that are still to follow. -/
structure PsState where
  screen : Screen
  keyboard : KeyboardDriverState
  col : UInt32
  arriving : ℕ → List UInt8

/-- The `struct SyscallPutsArgs` of the command. -/
inductive PutsArgs
  | newline
  | whitespace
  | header
  | pid (i : ℕ)
  | name (i : ℕ)
  | state (i : ℕ)
  | frameCount (i : ℕ)

/-- `COL_NAME`, `COL_STATE` and `COL_FRAME_COUNT`. -/
def colName : UInt32 := 11
def colState : UInt32 := 23
def colFrameCount : UInt32 := 36

/-- `SYSCALL_GET_MAX_PROCESS_COUNT`. -/
def maxProcessCount : ℕ := 16

/-- `syscall(SYSCALL_PUTS, args, 0, 0)`: to the kernel, `args` is a text, and the two zeros are its length and its
colour. -/
def syscallPuts (args : ℕ → UInt8) (s : PsState) : Option PsState := do
  return { s with screen := ← puts s.screen args 0 0 }

/-- `syscall(SYSCALL_GET_CURSOR_COL, &col, 0, 0)`: the kernel stores one byte. -/
def syscallGetCursorCol (s : PsState) : PsState :=
  let keyboard := (s.arriving 0).foldl keyboardIsr s.keyboard
  { s with
    keyboard := keyboard
    col := u32.symm (store (u32 s.col) 0 keyboard.col)
    arriving := fun n => s.arriving (n + 1) }

section

-- what the memory of the shell holds from each of the structures on
variable (memory : PutsArgs → ℕ → UInt8)

/-- The body of a padding loop. -/
def padRound (s : PsState) : Option PsState := do
  return syscallGetCursorCol (← syscallPuts (memory .whitespace) s)

/-- `do … while (col < target)`, for at most `fuel` tests. -/
def pad (fuel : ℕ) (target : UInt32) (s : PsState) : Option PsState := do
  guarded fuel (fun s => some (s.col < target)) (padRound memory) (← padRound memory s)

/-- What is printed about the process in slot `i`. -/
def psProcess (fuel i : ℕ) (s : PsState) : Option PsState := do
  let s ← syscallPuts (memory .newline) s
  let s ← syscallPuts (memory (.pid i)) s
  let s ← pad memory fuel colName s
  let s ← syscallPuts (memory (.name i)) s
  let s ← pad memory fuel colState s
  let s ← syscallPuts (memory (.state i)) s
  let s ← pad memory fuel colFrameCount s
  syscallPuts (memory (.frameCount i)) s

/-- The body of the loop over the slots. -/
def psRound (k : Kernel) (fuel i : ℕ) (s : PsState) : Option PsState := do
  let info ← getProcessInfo k ⟨UInt32.ofNat i, Vector.replicate 32 0, Vector.replicate 8 0, false, 0⟩
  if info.processExists then psProcess memory fuel i s else return s

/-- `ps`, with at most `fuel` tests in each padding loop. -/
def ps (k : Kernel) (fuel : ℕ) (s : PsState) : Option PsState := do
  counted maxProcessCount (psRound memory k fuel) (← syscallPuts (memory .header) s)

end

variable {memory : PutsArgs → ℕ → UInt8} {k : Kernel} {fuel i : ℕ} {target : UInt32} {s t : PsState}

/-! ## The column reported -/

/-- The column that the command sees: the low byte is the keyboard driver's, the others are those that `col` had. -/
def reported (s : PsState) : ℕ := s.col.toNat / 256 * 256 + s.keyboard.col.toNat

/-- With the keyboard deactivated, nothing the command does changes the column that it sees. -/
structure SameColumn (s t : PsState) : Prop where
  off : t.keyboard.keyboardInputOn = false
  column : reported t = reported s

theorem SameColumn.refl (h : s.keyboard.keyboardInputOn = false) : SameColumn s s := ⟨h, rfl⟩

theorem SameColumn.trans {u : PsState} (h : SameColumn s t) (h' : SameColumn t u) : SameColumn s u :=
  ⟨h'.off, h'.column.trans h.column⟩

theorem keyboardIsr_off {keyboard : KeyboardDriverState} (h : keyboard.keyboardInputOn = false) (scancode : UInt8) :
    keyboardIsr keyboard scancode = keyboard := by
  unfold keyboardIsr
  rw [h]
  rfl

theorem foldl_keyboardIsr_off {keyboard : KeyboardDriverState} (h : keyboard.keyboardInputOn = false)
    (scancodes : List UInt8) :
    scancodes.foldl keyboardIsr keyboard = keyboard := by
  induction scancodes with
  | nil => rfl
  | cons scancode scancodes ih => rw [List.foldl_cons, keyboardIsr_off h, ih]

theorem toNat_store_u32 (x : UInt32) (b : UInt8) :
    (u32.symm (store (u32 x) 0 b)).toNat = x.toNat / 256 * 256 + b.toNat := by
  have hx := x.toNat_lt
  have hb := b.toNat_lt
  show (UInt32.ofNat _).toNat = _
  rw [UInt32.toNat_ofNat']
  show (b.toNat + 256 * (UInt8.ofNat (x.toNat / 256)).toNat + 65536 * (UInt8.ofNat (x.toNat / 65536)).toNat +
    16777216 * (UInt8.ofNat (x.toNat / 16777216)).toNat) % 2 ^ 32 = _
  rw [UInt8.toNat_ofNat', UInt8.toNat_ofNat', UInt8.toNat_ofNat']
  omega

/-- A print request prints nothing. -/
theorem syscallPuts_eq (args : ℕ → UInt8) (s : PsState) : syscallPuts args s = some s := rfl

/-! ## The padding loops -/

/-- A round leaves the column as it was reported before. -/
theorem padRound_spec (memory : PutsArgs → ℕ → UInt8) (hoff : s.keyboard.keyboardInputOn = false) :
    ∃ t, padRound memory s = some t ∧ SameColumn s t ∧ t.col.toNat = reported s := by
  have hkey : (syscallGetCursorCol s).keyboard = s.keyboard := foldl_keyboardIsr_off hoff (s.arriving 0)
  have hcol : (syscallGetCursorCol s).col.toNat = reported s := by
    have heq : (syscallGetCursorCol s).col = u32.symm (store (u32 s.col) 0 (syscallGetCursorCol s).keyboard.col) := rfl
    rw [heq, toNat_store_u32, hkey]
    rfl
  have hb := s.keyboard.col.toNat_lt
  have hcolumn : reported (syscallGetCursorCol s) = reported s := by
    unfold reported at hcol ⊢
    rw [hcol, hkey]
    omega
  exact ⟨syscallGetCursorCol s, rfl, ⟨by rw [hkey]; exact hoff, hcolumn⟩, hcol⟩

/-- Where the target is not above the column reported, the loop ends in its first round. -/
theorem pad_of_le (memory : PutsArgs → ℕ → UInt8) (target : UInt32) (hoff : s.keyboard.keyboardInputOn = false)
    (h : target.toNat ≤ reported s) (hf : 0 < fuel) :
    ∃ t, pad memory fuel target s = some t ∧ SameColumn s t := by
  obtain ⟨t, ht, hsame, hcol⟩ := padRound_spec memory hoff
  have htest : decide (t.col < target) = false := by
    rw [decide_eq_false_iff_not, UInt32.lt_iff_toNat_lt]
    omega
  obtain ⟨fuel, rfl⟩ := Nat.exists_eq_succ_of_ne_zero (Nat.ne_of_gt hf)
  refine ⟨t, ?_, hsame⟩
  unfold pad
  simp only [ht, Option.bind_eq_bind, Option.bind_some]
  unfold guarded
  simp only [htest]

/-- A loop that ends has a target that is not above the column reported. -/
theorem le_of_pad (hoff : s.keyboard.keyboardInputOn = false) (h : pad memory fuel target s = some t) :
    target.toNat ≤ reported s ∧ SameColumn s t := by
  obtain ⟨s₁, hs₁, hsame, hcol⟩ := padRound_spec memory hoff
  unfold pad at h
  simp only [hs₁, Option.bind_eq_bind, Option.bind_some] at h
  -- what every test sees is the column reported at the start
  have hround (u u' : PsState) (hu : SameColumn s u ∧ u.col.toNat = reported s) (hu' : padRound memory u = some u') :
      SameColumn s u' ∧ u'.col.toNat = reported s := by
    obtain ⟨u'', h1, h2, h3⟩ := padRound_spec memory hu.1.off
    rw [h1] at hu'
    cases hu'
    exact ⟨hu.1.trans h2, h3.trans hu.1.column⟩
  obtain ⟨⟨hsame', hcol'⟩, htest⟩ := guarded_ends _ hround fuel s₁ t ⟨hsame, hcol⟩ h
  rw [Option.some_inj, decide_eq_false_iff_not, UInt32.lt_iff_toNat_lt] at htest
  exact ⟨by omega, hsame'⟩

/-! ## The command -/

theorem psProcess_eq (s : PsState) : psProcess memory fuel i s =
    (pad memory fuel colName s).bind fun s => (pad memory fuel colState s).bind (pad memory fuel colFrameCount) := by
  unfold psProcess
  simp only [syscallPuts_eq, Option.bind_eq_bind, Option.bind_some]
  refine Option.bind_congr fun s₁ _ => Option.bind_congr fun s₂ _ => ?_
  exact Option.bind_fun_some _

theorem psProcess_of_le (memory : PutsArgs → ℕ → UInt8) (hoff : s.keyboard.keyboardInputOn = false)
    (h : 36 ≤ reported s) (hf : 0 < fuel) :
    ∃ t, psProcess memory fuel i s = some t ∧ SameColumn s t := by
  obtain ⟨s₁, h1, hs₁⟩ := pad_of_le memory colName hoff (Nat.le_trans (by decide) h) hf
  obtain ⟨s₂, h2, hs₂⟩ := pad_of_le memory colState hs₁.off
    (by rw [hs₁.column]; exact Nat.le_trans (by decide) h) hf
  obtain ⟨s₃, h3, hs₃⟩ := pad_of_le memory colFrameCount hs₂.off
    (by rw [hs₂.column, hs₁.column]; exact h) hf
  refine ⟨s₃, ?_, (hs₁.trans hs₂).trans hs₃⟩
  rw [psProcess_eq, h1, Option.bind_some, h2, Option.bind_some, h3]

theorem le_of_psProcess (hoff : s.keyboard.keyboardInputOn = false) (h : psProcess memory fuel i s = some t) :
    36 ≤ reported s ∧ SameColumn s t := by
  rw [psProcess_eq, Option.bind_eq_some_iff] at h
  obtain ⟨s₁, h1, h⟩ := h
  rw [Option.bind_eq_some_iff] at h
  obtain ⟨s₂, h2, h3⟩ := h
  obtain ⟨-, hs₁⟩ := le_of_pad hoff h1
  obtain ⟨-, hs₂⟩ := le_of_pad hs₁.off h2
  obtain ⟨hle, hs₃⟩ := le_of_pad hs₂.off h3
  rw [hs₂.column, hs₁.column] at hle
  exact ⟨hle, (hs₁.trans hs₂).trans hs₃⟩

theorem psRound_eq (hi : i < 16) (s : PsState) :
    psRound memory k fuel i s = if k.occupied i then psProcess memory fuel i s else some s := by
  have hpid : (UInt32.ofNat i).toNat = i := by
    rw [UInt32.toNat_ofNat']
    exact Nat.mod_eq_of_lt (by omega)
  unfold psRound
  cases ho : k.occupied i with
  | true =>
    rw [getProcessInfo_occupied (by rw [hpid]; exact hi) (by rw [hpid]; exact ho)]
    rfl
  | false =>
    rw [getProcessInfo_free (by rw [hpid]; exact hi) (by rw [hpid]; exact ho)]
    rfl

theorem ps_eq (memory : PutsArgs → ℕ → UInt8) (k : Kernel) (fuel : ℕ) (s : PsState) :
    ps memory k fuel s = counted 16 (psRound memory k fuel) s := by
  unfold ps
  rw [syscallPuts_eq, Option.bind_eq_bind, Option.bind_some, maxProcessCount]

/-- The command passes a slot with a process only if the column reported is at the last target. -/
theorem le_of_ps (hoff : s.keyboard.keyboardInputOn = false) (h : ps memory k fuel s = some t) (hi : i < 16)
    (ho : k.occupied i = true) : 36 ≤ reported s := by
  have hround (i : ℕ) (hi : i < 16) (u u' : PsState)
      (hu : SameColumn s u ∧ ∀ j < i, k.occupied j = true → 36 ≤ reported s)
      (hu' : psRound memory k fuel i u = some u') :
      SameColumn s u' ∧ ∀ j < i + 1, k.occupied j = true → 36 ≤ reported s := by
    obtain ⟨hsame, hbefore⟩ := hu
    rw [psRound_eq hi] at hu'
    split at hu'
    · obtain ⟨hle, hsame'⟩ := le_of_psProcess hsame.off hu'
      rw [hsame.column] at hle
      exact ⟨hsame.trans hsame', fun _ _ _ => hle⟩
    · rename_i ho
      cases hu'
      refine ⟨hsame, fun j hj hoj => ?_⟩
      rcases Nat.lt_or_eq_of_le (Nat.le_of_lt_succ hj) with hlt | rfl
      · exact hbefore j hlt hoj
      · exact absurd hoj ho
  have hnone : ∀ j < 0, k.occupied j = true → 36 ≤ reported s := fun _ hj => absurd hj (Nat.not_lt_zero _)
  rw [ps_eq] at h
  obtain ⟨-, hall⟩ := counted_ends (fun i u => SameColumn s u ∧ ∀ j < i, k.occupied j = true → 36 ≤ reported s)
    ⟨.refl hoff, hnone⟩ 16 t hround h
  exact hall i hi ho

/-- With no process, or with the column at the last target, one round of each padding loop is enough. -/
theorem ps_ends (memory : PutsArgs → ℕ → UInt8) (hoff : s.keyboard.keyboardInputOn = false)
    (h : (∀ i < 16, k.occupied i = false) ∨ 36 ≤ reported s) :
    ∃ t, ps memory k 1 s = some t := by
  have hround (i : ℕ) (hi : i < 16) (u : PsState) (hu : SameColumn s u) :
      ∃ u', psRound memory k 1 i u = some u' ∧ SameColumn s u' := by
    rw [psRound_eq hi]
    split
    · rename_i ho
      rcases h with hfree | hle
      · rw [hfree i hi] at ho
        cases ho
      · rw [← hu.column] at hle
        obtain ⟨u', hu', hsame⟩ := psProcess_of_le memory (i := i) hu.off hle Nat.one_pos
        exact ⟨u', hu', hu.trans hsame⟩
    · exact ⟨u, rfl, hu⟩
  obtain ⟨t, ht, -⟩ := counted_rule (psRound memory k 1) (fun _ => SameColumn s) (.refl hoff) 16 hround
  rw [← ps_eq] at ht
  exact ⟨t, ht⟩

/-- With the keyboard deactivated, `ps` ends if and only if there is no process, or the column reported is already
at the last of the targets. -/
theorem ps_ends_iff (memory : PutsArgs → ℕ → UInt8) (k : Kernel) (s : PsState)
    (hoff : s.keyboard.keyboardInputOn = false) : (∃ fuel t, ps memory k fuel s = some t) ↔
      (∀ i < 16, k.occupied i = false) ∨ 36 ≤ s.col.toNat / 256 * 256 + s.keyboard.col.toNat := by
  constructor
  · rintro ⟨fuel, t, h⟩
    by_cases hle : 36 ≤ reported s
    · exact .inr hle
    · refine .inl fun i hi => ?_
      rw [← Bool.not_eq_true]
      exact fun ho => hle (le_of_ps hoff h hi ho)
  · intro h
    obtain ⟨t, ht⟩ := ps_ends memory hoff h
    exact ⟨1, t, ht⟩

/-- A deactivated keyboard on an empty screen, with the column `col` counted and in the local of the shell. -/
def quietState (col : UInt8) : PsState :=
  ⟨⟨Vector.replicate 2000 default, 0, 0⟩, ⟨false, false, 0, col⟩, col.toUInt32, fun _ => []⟩

theorem ps_ends_iff_full : ∃ m : Machine, (firstKernel m).occupied 0 = true ∧
    ∃ fuel t, ps (fun _ _ => 0) (firstKernel m) fuel (quietState 36) = some t := by
  obtain ⟨-, m, -⟩ := exists_holdsA
  exact ⟨m, firstKernel_occupied m, (ps_ends_iff _ (firstKernel m) (quietState 36) rfl).2 (.inr (by decide))⟩

/-- With one process, and column 0, `ps` never ends. -/
theorem ps_never_ends : ∃ m : Machine,
    processCreateUserProcess zeroPlatform (bootKernel m) loadA unsetZero = (0, firstKernel m) ∧
      ∀ memory fuel, ps memory (firstKernel m) fuel (quietState 0) = none := by
  obtain ⟨-, m, -, -, -, hm⟩ := exists_holdsA
  refine ⟨m, create_boot hm, fun memory fuel => ?_⟩
  by_contra hne
  obtain ⟨t, ht⟩ := Option.ne_none_iff_exists'.1 hne
  have hle := le_of_ps (s := quietState 0) rfl ht (by decide) (firstKernel_occupied m)
  revert hle
  decide

end BebasOs.Shell
