/-
`keyboard.c`: the driver keeps one character for the reader. Its interrupt handler runs for every
scancode, the gates of the interrupts keep it and the reader's system call apart, so a run is a sequence
of the two.
-/
import Mathlib.Tactic

namespace BebasOs.Driver

/-- `KeyboardDriverState`. -/
structure KeyboardDriverState where
  readExtendedMode : Bool
  keyboardInputOn : Bool
  keyboardBuffer : UInt8
  col : UInt8
deriving DecidableEq

/-- `keyboard_scancode_1_to_ascii_map`; its entries from 79 on are NUL. -/
def keyboardScancode1ToAsciiMap (scancode : UInt8) : UInt8 :=
  -- escape, the digits, - = and backspace
  ([0, 0x1B, 49, 50, 51, 52, 53, 54, 55, 56, 57, 48, 45, 61, 8,
    -- tab, the three rows of letters with their punctuation, the newline after the first
    9, 113, 119, 101, 114, 116, 121, 117, 105, 111, 112, 91, 93, 10,
    0, 97, 115, 100, 102, 103, 104, 106, 107, 108, 59, 39, 96,
    0, 92, 122, 120, 99, 118, 98, 110, 109, 44, 46, 47, 0,
    -- * and the space, and the - and + of the key pad
    42, 0, 32, 0, 0, 0, 0, 0, 0, 0, 0, 0, 0, 0, 0, 0, 0, 0, 0, 45, 0, 0, 0, 43] : List UInt8).getD scancode.toNat 0

/-- `keyboard_isr` on the scancode it reads from the port. -/
def keyboardIsr (s : KeyboardDriverState) (scancode : UInt8) : KeyboardDriverState :=
  if s.keyboardInputOn then
    let asciiChar := keyboardScancode1ToAsciiMap scancode
    { s with keyboardBuffer := asciiChar, col := if asciiChar = 0x0A then 0 else s.col + 1 }
  else s

def keyboardStateActivate (s : KeyboardDriverState) : KeyboardDriverState := { s with keyboardInputOn := true }

def getKeyboardBuffer (s : KeyboardDriverState) : UInt8 × KeyboardDriverState :=
  (s.keyboardBuffer, { s with keyboardBuffer := 0 })

/-! ## Runs -/

/-- An interrupt of the keyboard, or a call of the reader. -/
inductive KeyEvent
  | interrupt (scancode : UInt8)
  | get

/-- What the calls of the reader return. -/
def returned (s : KeyboardDriverState) : List KeyEvent → List UInt8
  | [] => []
  | .interrupt scancode :: events => returned (keyboardIsr s scancode) events
  | .get :: events => (getKeyboardBuffer s).1 :: returned (getKeyboardBuffer s).2 events

/-- The characters that the reader learns of. -/
def received (s : KeyboardDriverState) (events : List KeyEvent) : List UInt8 := (returned s events).filter (· ≠ 0)

/-- The characters of the keys pressed. -/
def pressed : List KeyEvent → List UInt8
  | [] => []
  | .interrupt scancode :: events =>
    if keyboardScancode1ToAsciiMap scancode = 0 then pressed events
    else keyboardScancode1ToAsciiMap scancode :: pressed events
  | .get :: events => pressed events

/-- The reader calls between two presses, and after the last one; `waiting` says that a press is not read yet. -/
def Polled (waiting : Bool) : List KeyEvent → Prop
  | [] => waiting = false
  | .interrupt scancode :: events =>
    if keyboardScancode1ToAsciiMap scancode = 0 then Polled waiting events else waiting = false ∧ Polled true events
  | .get :: events => Polled false events

/-- No scancode that maps to NUL arrives between a press and the reader's next call. -/
def Undisturbed (waiting : Bool) : List KeyEvent → Prop
  | [] => True
  | .interrupt scancode :: events =>
    if keyboardScancode1ToAsciiMap scancode = 0 then waiting = false ∧ Undisturbed waiting events
    else Undisturbed true events
  | .get :: events => Undisturbed false events

@[simp] theorem pressed_get (events : List KeyEvent) : pressed (.get :: events) = pressed events := rfl

theorem pressed_interrupt (scancode : UInt8) (events : List KeyEvent) :
    pressed (.interrupt scancode :: events) =
      [keyboardScancode1ToAsciiMap scancode].filter (· ≠ 0) ++ pressed events := by
  rw [pressed]
  split
  · next h => rw [h]; rfl
  · next h => rw [List.filter_cons_of_pos (by simpa using h)]; rfl

/-- The character in the buffer, if there is one. -/
def buffered (s : KeyboardDriverState) : List UInt8 := [s.keyboardBuffer].filter (· ≠ 0)

theorem received_get (s : KeyboardDriverState) (events : List KeyEvent) :
    received s (.get :: events) = buffered s ++ received { s with keyboardBuffer := 0 } events := by
  unfold received buffered
  rw [← List.filter_append]
  rfl

/-- The handler puts the character of the scancode into the buffer, whatever was there. -/
theorem received_interrupt {s : KeyboardDriverState} (hon : s.keyboardInputOn = true) (scancode : UInt8)
    (events : List KeyEvent) :
    ∃ s', s'.keyboardInputOn = true ∧ s'.keyboardBuffer = keyboardScancode1ToAsciiMap scancode ∧
      received s (.interrupt scancode :: events) = received s' events := by
  refine ⟨keyboardIsr s scancode, ?_, ?_, rfl⟩ <;> unfold keyboardIsr <;> rw [if_pos hon]
  exact hon

/-! ## What the reader receives -/

/-- The reader never receives more than what is in the buffer and what is pressed. -/
theorem received_length_le (events : List KeyEvent) : ∀ s : KeyboardDriverState, s.keyboardInputOn = true →
    (received s events).length ≤ (buffered s).length + (pressed events).length := by
  induction events with
  | nil => exact fun s _ => Nat.zero_le _
  | cons event events ih =>
    intro s hon
    cases event with
    | get =>
      have := ih { s with keyboardBuffer := 0 } hon
      rw [received_get, List.length_append, pressed_get]
      exact Nat.add_le_add_left (by simpa [buffered] using this) _
    | interrupt scancode =>
      obtain ⟨s', hon', hbuf, hr⟩ := received_interrupt hon scancode events
      have := ih s' hon'
      rw [buffered, hbuf] at this
      rw [hr, pressed_interrupt, List.length_append]
      omega

/-- Undisturbed, the reader receives the character in the buffer and then every press. -/
theorem received_of_undisturbed (events : List KeyEvent) : ∀ (s : KeyboardDriverState) (waiting : Bool),
    s.keyboardInputOn = true → (waiting = false → s.keyboardBuffer = 0) → Polled waiting events →
      Undisturbed waiting events → received s events = buffered s ++ pressed events := by
  induction events with
  | nil =>
    intro s waiting hon hbuf hp _
    unfold buffered
    rw [hbuf hp]
    rfl
  | cons event events ih =>
    intro s waiting hon hbuf hp hu
    cases event with
    | get =>
      rw [received_get, ih { s with keyboardBuffer := 0 } false hon (fun _ => rfl) hp hu]
      rfl
    | interrupt scancode =>
      obtain ⟨s', hon', hbuf', hr⟩ := received_interrupt hon scancode events
      rw [hr, pressed_interrupt]
      unfold Polled at hp
      unfold Undisturbed at hu
      unfold buffered
      split at hp
      · next hz =>
        rw [if_pos hz] at hu
        rw [ih s' waiting hon' (fun _ => hbuf'.trans hz) hp hu.2, hbuf hu.1, buffered, hbuf', hz]
        rfl
      · next hz =>
        rw [if_neg hz] at hu
        rw [ih s' true hon' (fun h => absurd h (by decide)) hp.2 hu, hbuf hp.1, buffered, hbuf']
        rfl

/-- A disturbed press never reaches the reader. -/
theorem received_lt_of_disturbed (events : List KeyEvent) : ∀ (s : KeyboardDriverState) (waiting : Bool),
    s.keyboardInputOn = true → (waiting = true → s.keyboardBuffer ≠ 0) → ¬ Undisturbed waiting events →
      (received s events).length < (buffered s).length + (pressed events).length := by
  induction events with
  | nil => exact fun s waiting _ _ hu => absurd trivial hu
  | cons event events ih =>
    intro s waiting hon hbuf hu
    cases event with
    | get =>
      have := ih { s with keyboardBuffer := 0 } false hon (fun h => absurd h (by decide)) hu
      rw [received_get, List.length_append, pressed_get]
      exact Nat.add_lt_add_left (by simpa [buffered] using this) _
    | interrupt scancode =>
      obtain ⟨s', hon', hbuf', hr⟩ := received_interrupt hon scancode events
      have hle := received_length_le events s' hon'
      rw [hr, pressed_interrupt, List.length_append]
      unfold Undisturbed at hu
      split at hu
      · next hz =>
        cases waiting with
        | true =>
          have hfull : (buffered s).length = 1 := by simp [buffered, hbuf rfl]
          have hnone : (buffered s').length = 0 := by simp [buffered, hbuf', hz]
          omega
        | false =>
          have hlt := ih s' false hon' (fun h => absurd h (by decide)) fun h => hu ⟨rfl, h⟩
          rw [buffered, hbuf'] at hlt
          omega
      · next hz =>
        have hlt := ih s' true hon' (fun _ => hbuf'.symm ▸ hz) hu
        rw [buffered, hbuf'] at hlt
        omega

/-- Where the reader calls after every press, it receives exactly the characters pressed, in their order,
if and only if no release and no key without a character comes between a press and the call after it. -/
theorem received_iff {s : KeyboardDriverState} {events : List KeyEvent} (hon : s.keyboardInputOn = true)
    (hempty : s.keyboardBuffer = 0) (hp : Polled false events) :
    received s events = pressed events ↔ Undisturbed false events := by
  have hbuf : buffered s = [] := by simp [buffered, hempty]
  constructor
  · intro h
    by_contra hu
    have hlt := received_lt_of_disturbed events s false hon (fun h => absurd h (by decide)) hu
    rw [h, hbuf, List.length_nil] at hlt
    omega
  · intro hu
    rw [received_of_undisturbed events s false hon (fun _ => hempty) hp hu, hbuf, List.nil_append]

/-- The driver after its activation. -/
def activated : KeyboardDriverState := keyboardStateActivate ⟨false, false, 0, 0⟩

/-- The key `a`, read, and released. -/
theorem received_iff_letter :
    received activated [.interrupt 0x1E, .get, .interrupt 0x9E] = pressed [.interrupt 0x1E, .get, .interrupt 0x9E] ↔
      Undisturbed false [.interrupt 0x1E, .get, .interrupt 0x9E] :=
  received_iff rfl rfl (by simp [Polled]; decide)

/-- The key `a`, released before the reader calls. -/
theorem release_loses_letter :
    ¬ ∀ (s : KeyboardDriverState) (events : List KeyEvent), s.keyboardInputOn = true → s.keyboardBuffer = 0 →
      Polled false events → received s events = pressed events := by
  intro h
  have := h activated [.interrupt 0x1E, .interrupt 0x9E, .get] rfl rfl (by simp [Polled]; decide)
  exact absurd this (by decide)

end BebasOs.Driver
