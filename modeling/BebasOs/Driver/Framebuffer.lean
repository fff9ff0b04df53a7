/-
`framebuffer.c`: the 25 rows of 80 cells of the screen (`VGA_HEIGHT`, `VGA_WIDTH`), the cursor in the
registers of its controller, and the functions that clear, type and scroll. An access to a cell
outside the rows, or a search that does not end, has no result.
-/
import BebasOs.Lib.Bytes
import BebasOs.Lib.Loop

namespace BebasOs.Driver

open Bytes Loop

/-- A cell of the screen: the character byte and the colour byte after it. -/
structure Cell where
  char : UInt8
  color : UInt8
deriving DecidableEq, Inhabited

/-- The cells from `FRAMEBUFFER_MEMORY_OFFSET` on, row by row, and the cursor registers 0x0F and 0x0E. -/
structure Screen where
  cells : Vector Cell 2000
  cursorLow : UInt8
  cursorHigh : UInt8

def newline : UInt8 := 0x0A
def backspace : UInt8 := 0x08

/-! ## The controller and the cells -/

def framebufferSetCursor (s : Screen) (r c : UInt8) : Screen :=
  let pos := r.toUInt16 * 80 + c.toUInt16
  { s with cursorLow := (pos &&& 0xFF).toUInt8, cursorHigh := (pos >>> 8 &&& 0xFF).toUInt8 }

def getCursorPos (s : Screen) : UInt16 := s.cursorLow.toUInt16 ||| s.cursorHigh.toUInt16 <<< 8

/-- The store of a whole cell. -/
def putCell (s : Screen) (k : ℕ) (v : Cell) : Option Screen :=
  if k < 2000 then some { s with cells := store s.cells k v } else none

/-- The load of a whole cell. -/
def getCell (s : Screen) (k : ℕ) : Option Cell := if k < 2000 then some (cell s.cells k) else none

def framebufferWrite (s : Screen) (row col c fg bg : UInt8) : Option Screen :=
  putCell s (row.toNat * 80 + col.toNat) ⟨c, fg ||| bg⟩

def framebufferGet (s : Screen) (row col : UInt8) : Option UInt8 :=
  (getCell s (row.toNat * 80 + col.toNat)).map Cell.char

def framebufferClear (s : Screen) : Option Screen := do
  let s ← counted 80 (fun i => counted 25 fun j s =>
    framebufferWrite s (UInt8.ofNat j) (UInt8.ofNat i) 0x00 0x07 0x07) s
  return framebufferSetCursor s 0 0

/-- The two assignments in the loops of `shift_up`, for one cell. -/
def moveUp (s : Screen) (i j : ℕ) : Option Screen := do
  putCell s (i * 80 + j) (← getCell s ((i + 1) * 80 + j))

def shiftUp (s : Screen) : Option Screen := do
  let s ← counted 24 (fun i => counted 80 fun j s => moveUp s i j) s
  counted 80 (fun j s => framebufferWrite s 24 (UInt8.ofNat j) 0x00 0x07 0x07) s

/-! ## Typing -/

/-- The test of the search in the backspace branch. -/
def isVacant (s : Screen) (at' : UInt16 × UInt16) : Option Bool := do
  let c ← framebufferGet s at'.1.toUInt8 at'.2.toUInt8
  return c == 0 && c != newline

/-- One step of it: a column to the left, and from column 0 to the end of the row above. -/
def stepBack (at' : UInt16 × UInt16) : Option (UInt16 × UInt16) :=
  if at'.2 = 0 then some (at'.1 - 1, 80 - 1) else some (at'.1, at'.2 - 1)

/-- The search of the backspace branch. It changes no cell, so once it has seen every pair of a row and a
column it will never end. -/
def searchBack (s : Screen) (row col : UInt16) : Option (UInt16 × UInt16) :=
  guarded (2 ^ 16 * 80) (isVacant s) stepBack (row, col)

/-- The three branches of `putchar`: the screen, and the row and column to go on from. -/
def putcharBranch (s : Screen) (c : UInt8) (color : UInt32) (row col : UInt16) : Option (Screen × UInt16 × UInt16) :=
  if c = newline then do
    return (← framebufferWrite s row.toUInt8 col.toUInt8 c 0x00 0x00, row + 1, 0)
  else if c = backspace then
    if 0 < col then do
      return (← framebufferWrite s row.toUInt8 (col - 1).toUInt8 0x00 0x07 0x07, row, col - 1)
    else if 0 < row then do
      let (row, col) ← searchBack s (row - 1) (80 - 1)
      return (← framebufferWrite s row.toUInt8 col.toUInt8 0x00 0x07 0x07, row, col)
    else some (s, row, col)
  else do
    return (← framebufferWrite s row.toUInt8 col.toUInt8 c color.toUInt8 0, row, col + 1)

/-- The rest of `putchar`: wrap, scroll, and set the cursor. -/
def putcharSettle (s : Screen) (row col : UInt16) : Option Screen :=
  let row := row + col / 80
  let col := col % 80
  if row = 25 then do
    return framebufferSetCursor (← shiftUp s) (25 - 1) col.toUInt8
  else some (framebufferSetCursor s row.toUInt8 col.toUInt8)

def putchar (s : Screen) (c : UInt8) (color : UInt32) : Option Screen :=
  if c = 0 then some s
  else do
    let (s, row, col) ← putcharBranch s c color (getCursorPos s / 80) (getCursorPos s % 80)
    putcharSettle s row col

/-- `str` is the caller's memory from the pointer on. -/
def puts (s : Screen) (str : ℕ → UInt8) (len color : UInt32) : Option Screen :=
  counted len.toNat (fun i s => putchar s (str i) color) s

end BebasOs.Driver
