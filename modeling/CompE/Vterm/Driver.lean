import CompE.Library.Depth
import CompE.Vterm.Operations

/-!
# The driver with its recursion and its cursor

`console_inccur` calls `console_scroll`, which calls `console_putchar` or
`console_echo` for each cell of the last row, and these call `console_inccur`
again.  Here this is what it is, to any depth: `calls con n` are the functions
with `n` calls left.  `console_putchar` and `console_echo` are the two copies
that they are in the source.

Beside the consoles there are the position of the hardware cursor, and a record
of the cells that the two functions have written, in buffers and on the screen.
-/

namespace CompE.Vterm

open CompE.Library
open CompE.Kernel (Byte)

/-- A cell written by `console_putchar` or `console_echo`. -/
inductive CellWrite where
  | buffer (con : ConIdx) (i : Nat)
  | screen (i : Nat)
  deriving DecidableEq, Repr

def CellWrite.index : CellWrite → Nat
  | .buffer _ i => i
  | .screen i => i

structure Driver where
  term : Terminal
  /-- the CRTC registers `VGA_CURSORHIGH` and `VGA_CURSORLOW` -/
  cursorAddr : Nat
  /-- `cursor_disable` of the CRTC, negated -/
  cursorShown : Bool
  written : List CellWrite

/-- The two functions that `console_scroll` calls. -/
structure Calls where
  putchar : Byte → Driver → Option Driver
  echo : Byte → Driver → Option Driver

namespace Driver

/-! ## Parts of the state -/

def constate (d : Driver) (c : ConIdx) : ConsoleState := d.term.constate c

def setConstate (d : Driver) (c : ConIdx) (st : ConsoleState) : Driver :=
  { d with term := d.term.setConstate c st }

/-- `vid_buf[i] = ch`. -/
def writeBuffer (d : Driver) (c : ConIdx) (i : Nat) (ch : VgaChar) : Driver :=
  { d with
    term := d.term.put c (d.constate c)
      (Function.update (d.term.vterms c).vidBuf i ch) d.term.video
    written := d.written ++ [.buffer c i] }

/-- `*(VIDEO + (i << 1)) = ch`. -/
def writeScreen (d : Driver) (i : Nat) (ch : VgaChar) : Driver :=
  { d with
    term := { d.term with video := Function.update d.term.video i ch }
    written := d.written ++ [.screen i] }

/-- `vga_set_cursor_pos`. -/
def vgaSetCursorPos (x y : Nat) (d : Driver) : Driver :=
  if x > numCols ∨ y > numRows then d
  else { d with cursorAddr := y * numCols + x }

/-- `vga_enable_cursor`. -/
def vgaEnableCursor (cursorState : Bool) (d : Driver) : Driver :=
  { d with cursorShown := cursorState }

/-- `console_refresh_pcur`. -/
def consoleRefreshPcur (d : Driver) : Driver :=
  let constate := d.constate d.term.currentConsole
  vgaSetCursorPos constate.vcurX constate.vcurY d

/-- `console_setcursorpos`, for the process on console `con`. -/
def consoleSetcursorpos (con : ConIdx) (x y : Nat) (d : Driver) : Driver :=
  if x ≥ numCols then d
  else if y ≥ numRows then d
  else d.setConstate con { d.constate con with vcurX := x, vcurY := y }

/-! ## Scrolling and the cursor -/

/-- `constate->vcur_x` and `vcur_y`, set directly or by `console_setcursorpos`. -/
def scrollCursor (con : ConIdx) (forceCurrent : Bool) (x y : Nat) (d : Driver) :
    Driver :=
  if forceCurrent then
    d.setConstate d.term.currentConsole
      { d.constate d.term.currentConsole with vcurX := x, vcurY := y }
  else d.consoleSetcursorpos con x y

/-- A character of the emptied row. -/
def scrollChar (calls : Calls) (forceCurrent : Bool) (d : Driver) : Option Driver :=
  if forceCurrent then calls.echo space d else calls.putchar space d

/-- The state of the consoles before the last row is emptied. -/
def scrollStart (con : ConIdx) (forceCurrent : Bool) (d : Driver) : Driver :=
  let out := d.term.out con forceCurrent
  let d1 : Driver := { d with term := moveUp out d.term }
  let d2 := d1.scrollCursor con forceCurrent 0 (numRows - 1)
  d2.setConstate out { d2.constate out with vcurAutoincEn := true, conScroll := false }

/-- The cursor back where it was, and scrolling on again. -/
def scrollEnd (con : ConIdx) (forceCurrent : Bool) (oldx oldy : Nat) (d : Driver) :
    Driver :=
  let out := d.term.out con forceCurrent
  let d1 := d.scrollCursor con forceCurrent oldx oldy
  let d2 :=
    if (d1.term.vterms out).current || forceCurrent then
      vgaSetCursorPos (d1.constate out).vcurX (d1.constate out).vcurY d1
    else d1
  d2.setConstate out { d2.constate out with conScroll := true }

/-- One line of `console_scroll`. -/
def scrollLine (calls : Calls) (con : ConIdx) (forceCurrent : Bool) (d : Driver) :
    Option Driver :=
  let old := d.constate (d.term.out con forceCurrent)
  (repeatM (scrollChar calls forceCurrent) numCols (d.scrollStart con forceCurrent)).map
    (scrollEnd con forceCurrent old.vcurX old.vcurY)

/-- `console_scroll`; its counter is a signed copy of `lines`. -/
def consoleScroll (calls : Calls) (con : ConIdx) (lines : BitVec 32)
    (forceCurrent : Bool) (d : Driver) : Option Driver :=
  if (d.constate (d.term.out con forceCurrent)).conScroll then
    repeatM (scrollLine calls con forceCurrent) lines.toInt.toNat d
  else some d

/-- One round of `console_inccur`, on its copy of the console state. -/
def inccurRound (calls : Calls) (con : ConIdx) (forceCurrent : Bool) :
    ConsoleState × Driver → Option (ConsoleState × Driver)
  | (constate, d) =>
      if constate.vcurX + 1 ≥ numCols then
        if constate.vcurY + 1 ≥ numRows then
          if constate.conWrap then
            (if constate.conScroll then consoleScroll calls con 1 forceCurrent d
              else some d).map
              fun d => ({ constate with vcurY := numRows - 1, vcurX := 0 }, d)
          else some (constate, d)
        else if constate.conWrap then
          some ({ constate with vcurY := constate.vcurY + 1, vcurX := 0 }, d)
        else some (constate, d)
      else some ({ constate with vcurX := constate.vcurX + 1 }, d)

/-- The end of `console_inccur`: the copy is written back. -/
def inccurEnd (con : ConIdx) (forceCurrent : Bool) :
    ConsoleState × Driver → Driver
  | (constate, d) =>
      let d1 := d.setConstate (d.term.out con forceCurrent) constate
      if forceCurrent || con == d1.term.currentConsole then
        vgaEnableCursor true d1.consoleRefreshPcur
      else d1

/-- `console_inccur`. -/
def consoleInccur (calls : Calls) (con : ConIdx) (inc : ConInc) (forceCurrent : Bool)
    (d : Driver) : Option Driver :=
  let constate := d.constate (d.term.out con forceCurrent)
  (repeatM (inccurRound calls con forceCurrent) (inc.numChars constate)
    (constate, d)).map (inccurEnd con forceCurrent)

/-! ## Characters -/

/-- `console_putchar`, by a process on console `con`. -/
def consolePutchar (calls : Calls) (con : ConIdx) (c : Byte) (d : Driver) :
    Option Driver :=
  if c = newline then consoleInccur calls con .linereturn false d
  else
    let constate := d.constate con
    let outchar : VgaChar := { codept := c, style := constate.charstyle.style }
    let d1 := d.writeBuffer con constate.cursor outchar
    let d2 :=
      if con.val = (d1.term.vterms d1.term.currentConsole).id then
        d1.writeScreen constate.cursor outchar
      else d1
    let d3 := d2.setConstate con constate
    (if constate.vcurAutoincEn then consoleInccur calls con .char false d3
      else some d3).map fun d4 =>
      if con.val = (d4.term.vterms d4.term.currentConsole).id then
        vgaSetCursorPos (d4.constate con).vcurX (d4.constate con).vcurY d4
      else d4

/-- `console_echo`, while a process on console `con` is running. -/
def consoleEcho (calls : Calls) (con : ConIdx) (c : Byte) (d : Driver) :
    Option Driver :=
  if c = newline then consoleInccur calls con .linereturn true d
  else
    let constate := d.constate d.term.currentConsole
    let outchar : VgaChar := { codept := c, style := constate.charstyle.style }
    let d1 := d.writeBuffer d.term.currentConsole constate.cursor outchar
    let d2 := d1.writeScreen constate.cursor outchar
    let d3 := d2.setConstate d2.term.currentConsole constate
    (if constate.vcurAutoincEn then consoleInccur calls con .char true d3
      else some d3).map fun d4 =>
      let constate := d4.constate d4.term.currentConsole
      let d5 := vgaSetCursorPos constate.vcurX constate.vcurY d4
      d5.setConstate d5.term.currentConsole constate

/-- The functions with `n` calls left, while a process on console `con` is
running. -/
def calls (con : ConIdx) : Nat → Calls
  | 0 => { putchar := fun _ _ => none, echo := fun _ _ => none }
  | n + 1 =>
      { putchar := consolePutchar (calls con n) con
        echo := consoleEcho (calls con n) con }

/-! ## Operations -/

/-- `console_bksp`. -/
def consoleBksp (calls : Calls) (d : Driver) : Option Driver :=
  let cur := d.term.currentConsole
  let constate := bkspMove (d.constate cur)
  let d1 := d.setConstate cur { d.constate cur with vcurAutoincEn := false }
  (calls.echo space (d1.setConstate cur constate)).map fun d2 =>
    let d3 := d2.setConstate cur { d2.constate cur with vcurAutoincEn := true }
    (d3.setConstate cur constate).consoleRefreshPcur

/-- `console_clrsc`. -/
def consoleClrsc (d : Driver) : Driver :=
  let d1 : Driver := { d with term := clear d.term }
  (d1.setConstate d1.term.currentConsole
    { d1.constate d1.term.currentConsole with vcurX := 0, vcurY := 0 }).consoleRefreshPcur

/-- `vterm_swap_console`. -/
def vtermSwapConsole (newIdx : Int) (d : Driver) : Driver :=
  if h : 0 ≤ newIdx ∧ newIdx < 3 then
    let new : ConIdx := ⟨newIdx.toNat, conIdx_lt h⟩
    if (d.term.vterms new).present then
      let d1 : Driver := { d with term := swapTo new d.term }
      vgaEnableCursor true
        (vgaSetCursorPos (d1.constate new).vcurX (d1.constate new).vcurY d1)
    else d
  else d

end Driver

/-- What a process on console `con`, or the keyboard while it is running, can ask
for. -/
inductive DriverOp where
  | putchar (con : ConIdx) (c : Byte)
  | echo (con : ConIdx) (c : Byte)
  | bksp (con : ConIdx)
  | linefeed (con : ConIdx) (forceCurrent : Bool)
  | clrsc
  | scroll (con : ConIdx) (lines : BitVec 32) (forceCurrent : Bool)
  | swap (newIdx : Int)

/-- An operation with `n + 1` calls left. -/
def DriverOp.run (n : Nat) (op : DriverOp) (d : Driver) : Option Driver :=
  match op with
  | .putchar con c => Driver.consolePutchar (Driver.calls con n) con c d
  | .echo con c => Driver.consoleEcho (Driver.calls con n) con c d
  | .bksp con => Driver.consoleBksp (Driver.calls con (n + 1)) d
  | .linefeed con forceCurrent =>
      Driver.consoleInccur (Driver.calls con n) con .linereturn forceCurrent d
  | .clrsc => some d.consoleClrsc
  | .scroll con lines forceCurrent =>
      Driver.consoleScroll (Driver.calls con n) con lines forceCurrent d
  | .swap newIdx => some (d.vtermSwapConsole newIdx)

/-- A sequence of operations, each with `n + 1` calls. -/
def runOps (n : Nat) : List DriverOp → Driver → Option Driver
  | [], d => some d
  | op :: ops, d => (op.run n d).bind (runOps n ops)

end CompE.Vterm
