import CompE.Kernel.FileSystem
import Mathlib.Logic.Function.Iterate

/-!
# The three consoles and the screen

A console has a text buffer of its own, `vid_buf`, next to the text memory
`VIDEO` of the screen.  Every output goes to the buffer of its console, and to
the screen when that console is the one displayed.

`console_putchar` writes on the console of the running process,
`console_echo` on the one displayed.  Both advance the cursor with
`console_inccur`, which may call `console_scroll`, which blanks the last row
with the first two again.  Since scrolling is switched off while it does so,
the recursion ends after one round: the functions that take the next one as a
parameter, `putcharWith` and so on, are tied together at the end.  The recursion
as it is, and that it does the same, is the matter of `Driver` and `Refinement`.

In `console_scroll` the pointer into `vid_buf` advances by `LINE_MEM_LEN`
characters of two bytes each, the one into `VIDEO` by as many bytes.  So the
buffer moves up by two rows where the screen moves up by one, and the last row
that is copied lies behind the buffer: in the next `console_t` of `vterms`.

The position of the hardware cursor is left out.
-/

namespace CompE.Vterm

open CompE.Kernel (Byte)

def numRows : Nat := 25
def numCols : Nat := 80

/-- `LINE_MEM_LEN`. -/
def lineMemLen : Nat := numCols * 2

/-! ## Data -/

/-- `vga_char_t`; the style is one byte. -/
structure VgaChar where
  codept : Byte
  style : Byte
  deriving DecidableEq, Repr

/-- `console_state_t`. -/
structure ConsoleState where
  condrvEn : Bool
  vcurX : Nat
  vcurY : Nat
  pcurEn : Bool
  kbdEchoEn : Bool
  vcurAutoincEn : Bool
  conWrap : Bool
  conScroll : Bool
  conBkspstopCol : Byte
  charstyle : VgaChar
  deriving DecidableEq, Repr

/-- `buffered_input_t`; `buffer` is an address, 0 is `NULL`. -/
structure BufferedInput where
  bufferLength : BitVec 32
  buffer : BitVec 32
  next : BitVec 32
  complete : Bool
  deriving DecidableEq, Repr

/-- `console_t`, but for `kbuf`. -/
structure Console where
  present : Bool
  id : Nat
  current : Bool
  constate : ConsoleState
  currentInput : BufferedInput
  vidBuf : Nat → VgaChar

/-- An index of `vterms`. -/
abbrev ConIdx := Fin 3

scoped instance conIdx_neZero : NeZero 3 := ⟨by decide⟩

/-- The globals of the console driver. -/
structure Terminal where
  vterms : ConIdx → Console
  currentConsole : ConIdx
  /-- the cells at `VIDEO` -/
  video : Nat → VgaChar
  /-- `vterms` byte by byte, where a byte is in no field of `Console` -/
  padding : ConIdx → Nat → Byte
  /-- what lies behind `vterms` -/
  behind : Nat → Byte

/-- The state of a console. -/
def Terminal.constate (s : Terminal) (c : ConIdx) : ConsoleState :=
  (s.vterms c).constate

def Terminal.setConstate (s : Terminal) (c : ConIdx) (st : ConsoleState) :
    Terminal :=
  { s with
    vterms := Function.update s.vterms c { s.vterms c with constate := st } }

/-! ## Memory behind a buffer -/

/-- `vid_buf` starts here in a `console_t` of `consoleSize` bytes. -/
def vidBufOffset : Nat := 177
def consoleSize : Nat := 4180

def boolByte (b : Bool) : Byte := if b then 1 else 0

/-- Byte `i` of a 32-bit word in memory. -/
def wordByte (n i : Nat) : Byte := BitVec.ofNat 8 (n / 2 ^ (8 * i))

/-- The bytes of a `console_t` in front of its `vid_buf`. -/
def consoleByte (con : Console) (padding : Nat → Byte) (off : Nat) : Byte :=
  if off = 0 then boolByte con.present
  else if 4 ≤ off ∧ off < 8 then wordByte con.id (off - 4)
  else if off = 8 then boolByte con.current
  else if off = 12 then boolByte con.constate.condrvEn
  else if 16 ≤ off ∧ off < 20 then wordByte con.constate.vcurX (off - 16)
  else if 20 ≤ off ∧ off < 24 then wordByte con.constate.vcurY (off - 20)
  else if off = 24 then boolByte con.constate.pcurEn
  else if off = 25 then boolByte con.constate.kbdEchoEn
  else if off = 26 then boolByte con.constate.vcurAutoincEn
  else if off = 27 then boolByte con.constate.conWrap
  else if off = 28 then boolByte con.constate.conScroll
  else if off = 29 then con.constate.conBkspstopCol
  else if off = 30 then con.constate.charstyle.codept
  else if off = 31 then con.constate.charstyle.style
  else if 32 ≤ off ∧ off < 36 then
    wordByte con.currentInput.bufferLength.toNat (off - 32)
  else if 36 ≤ off ∧ off < 40 then
    wordByte con.currentInput.buffer.toNat (off - 36)
  else if 40 ≤ off ∧ off < 44 then
    wordByte con.currentInput.next.toNat (off - 40)
  else if off = 44 then boolByte con.currentInput.complete
  else padding off

/-- Byte `j` behind the buffer of a console. -/
def Terminal.byteBehind (s : Terminal) (c : ConIdx) (j : Nat) : Byte :=
  let off := vidBufOffset + 2 * (numRows * numCols) + j
  if off < consoleSize then s.padding c off
  else if h : c.val + 1 < 3 then
    consoleByte (s.vterms ⟨c.val + 1, h⟩) (s.padding ⟨c.val + 1, h⟩)
      (off - consoleSize)
  else s.behind (off - consoleSize)

/-- Cell `j` behind the buffer of a console. -/
def Terminal.cellBehind (s : Terminal) (c : ConIdx) (j : Nat) : VgaChar where
  codept := s.byteBehind c (2 * j)
  style := s.byteBehind c (2 * j + 1)

/-- `vid_buf[i]`, also for an index behind the buffer. -/
def Terminal.cell (s : Terminal) (c : ConIdx) (i : Nat) : VgaChar :=
  if i < numRows * numCols then (s.vterms c).vidBuf i
  else s.cellBehind c (i - numRows * numCols)

/-! ## Output -/

/-- The console that an output goes to: the displayed one for
`force_current`, else that of the process. -/
def Terminal.out (s : Terminal) (con : ConIdx) (forceCurrent : Bool) : ConIdx :=
  if forceCurrent then s.currentConsole else con

/-- Whether a character also goes to the screen. -/
def Terminal.shown (s : Terminal) (con : ConIdx) (forceCurrent : Bool) : Bool :=
  forceCurrent || con.val == (s.vterms s.currentConsole).id

/-- `con_inc_t`. -/
inductive ConInc where
  | char
  | line
  | linereturn
  | screen

/-- The number of characters that `console_inccur` advances. -/
def ConInc.numChars (inc : ConInc) (constate : ConsoleState) : Nat :=
  match inc with
  | .char => 1
  | .line => 1 + numCols
  | .linereturn => 1 + (numCols - constate.vcurX - 1)
  | .screen => 1 + numCols * numRows

/-- One round of `console_inccur`, on its copy of the console state and the
rest of the driver. -/
def inccurStep {α : Type} (scroll : α → α) :
    ConsoleState × α → ConsoleState × α
  | (constate, s) =>
      if constate.vcurX + 1 ≥ numCols then
        if constate.vcurY + 1 ≥ numRows then
          if constate.conWrap then
            ({ constate with vcurY := numRows - 1, vcurX := 0 },
              if constate.conScroll then scroll s else s)
          else (constate, s)
        else if constate.conWrap then
          ({ constate with vcurY := constate.vcurY + 1, vcurX := 0 }, s)
        else (constate, s)
      else ({ constate with vcurX := constate.vcurX + 1 }, s)

/-- `console_inccur`.  The copy is written back at the end, whatever the
scrolling did to the original. -/
def inccurWith (scroll : ConIdx → Bool → Terminal → Terminal) (inc : ConInc)
    (con : ConIdx) (forceCurrent : Bool) (s : Terminal) : Terminal :=
  let constate := s.constate (s.out con forceCurrent)
  let r := (inccurStep (scroll con forceCurrent))^[inc.numChars constate]
    (constate, s)
  r.2.setConstate (r.2.out con forceCurrent) r.1

/-- The index of the cursor's cell. -/
def ConsoleState.cursor (constate : ConsoleState) : Nat :=
  constate.vcurX + constate.vcurY * numCols

/-- The character at the cursor, in the buffer and on the screen. -/
def storeChar (con : ConIdx) (forceCurrent : Bool) (c : Byte) (s : Terminal) :
    Terminal :=
  let out := s.out con forceCurrent
  let constate := s.constate out
  let outchar : VgaChar := { codept := c, style := constate.charstyle.style }
  { s with
    vterms := Function.update s.vterms out
      { s.vterms out with
        vidBuf := Function.update (s.vterms out).vidBuf constate.cursor outchar }
    video :=
      if s.shown con forceCurrent then
        Function.update s.video constate.cursor outchar
      else s.video }

/-- `'\n'` -/
def newline : Byte := 0x0A

/-- `' '` -/
def space : Byte := 0x20

/-- `console_putchar` and, with `force_current`, `console_echo`. -/
def putcharWith (inccur : ConInc → ConIdx → Bool → Terminal → Terminal)
    (con : ConIdx) (forceCurrent : Bool) (c : Byte) (s : Terminal) : Terminal :=
  if c = newline then inccur .linereturn con forceCurrent s
  else
    let s' := storeChar con forceCurrent c s
    if (s.constate (s.out con forceCurrent)).vcurAutoincEn then
      inccur .char con forceCurrent s'
    else s'

/-- The two `memmove`s of `console_scroll`. -/
def moveUp (out : ConIdx) (s : Terminal) : Terminal :=
  let len := (lineMemLen * (numRows - 1)) / 2
  { s with
    vterms := Function.update s.vterms out
      { s.vterms out with
        vidBuf := fun i =>
          if i < len then s.cell out (i + lineMemLen)
          else (s.vterms out).vidBuf i }
    video :=
      if (s.vterms out).current then
        fun i => if i < len then s.video (i + lineMemLen / 2) else s.video i
      else s.video }

/-- One line of `console_scroll`.  The last row is emptied by writing blanks over
it from a cursor moved there. -/
def scrollLineWith (putchar : ConIdx → Bool → Byte → Terminal → Terminal)
    (con : ConIdx) (forceCurrent : Bool) (s : Terminal) : Terminal :=
  let out := s.out con forceCurrent
  let old := s.constate out
  let s1 := moveUp out s
  let s2 := s1.setConstate out
    { s1.constate out with
      vcurX := 0, vcurY := numRows - 1, vcurAutoincEn := true
      conScroll := false }
  let s3 := (putchar con forceCurrent space)^[numCols] s2
  s3.setConstate out
    { s3.constate out with
      vcurX := old.vcurX, vcurY := old.vcurY, conScroll := true }

/-- `console_scroll`. -/
def scrollWith (putchar : ConIdx → Bool → Byte → Terminal → Terminal)
    (lines : Nat) (con : ConIdx) (forceCurrent : Bool) (s : Terminal) :
    Terminal :=
  if (s.constate (s.out con forceCurrent)).conScroll then
    (scrollLineWith putchar con forceCurrent)^[lines] s
  else s

/-- `console_putchar` while a row is emptied: `con_scroll` is off, so that
`console_inccur` does not scroll. -/
def putcharUnscrolled : ConIdx → Bool → Byte → Terminal → Terminal :=
  putcharWith (inccurWith fun _ _ s => s)

/-- `console_inccur`. -/
def consoleInccur : ConInc → ConIdx → Bool → Terminal → Terminal :=
  inccurWith (scrollWith putcharUnscrolled 1)

/-- `console_putchar`, by a process on console `con`. -/
def consolePutchar (con : ConIdx) (c : Byte) (s : Terminal) : Terminal :=
  putcharWith consoleInccur con false c s

/-- `console_echo`. -/
def consoleEcho (c : Byte) (s : Terminal) : Terminal :=
  putcharWith consoleInccur s.currentConsole true c s

/-! ## Backspace, clear, switch -/

/-- Where `console_bksp` moves the cursor. -/
def bkspMove (constate : ConsoleState) : ConsoleState :=
  if constate.vcurX = 0 then
    if constate.vcurY = 0 then { constate with vcurX := 0, vcurY := 0 }
    else
      { constate with
        vcurY := if constate.conWrap then constate.vcurY - 1 else constate.vcurY
        vcurX := numCols - 1 }
  else if constate.conBkspstopCol = 0 ∨
      constate.vcurX > constate.conBkspstopCol.toNat then
    { constate with vcurX := constate.vcurX - 1 }
  else constate

/-- `console_bksp`.  It clears `vcur_autoinc_en`, and writes the console state
back with the old value before it echoes the blank. -/
def consoleBksp (s : Terminal) : Terminal :=
  let cur := s.currentConsole
  let constate := bkspMove (s.constate cur)
  let s1 := s.setConstate cur { s.constate cur with vcurAutoincEn := false }
  let s2 := consoleEcho space (s1.setConstate cur constate)
  let s3 := s2.setConstate cur { s2.constate cur with vcurAutoincEn := true }
  s3.setConstate cur constate

/-- `clear`: the screen only. -/
def clear (s : Terminal) : Terminal :=
  { s with video := fun i =>
      if i < numRows * numCols then { codept := space, style := 0x7 }
      else s.video i }

/-- `console_clrsc`. -/
def consoleClrsc (s : Terminal) : Terminal :=
  let s1 := clear s
  s1.setConstate s1.currentConsole
    { s1.constate s1.currentConsole with vcurX := 0, vcurY := 0 }

/-- The copies of `vterm_swap_console`. -/
def swapTo (new : ConIdx) (s : Terminal) : Terminal :=
  let cur := s.currentConsole
  let len := numRows * numCols
  let saved := Function.update s.vterms cur
    { s.vterms cur with
      current := false
      vidBuf := fun i => if i < len then s.video i else (s.vterms cur).vidBuf i }
  { s with
    vterms := Function.update saved new { saved new with current := true }
    currentConsole := new
    video := fun i => if i < len then (saved new).vidBuf i else s.video i }

/-- The test of `vterm_swap_console`. -/
theorem conIdx_lt {newIdx : Int} (h : 0 ≤ newIdx ∧ newIdx < 3) : newIdx.toNat < 3 := by
  omega

/-- `vterm_swap_console`. -/
def vtermSwapConsole (newIdx : Int) (s : Terminal) : Terminal :=
  if h : 0 ≤ newIdx ∧ newIdx < 3 then
    let new : ConIdx := ⟨newIdx.toNat, conIdx_lt h⟩
    if (s.vterms new).present then swapTo new s else s
  else s

/-! ## Initialisation -/

/-- A console as it is before `vterm_new`. -/
def zeroConsole : Console where
  present := false
  id := 0
  current := false
  constate :=
    { condrvEn := false, vcurX := 0, vcurY := 0, pcurEn := false
      kbdEchoEn := false, vcurAutoincEn := false, conWrap := false
      conScroll := false, conBkspstopCol := 0
      charstyle := { codept := 0, style := 0 } }
  currentInput := { bufferLength := 0, buffer := 0, next := 0, complete := false }
  vidBuf := fun _ => { codept := 0, style := 0 }

/-- The console state that `vterm_new` sets: yellow on black. -/
def newConstate : ConsoleState where
  condrvEn := true
  vcurX := 0
  vcurY := 0
  pcurEn := true
  kbdEchoEn := true
  vcurAutoincEn := true
  conWrap := true
  conScroll := true
  conBkspstopCol := 0
  charstyle := { codept := space, style := 0x0E }

/-- `vterm_new`.  The "screen buffer" that it fills with spaces is the
screen. -/
def vtermNew (idx : ConIdx) (s : Terminal) : Terminal :=
  if (s.vterms idx).present then s
  else
    { s with
      vterms := Function.update s.vterms idx
        { s.vterms idx with
          id := idx.val, constate := newConstate, present := true
          currentInput :=
            { (s.vterms idx).currentInput with buffer := 0, bufferLength := 0 } }
      video := fun i =>
        if i < numRows * numCols then newConstate.charstyle else s.video i }

/-- `vterm_init`. -/
def vtermInit (s : Terminal) : Terminal :=
  let s1 := vtermNew 0 s
  { s1 with
    vterms := Function.update s1.vterms 0 { s1.vterms 0 with current := true }
    currentConsole := 0 }

/-- `"[INFO] Console Initialized.\n"` -/
def initMessage : List Byte :=
  [0x5B, 0x49, 0x4E, 0x46, 0x4F, 0x5D, 0x20, 0x43, 0x6F, 0x6E, 0x73, 0x6F,
   0x6C, 0x65, 0x20, 0x49, 0x6E, 0x69, 0x74, 0x69, 0x61, 0x6C, 0x69, 0x7A,
   0x65, 0x64, 0x2E, 0x0A]

/-- `console_puts` without a process: on the first console. -/
def consolePuts (str : List Byte) (s : Terminal) : Terminal :=
  str.foldl (fun s c => consolePutchar 0 c s) s

/-- `console_init`. -/
def consoleInit (s : Terminal) : Terminal :=
  let s1 := clear s
  consolePuts initMessage
    (s1.setConstate 0
      { newConstate with
        charstyle := { newConstate.charstyle with
          codept := (s1.constate 0).charstyle.codept } })

/-- The terminals after initialisation. -/
def bootTerminal (video : Nat → VgaChar) (padding : ConIdx → Nat → Byte)
    (behind : Nat → Byte) : Terminal :=
  consoleInit (vtermNew 2 (vtermNew 1 (vtermInit
    { vterms := fun _ => zeroConsole, currentConsole := 0, video := video
      padding := padding, behind := behind })))

end CompE.Vterm
