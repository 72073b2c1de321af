import CompE.Vterm.Operations

/-!
# The keyboard handler and the reads of a line

`console_inputhandler` works on a copy of the `current_input` of the displayed
console.  It echoes the key, then stores into the buffer, then writes the copy
back.  Echoing turns interrupts on, so that processes run between the copy and
the stores, though no other key: `key` is the handler up to its echo, `finish`
is the rest.

`console_readline` fills in `current_input` field by field and polls it.  The
keyboard can interrupt between any two of these stores: `advance` does one.
At most one process reads from a console, as only one of each can run.
-/

namespace CompE.Vterm

open CompE.Library
open CompE.Kernel (Byte)

/-! ## Keys -/

/-- `kbd_mod_state_t`. -/
structure KbdModState where
  ctrl : Bool
  alt : Bool
  sft : Bool
  capslock : Bool

/-- `kbd_input_t`, but for `raw`. -/
structure KbdInput where
  mod : KbdModState
  charPressed : Byte

def usNumtosym : List Byte :=
  [0x29, 0x21, 0x40, 0x23, 0x24, 0x25, 0x5E, 0x26, 0x2A, 0x28]

def usSymgroup1 : List Byte := [0x7B, 0x7C, 0x7D]

/-- What `console_inputhandler` takes a key for. -/
inductive KeyKind where
  | printable
  | capslock
  | bksp
  | enter
  | other
  deriving DecidableEq, Repr

/-- The cascade of `console_inputhandler`: the kind of a key, and
`char_pressed`. -/
def decodeKey (mod : KbdModState) (raw : Byte) : KeyKind × Byte :=
  if 0x61 ≤ raw ∧ raw ≤ 0x7A then
    (.printable, if mod.sft || mod.capslock then raw - 0x20 else raw)
  else if 0x30 ≤ raw ∧ raw ≤ 0x39 then
    (.printable,
      if mod.sft then usNumtosym.getD (raw - 0x30).toNat 0 else raw)
  else if 0x5B ≤ raw ∧ raw ≤ 0x5D then
    (.printable,
      if mod.sft then usSymgroup1.getD (raw - 0x5B).toNat 0 else raw)
  else if raw = space then (.printable, space)
  else if raw = 0x3B then (.printable, if mod.sft then 0x3A else 0x3B)
  else if raw = 0x27 then (.printable, if mod.sft then 0x22 else 0x27)
  else if raw = 0x60 then (.printable, if mod.sft then 0x7E else 0x60)
  else if raw = 0x2D then (.printable, if mod.sft then 0x5F else 0x2D)
  else if raw = 0x3D then (.printable, if mod.sft then 0x2B else 0x3D)
  else if raw = 0x2C then (.printable, if mod.sft then 0x3C else 0x2C)
  else if raw = 0x2E then (.printable, if mod.sft then 0x3E else 0x2E)
  else if raw = 0x2F then (.printable, if mod.sft then 0x3F else 0x2F)
  else if raw = 0x1A then (.capslock, 0)
  else if raw = 0x08 then (.bksp, 0)
  else if raw = newline then (.enter, 0)
  else (.other, 0)

/-- `'\e'` -/
def escape : Byte := 0x1B

/-- The end of `console_echokbd`. -/
def echoChar (alt : Bool) (c : Byte) (s : Terminal) : Terminal :=
  let s1 := if alt || c = escape then consoleEcho 0x5B s else s
  if c = escape then s1 else consoleEcho c s1

/-- `console_echokbd`; `ctrl` and `L` clear the screen. -/
def consoleEchokbd (kbdin : KbdInput) (s : Terminal) : Terminal :=
  let s1 := s.setConstate s.currentConsole
    { s.constate s.currentConsole with vcurAutoincEn := true }
  if kbdin.mod.ctrl || kbdin.mod.alt then
    let s2 := consoleEcho 0x5E s1
    let c := if 0x61 ≤ kbdin.charPressed ∧ kbdin.charPressed ≤ 0x7A then
      kbdin.charPressed - 0x20 else kbdin.charPressed
    if c = 0x4C then consoleClrsc s2 else echoChar kbdin.mod.alt c s2
  else echoChar kbdin.mod.alt kbdin.charPressed s1

/-! ## The handler -/

/-- A store of the handler, `buffer[index] = char`. -/
structure Store where
  buffer : BitVec 32
  index : BitVec 32
  char : Byte
  deriving DecidableEq, Repr

/-- What the handler has in its locals after the echo. -/
structure Handler where
  kind : KeyKind
  charPressed : Byte
  currentInput : BufferedInput
  deriving DecidableEq, Repr

/-- A printable key in the buffer. -/
def storePrintable (inp : BufferedInput) (c : Byte) :
    List Store × BufferedInput :=
  if inp.complete then ([], inp)
  else if inp.next = inp.bufferLength - 2 then
    (if inp.bufferLength > 1 then
        [⟨inp.buffer, inp.next + 1, 0⟩, ⟨inp.buffer, inp.next, newline⟩]
      else [],
      { inp with complete := true })
  else ([⟨inp.buffer, inp.next, c⟩], { inp with next := inp.next + 1 })

/-- Enter in the buffer, also when the input is complete. -/
def storeEnter (inp : BufferedInput) : List Store × BufferedInput :=
  (if inp.next = inp.bufferLength then
      if inp.bufferLength > 1 then
        [⟨inp.buffer, inp.next - 1, 0⟩, ⟨inp.buffer, inp.next - 2, newline⟩]
      else []
    else if inp.bufferLength > 1 then
      [⟨inp.buffer, inp.next, newline⟩, ⟨inp.buffer, inp.next + 1, 0⟩]
    else [],
    { inp with complete := true })

/-- The second half of `console_inputhandler`. -/
def Handler.store (h : Handler) : List Store × BufferedInput :=
  match h.kind with
  | .printable => storePrintable h.currentInput h.charPressed
  | .enter => storeEnter h.currentInput
  | .bksp =>
      ([], if !h.currentInput.complete && h.currentInput.next > 0 then
        { h.currentInput with next := h.currentInput.next - 1 }
        else h.currentInput)
  | .capslock | .other => ([], h.currentInput)

/-! ## Reads -/

/-- How far `console_readline` and `console_getinput` are: the field stored
last. -/
inductive Stage where
  | called
  | buffer
  | length
  | next
  | complete
  | bkspstop
  deriving DecidableEq, Repr

/-- A read in progress. -/
structure Read where
  cbuf : BitVec 32
  n : BitVec 32
  stage : Stage
  deriving DecidableEq, Repr

/-- The consoles, the keyboard, a handler that has been interrupted, and the
reads in progress. -/
structure InputState where
  term : Terminal
  kbd : KbdInput
  handler : Option Handler
  reads : ConIdx → Option Read

/-- `current_input` of a console. -/
def Terminal.currentInput (s : Terminal) (con : ConIdx) : BufferedInput :=
  (s.vterms con).currentInput

def Terminal.setCurrentInput (s : Terminal) (con : ConIdx)
    (inp : BufferedInput) : Terminal :=
  { s with
    vterms :=
      Function.update s.vterms con { s.vterms con with currentInput := inp } }

/-- `con_bkspstop_col` of a console. -/
def Terminal.setBkspstop (s : Terminal) (con : ConIdx) (stop : Byte) :
    Terminal :=
  s.setConstate con { s.constate con with conBkspstopCol := stop }

/-- `console_inputhandler` up to the end of its echo. -/
def inputhandlerEcho (raw : Byte) (s : InputState) : InputState :=
  let key := decodeKey s.kbd.mod raw
  let kbd : KbdInput := { s.kbd with charPressed := key.2 }
  let handler : Handler :=
    ⟨key.1, key.2, s.term.currentInput s.term.currentConsole⟩
  match key.1 with
  | .printable =>
      if key.2 = 0 then { s with kbd := kbd }
      else
        { s with
          kbd := kbd, term := consoleEchokbd kbd s.term, handler := some handler }
  | .capslock =>
      { s with
        kbd := { kbd with
          mod := { kbd.mod with capslock := !kbd.mod.capslock } } }
  | .bksp =>
      { s with kbd := kbd, term := consoleBksp s.term, handler := some handler }
  | .enter =>
      { s with
        kbd := kbd
        term := consoleInccur .linereturn s.term.currentConsole true s.term
        handler := some handler }
  | .other => { s with kbd := kbd }

/-- The rest of `console_inputhandler`. -/
def inputhandlerFinish (s : InputState) : InputState :=
  match s.handler with
  | none => s
  | some h =>
      { s with
        term := s.term.setCurrentInput s.term.currentConsole h.store.2
        handler := none }

/-- The call of `console_readline`. -/
def consoleReadline (con : ConIdx) (cbuf n : BitVec 32) (s : InputState) :
    InputState :=
  if cbuf = 0 then s
  else if n = 0 then s
  else { s with reads := Function.update s.reads con (some ⟨cbuf, n, .called⟩) }

/-- `console_readline_w`, with its `kbuf`. -/
def consoleReadlineW (con : ConIdx) (fd : Int) (kbuf nbytes : BitVec 32)
    (s : InputState) : InputState :=
  let nb := if nbytes.toInt ≥ 128 then 128 else nbytes
  if fd ≠ 0 then s else consoleReadline con kbuf nb s

/-- A read after a store to `current_input`. -/
def InputState.filled (s : InputState) (con : ConIdx) (r : Read) (stage : Stage)
    (inp : BufferedInput) : InputState :=
  { s with
    term := s.term.setCurrentInput con inp
    reads := Function.update s.reads con (some { r with stage := stage }) }

/-- The next store of a read, or a look at `complete`. -/
def readAdvance (con : ConIdx) (s : InputState) : InputState :=
  let inp := s.term.currentInput con
  match s.reads con with
  | none => s
  | some r =>
      match r.stage with
      | .called => s.filled con r .buffer { inp with buffer := r.cbuf }
      | .buffer => s.filled con r .length { inp with bufferLength := r.n }
      | .length => s.filled con r .next { inp with next := 0 }
      | .next => s.filled con r .complete { inp with complete := false }
      | .complete =>
          { s with
            term := s.term.setBkspstop con
              (BitVec.ofNat 8 (s.term.constate con).vcurX)
            reads := Function.update s.reads con
              (some { r with stage := .bkspstop }) }
      | .bkspstop =>
          if inp.complete then
            { s with
              term := s.term.setBkspstop con 0
              reads := Function.update s.reads con none }
          else s

/-! ## The machine -/

inductive InputEvent where
  | key (raw : Byte)
  | finish
  | modifiers (ctrl alt sft : Bool)
  | swap (newIdx : Int)
  | putchar (con : ConIdx) (c : Byte)
  | readline (con : ConIdx) (cbuf n : BitVec 32)
  | readlineW (con : ConIdx) (fd : Int) (kbuf nbytes : BitVec 32)
  | advance (con : ConIdx)

def InputEvent.run : InputEvent → InputState → InputState
  | .key raw, s => inputhandlerEcho raw s
  | .finish, s => inputhandlerFinish s
  | .modifiers ctrl alt sft, s =>
      { s with kbd := { s.kbd with
          mod := { s.kbd.mod with ctrl := ctrl, alt := alt, sft := sft } } }
  | .swap newIdx, s => { s with term := vtermSwapConsole newIdx s.term }
  | .putchar con c, s => { s with term := consolePutchar con c s.term }
  | .readline con cbuf n, s => consoleReadline con cbuf n s
  | .readlineW con fd kbuf nbytes, s => consoleReadlineW con fd kbuf nbytes s
  | .advance con, s => readAdvance con s

/-- The stores of the handler. -/
def InputEvent.stores (i : InputEvent) (s : InputState) : List Store :=
  match i, s.handler with
  | .finish, some h => h.store.1
  | _, _ => []

/-- The keyboard does not interrupt its own handler, and at most one process
reads from a console. -/
def InputEvent.possible (i : InputEvent) (s : InputState) : Prop :=
  match i with
  | .key _ | .modifiers .. | .swap _ => s.handler = none
  | .readline con _ _ | .readlineW con _ _ _ => s.reads con = none
  | .finish | .putchar .. | .advance _ => True

instance (i : InputEvent) (s : InputState) : Decidable (i.possible s) := by
  cases i <;> unfold InputEvent.possible <;> infer_instance

/-- The machine.  What cannot happen in a state does not. -/
def lineInput : Machine InputState InputEvent Store where
  step s i := if i.possible s then i.run s else s
  emit s i := i.stores s
  legal _ _ := True

theorem lineInput_legal (s : InputState) (is : List InputEvent) :
    lineInput.Legal s is :=
  lineInput.always_of_forall (fun _ _ => trivial) s is

/-- After initialisation nobody reads. -/
def bootInput (video : Nat → VgaChar) (padding : ConIdx → Nat → Byte)
    (behind : Nat → Byte) : InputState where
  term := bootTerminal video padding behind
  kbd :=
    { mod := { ctrl := false, alt := false, sft := false, capslock := false }
      charPressed := 0 }
  handler := none
  reads _ := none

end CompE.Vterm
