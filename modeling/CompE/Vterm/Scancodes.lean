import CompE.Vterm.Keyboard

/-!
# The scancodes of the keyboard

`interpret_scancode` looks a key up in `scan1_normal`, keeps the modifier
flags, hands keys over to `console_inputhandler` and selects consoles with
`Alt` and a function key.  The bound on the scancode includes
`SCANCODE_SET1_LEN`, one more than `scan1_normal` has.  The code of a function
key is a signed and negative `char`, so that its bound `MAX_VTERMS` lets all ten
of them index `vterms`, and only `vterm_swap_console` looks at the number.

The marks `current` of the consoles are kept by everything a key does but a
switch, whether or not the consoles have been created.
-/

namespace CompE.Vterm

open CompE.Library
open CompE.Kernel (Byte)

/-! ## Tables -/

/-- `RELEASED_MASK` -/
def releasedMask : Byte := 0x80

/-- `SCANCODE_SET1_LEN` -/
def scancodeSet1Len : Nat := 0x58

/-- `scan1_normal`; the last two have no initialiser. -/
def scan1Normal : List Byte :=
  [0x00, 0x1B,
   0x31, 0x32, 0x33, 0x34, 0x35, 0x36, 0x37, 0x38, 0x39, 0x30,
   0x2D, 0x3D, 0x08, 0x09,
   0x71, 0x77, 0x65, 0x72, 0x74, 0x79, 0x75, 0x69, 0x6F, 0x70,
   0x5B, 0x5D, 0x0A, 0x11,
   0x61, 0x73, 0x64, 0x66, 0x67, 0x68, 0x6A, 0x6B, 0x6C, 0x3B, 0x27, 0x60,
   0x0E, 0x5C,
   0x7A, 0x78, 0x63, 0x76, 0x62, 0x6E, 0x6D, 0x2C, 0x2E, 0x2F,
   0x0F, 0x2A, 0x13, 0x20, 0x1A,
   0xF1, 0xF2, 0xF3, 0xF4, 0xF5, 0xF6, 0xF7, 0xF8, 0xF9, 0xFA,
   0x1C, 0x16,
   0x37, 0x38, 0x39, 0x2D,
   0x34, 0x35, 0x36, 0x2B,
   0x31, 0x32, 0x33, 0x30, 0x2E,
   0x0B, 0x0C,
   0x00, 0x00]

/-- `scan1_special` -/
def scan1Special : List Byte := [0x00]

private theorem scan1Normal_length : scan1Normal.length = scancodeSet1Len := rfl

/-- What `interpret_scancode` indexes. -/
inductive Table where
  | scan1Normal
  | scan1Special
  | vterms
  deriving DecidableEq, Repr

def Table.length : Table → Nat
  | .scan1Normal => scancodeSet1Len
  | .scan1Special => 1
  | .vterms => 3

/-- An index used. -/
structure Access where
  table : Table
  index : Nat
  deriving DecidableEq, Repr

/-- The index lies in the table. -/
def Access.inside (a : Access) : Prop :=
  a.index < a.table.length

instance (a : Access) : Decidable a.inside :=
  inferInstanceAs (Decidable (_ < _))

/-! ## Modifiers -/

/-- The flags of `kbd_mod_state_t` that are held keys. -/
inductive Modifier where
  | sft
  | ctrl
  | alt
  deriving DecidableEq, Repr

/-- `KBD_LSHIFT` and so on. -/
def modifierOf (ascii : Byte) : Option Modifier :=
  if ascii = 0x0E ∨ ascii = 0x0F then some .sft
  else if ascii = 0x11 ∨ ascii = 0x12 then some .ctrl
  else if ascii = 0x13 ∨ ascii = 0x14 then some .alt
  else none

def KbdModState.flag (mod : KbdModState) : Modifier → Bool
  | .sft => mod.sft
  | .ctrl => mod.ctrl
  | .alt => mod.alt

def KbdModState.setFlag (mod : KbdModState) (m : Modifier) (on : Bool) :
    KbdModState :=
  match m with
  | .sft => { mod with sft := on }
  | .ctrl => { mod with ctrl := on }
  | .alt => { mod with alt := on }

theorem setFlag_flag (mod : KbdModState) (m n : Modifier) (on : Bool) :
    (mod.setFlag m on).flag n = if m = n then on else mod.flag n := by
  cases m <;> cases n <;> rfl

/-! ## The interpreter -/

/-- The driver between two scancodes. -/
structure KeyboardState where
  input : InputState
  last : Byte
  /-- the byte behind `scan1_normal` -/
  behind : Byte

def KeyboardState.setModifier (s : KeyboardState) (m : Modifier) (on : Bool) :
    KeyboardState :=
  { s with
    input := { s.input with
      kbd := { s.input.kbd with mod := s.input.kbd.mod.setFlag m on } } }

/-- The arguments of `interpret_scancode`. -/
structure Scancode where
  pri : Byte
  sec : Byte
  deriving DecidableEq, Repr

/-- `pri & ~RELEASED_MASK` -/
def Scancode.index (c : Scancode) : Nat :=
  (c.pri &&& ~~~releasedMask).toNat

/-- `console_inputhandler` without an interruption. -/
def consoleInputhandler (raw : Byte) (s : InputState) : InputState :=
  inputhandlerFinish (inputhandlerEcho raw s)

/-- `'\xF1'` to `'\xFA'`, in the order of signed characters. -/
def isFunctionKey (ascii : Byte) : Bool :=
  (0xF1 : Byte).sle ascii && ascii.sle 0xFA

/-- `vterms[console].present`, also for an index behind `vterms`. -/
def Terminal.presentAt (s : Terminal) (console : Nat) : Bool :=
  if h : console < 3 then (s.vterms ⟨console, h⟩).present
  else s.behind ((console - 3) * consoleSize) != 0

/-- `ALT+Fx`: the state after it, and the consoles looked at. -/
def changeConsole (ascii : Byte) (s : InputState) : InputState × List Access :=
  if ascii.toInt < 3 then
    let console : BitVec 32 := (ascii &&& 0x0F).setWidth 32 - 1
    ({ s with
        term := if s.term.presentAt console.toNat then
          vtermSwapConsole console.toInt s.term else s.term },
      [⟨.vterms, console.toNat⟩])
  else (s, [])

/-- A key that has been released. -/
def keyReleased (ascii : Byte) (s : KeyboardState) : KeyboardState :=
  match modifierOf ascii with
  | some m => s.setModifier m false
  | none => if ascii = s.last then { s with last := 0 } else s

/-- A key that has been pressed.  Of the keys held down, a backspace repeats. -/
def keyPressed (ascii : Byte) (s : KeyboardState) :
    KeyboardState × List Access :=
  match modifierOf ascii with
  | some m => (s.setModifier m true, [])
  | none =>
      if ascii = 0x08 then
        ({ s with input := consoleInputhandler ascii s.input }, [])
      else if isFunctionKey ascii then
        if s.input.kbd.mod.alt then
          ({ s with input := (changeConsole ascii s.input).1 },
            (changeConsole ascii s.input).2)
        else (s, [])
      else if ascii ≠ s.last then
        ({ s with input := consoleInputhandler ascii s.input, last := ascii }, [])
      else (s, [])

/-- What a call of `interpret_scancode` does: its result, the state after it,
and the indices used. -/
structure Interpreted where
  ascii : Byte
  state : KeyboardState
  accesses : List Access

/-- The look-up of `interpret_scancode`. -/
def KeyboardState.lookup (s : KeyboardState) (c : Scancode) : Byte :=
  if c.sec = 0 then scan1Normal.getD c.index s.behind
  else scan1Special.getD 0 0

/-- The index of the look-up. -/
def Scancode.lookedUp (c : Scancode) : Access :=
  if c.sec = 0 then ⟨.scan1Normal, c.index⟩ else ⟨.scan1Special, 0⟩

/-- `interpret_scancode`. -/
def interpretScancode (c : Scancode) (s : KeyboardState) : Interpreted :=
  if c.index > scancodeSet1Len then ⟨0, s, []⟩
  else
    let ascii := s.lookup c
    if c.pri > releasedMask then ⟨ascii, keyReleased ascii s, [c.lookedUp]⟩
    else
      let pressed := keyPressed ascii s
      ⟨ascii, pressed.1, c.lookedUp :: pressed.2⟩

/-- The driver, scancode after scancode. -/
def scancodes : Machine KeyboardState Scancode Access where
  step s c := (interpretScancode c s).state
  emit s c := (interpretScancode c s).accesses
  legal _ _ := True

private theorem scancodes_legal (s : KeyboardState) (cs : List Scancode) :
    scancodes.Legal s cs :=
  scancodes.always_of_forall (fun _ _ => trivial) s cs

/-! ## Marks -/

/-- The console displayed, and the marks of the three. -/
def Terminal.marks (s : Terminal) : ConIdx × (ConIdx → Bool) :=
  (s.currentConsole, fun c => (s.vterms c).current)

/-- The one console marked is the one displayed. -/
def Terminal.Marked (s : Terminal) : Prop :=
  ∀ c, (s.vterms c).current = decide (c = s.currentConsole)

theorem Terminal.Marked.of_marks {s s' : Terminal} (h : s.Marked)
    (hMarks : s'.marks = s.marks) : s'.Marked := by
  intro c
  have hCur : s'.currentConsole = s.currentConsole := congrArg Prod.fst hMarks
  have hMark : (s'.vterms c).current = (s.vterms c).current :=
    congrFun (congrArg Prod.snd hMarks) c
  rw [hMark, hCur, h c]

/-- After a switch the marks are right if they were before. -/
theorem Terminal.Marked.swapTo {s : Terminal} (h : s.Marked) (new : ConIdx) :
    (swapTo new s).Marked := by
  intro c
  rw [swapTo_vterms, swapTo_currentConsole]
  by_cases hNew : c = new
  · simp [hNew]
  · by_cases hCur : c = s.currentConsole
    · simp [hCur]
    · simp [hNew, hCur, h c]

section Marks

/-- A new value of a console with the old mark. -/
theorem marks_of_update {s s' : Terminal} {t : ConIdx} {con : Console}
    (hCur : s'.currentConsole = s.currentConsole)
    (hVterms : s'.vterms = Function.update s.vterms t con)
    (hMark : con.current = (s.vterms t).current) : s'.marks = s.marks := by
  simp only [Terminal.marks, hCur, hVterms]
  congr 1
  funext c
  exact update_same s.vterms t Console.current hMark c

@[simp] theorem setConstate_marks (s : Terminal) (t : ConIdx)
    (st : ConsoleState) : (s.setConstate t st).marks = s.marks :=
  marks_of_update rfl rfl rfl

@[simp] theorem setCurrentInput_marks (s : Terminal) (t : ConIdx)
    (inp : BufferedInput) : (s.setCurrentInput t inp).marks = s.marks :=
  marks_of_update rfl rfl rfl

@[simp] theorem storeChar_marks (con : ConIdx) (forceCurrent : Bool) (c : Byte)
    (s : Terminal) : (storeChar con forceCurrent c s).marks = s.marks :=
  marks_of_update rfl rfl rfl

@[simp] theorem moveUp_marks (out : ConIdx) (s : Terminal) :
    (moveUp out s).marks = s.marks :=
  marks_of_update rfl rfl rfl

private theorem marks_iterate {f : Terminal → Terminal} (h : ∀ s, (f s).marks = s.marks)
    (n : Nat) (s : Terminal) : (f^[n] s).marks = s.marks := by
  induction n generalizing s with
  | zero => rfl
  | succ n ih => rw [Function.iterate_succ_apply, ih (f s), h s]

/-- The scrolling is all that a round of `console_inccur` does to the rest. -/
theorem inccurStep_marks {scroll : Terminal → Terminal}
    (h : ∀ s, (scroll s).marks = s.marks) (x : ConsoleState × Terminal) :
    (inccurStep scroll x).2.marks = x.2.marks := by
  obtain ⟨st, s⟩ := x
  simp only [inccurStep]
  split
  · split
    · split
      · split
        · exact h s
        · rfl
      · rfl
    · split <;> rfl
  · rfl

private theorem inccurSteps_marks {scroll : Terminal → Terminal}
    (h : ∀ s, (scroll s).marks = s.marks) (n : Nat)
    (x : ConsoleState × Terminal) :
    ((inccurStep scroll)^[n] x).2.marks = x.2.marks := by
  induction n generalizing x with
  | zero => rfl
  | succ n ih =>
      rw [Function.iterate_succ_apply, ih (inccurStep scroll x),
        inccurStep_marks h x]

private theorem inccurWith_marks {scroll : ConIdx → Bool → Terminal → Terminal}
    {con : ConIdx} {forceCurrent : Bool}
    (h : ∀ s, (scroll con forceCurrent s).marks = s.marks) (inc : ConInc)
    (s : Terminal) : (inccurWith scroll inc con forceCurrent s).marks = s.marks := by
  simp only [inccurWith, setConstate_marks]
  exact inccurSteps_marks h _ _

private theorem putcharWith_marks {inccur : ConInc → ConIdx → Bool → Terminal → Terminal}
    {con : ConIdx} {forceCurrent : Bool}
    (h : ∀ inc s, (inccur inc con forceCurrent s).marks = s.marks) (c : Byte)
    (s : Terminal) : (putcharWith inccur con forceCurrent c s).marks = s.marks := by
  simp only [putcharWith]
  split
  · exact h _ s
  · split
    · rw [h, storeChar_marks]
    · exact storeChar_marks con forceCurrent c s

private theorem scrollWith_marks {putchar : ConIdx → Bool → Byte → Terminal → Terminal}
    {con : ConIdx} {forceCurrent : Bool}
    (h : ∀ c s, (putchar con forceCurrent c s).marks = s.marks) (lines : Nat)
    (s : Terminal) :
    (scrollWith putchar lines con forceCurrent s).marks = s.marks := by
  have hLine : ∀ s, (scrollLineWith putchar con forceCurrent s).marks = s.marks := by
    intro s
    simp only [scrollLineWith, setConstate_marks]
    rw [marks_iterate (h space), setConstate_marks, moveUp_marks]
  unfold scrollWith
  split
  · exact marks_iterate hLine lines s
  · rfl

private theorem putcharUnscrolled_marks (con : ConIdx) (forceCurrent : Bool) (c : Byte)
    (s : Terminal) : (putcharUnscrolled con forceCurrent c s).marks = s.marks :=
  putcharWith_marks (fun inc s => inccurWith_marks (fun _ => rfl) inc s) c s

@[simp] theorem consoleInccur_marks (inc : ConInc) (con : ConIdx)
    (forceCurrent : Bool) (s : Terminal) :
    (consoleInccur inc con forceCurrent s).marks = s.marks :=
  inccurWith_marks (scrollWith_marks (putcharUnscrolled_marks con forceCurrent) 1)
    inc s

@[simp] theorem consoleEcho_marks (c : Byte) (s : Terminal) :
    (consoleEcho c s).marks = s.marks :=
  putcharWith_marks (fun inc s => consoleInccur_marks inc _ true s) c s

@[simp] theorem consoleBksp_marks (s : Terminal) :
    (consoleBksp s).marks = s.marks := by
  simp [consoleBksp]

@[simp] theorem consoleClrsc_marks (s : Terminal) :
    (consoleClrsc s).marks = s.marks := by
  simp only [consoleClrsc, setConstate_marks]
  rfl

private theorem echoChar_marks (alt : Bool) (c : Byte) (s : Terminal) :
    (echoChar alt c s).marks = s.marks := by
  unfold echoChar
  by_cases hBracket : (alt || c = escape) = true
  · simp only [hBracket, if_true]
    split <;> simp
  · simp only [hBracket]
    split <;> simp

private theorem consoleEchokbd_marks (kbdin : KbdInput) (s : Terminal) :
    (consoleEchokbd kbdin s).marks = s.marks := by
  unfold consoleEchokbd
  by_cases hMod : (kbdin.mod.ctrl || kbdin.mod.alt) = true
  · simp only [hMod, if_true]
    generalize (if 0x61 ≤ kbdin.charPressed ∧ kbdin.charPressed ≤ 0x7A then
      kbdin.charPressed - 0x20 else kbdin.charPressed) = c
    split
    · simp
    · rw [echoChar_marks, consoleEcho_marks, setConstate_marks]
  · simp only [hMod]
    exact (echoChar_marks _ _ _).trans (setConstate_marks _ _ _)

private theorem inputhandlerEcho_marks (raw : Byte) (s : InputState) :
    (inputhandlerEcho raw s).term.marks = s.term.marks := by
  unfold inputhandlerEcho
  simp only
  split
  · split
    · rfl
    · exact consoleEchokbd_marks _ _
  · rfl
  · exact consoleBksp_marks _
  · exact consoleInccur_marks _ _ _ _
  · rfl

private theorem consoleInputhandler_marks (raw : Byte) (s : InputState) :
    (consoleInputhandler raw s).term.marks = s.term.marks := by
  rw [consoleInputhandler, inputhandlerFinish]
  split
  · exact inputhandlerEcho_marks raw s
  · rw [setCurrentInput_marks, inputhandlerEcho_marks]

end Marks

/-! ## Function keys -/

/-- `F1` to `F12`. -/
def functionKeys : List Byte :=
  [0x3B, 0x3C, 0x3D, 0x3E, 0x3F, 0x40, 0x41, 0x42, 0x43, 0x44, 0x57, 0x58]

/-- The press of a function key, counted from 0. -/
def functionKey (n : Nat) : Scancode := ⟨functionKeys.getD n 0, 0⟩

/-- A switch to console `n`, if there is such a console. -/
def selectConsole (n : Nat) (s : Terminal) : Terminal :=
  if h : n < 3 then
    if (s.vterms ⟨n, h⟩).present then swapTo ⟨n, h⟩ s else s
  else s

/-- The driver after that. -/
def KeyboardState.select (s : KeyboardState) (n : Nat) : KeyboardState :=
  { s with
    input := { s.input with term := selectConsole n s.input.term } }

/-- The code of a function key, counted from 0. -/
def functionCode (n : Nat) : Byte := BitVec.ofNat 8 (0xF1 + n)

private theorem functionCode_isFunctionKey :
    ∀ n < 10, isFunctionKey (functionCode n) = true := by decide

private theorem functionCode_bksp : ∀ n < 10, functionCode n ≠ 0x08 := by decide

private theorem functionCode_modifier : ∀ n < 10, modifierOf (functionCode n) = none := by
  decide

/-- As a signed character it is below `MAX_VTERMS`. -/
theorem functionCode_negative : ∀ n < 10, (functionCode n).toInt < 3 := by decide

private theorem functionCode_console : ∀ n < 10,
    (functionCode n &&& 0x0F).setWidth 32 - 1 = BitVec.ofNat 32 n := by decide

private theorem functionCode_index : ∀ n < 10, (functionKey n).index = 0x3B + n := by
  decide

private theorem functionCode_pressed : ∀ n < 10, ¬ (functionKey n).pri > releasedMask := by
  decide

/-- The function keys in `scan1_normal`. -/
theorem scan1Normal_functionKey : ∀ i < 0x58,
    isFunctionKey (scan1Normal.getD i 0) = true →
      0x3B ≤ i ∧ i ≤ 0x44 := by decide

private theorem scan1Normal_functionCode : ∀ n < 10,
    scan1Normal.getD (0x3B + n) 0 = functionCode n := by decide

set_option maxRecDepth 20000 in
/-- A press has the index of its scancode. -/
theorem index_of_pressed : ∀ pri : Byte, ¬ pri > releasedMask →
    0 < (pri &&& ~~~releasedMask).toNat →
    (pri &&& ~~~releasedMask).toNat = pri.toNat := by decide

/-- What the console switch makes of the console's number. -/
theorem changeConsole_functionCode {n : Nat} (hn : n < 10) (s : InputState) :
    changeConsole (functionCode n) s =
      ({ s with term := selectConsole n s.term }, [⟨.vterms, n⟩]) := by
  have hNat : (BitVec.ofNat 32 n).toNat = n := by
    rw [BitVec.toNat_ofNat]
    omega
  have hInt : (BitVec.ofNat 32 n).toInt = n := by
    rw [BitVec.toInt_eq_toNat_of_lt (by omega), hNat]
  simp only [changeConsole, if_pos (functionCode_negative n hn),
    functionCode_console n hn, hNat, hInt]
  congr 2
  unfold selectConsole
  by_cases h : n < 3
  · have hBound : (0 : Int) ≤ n ∧ (n : Int) < 3 := by omega
    simp only [Terminal.presentAt, vtermSwapConsole, dif_pos h, dif_pos hBound,
      Int.toNat_natCast]
    by_cases hPresent : (s.term.vterms ⟨n, h⟩).present = true
    · simp [hPresent]
    · simp [hPresent]
  · have hBound : ¬ ((0 : Int) ≤ n ∧ (n : Int) < 3) := by omega
    rw [dif_neg h, vtermSwapConsole, dif_neg hBound, ite_self]

/-- A function key does nothing, or looks for a console and selects it. -/
theorem keyPressed_functionCode {n : Nat} (hn : n < 10) (s : KeyboardState) :
    keyPressed (functionCode n) s =
      if s.input.kbd.mod.alt then (s.select n, [⟨.vterms, n⟩]) else (s, []) := by
  simp only [keyPressed, functionCode_modifier n hn,
    if_neg (functionCode_bksp n hn), if_pos (functionCode_isFunctionKey n hn),
    changeConsole_functionCode hn]
  rfl

/-- No other key looks for one. -/
theorem keyPressed_other {ascii : Byte} (h : isFunctionKey ascii = false)
    (s : KeyboardState) : (keyPressed ascii s).2 = [] := by
  unfold keyPressed
  rw [if_neg (by simp [h] : ¬ isFunctionKey ascii = true)]
  split
  · rfl
  · split
    · rfl
    · split <;> rfl

theorem lookup_normal {c : Scancode} (hSec : c.sec = 0)
    (hIndex : c.index < scancodeSet1Len) (s : KeyboardState) :
    s.lookup c = scan1Normal.getD c.index 0 := by
  have hLength : c.index < scan1Normal.length := by
    rwa [scan1Normal_length]
  rw [KeyboardState.lookup, if_pos hSec]
  simp only [List.getD_eq_getElem?_getD, List.getElem?_eq_getElem hLength,
    Option.getD_some]

theorem lookup_special {c : Scancode} (hSec : c.sec ≠ 0) (s : KeyboardState) :
    s.lookup c = 0 := by
  rw [KeyboardState.lookup, if_neg hSec]
  rfl

/-- The scancodes of `F1` to `F10`. -/
theorem interpretScancode_functionKey {n : Nat} (hn : n < 10)
    (s : KeyboardState) :
    interpretScancode (functionKey n) s =
      ⟨functionCode n, (keyPressed (functionCode n) s).1,
        (functionKey n).lookedUp :: (keyPressed (functionCode n) s).2⟩ := by
  have hIndex := functionCode_index n hn
  have hIn : (functionKey n).index < scancodeSet1Len := by
    rw [hIndex]
    simp only [scancodeSet1Len]
    omega
  have hLookup : s.lookup (functionKey n) = functionCode n := by
    rw [lookup_normal rfl hIn, hIndex, scan1Normal_functionCode n hn]
  unfold interpretScancode
  rw [if_neg (Nat.not_lt.2 (Nat.le_of_lt hIn)), if_neg (functionCode_pressed n hn)]
  simp only [hLookup]

private theorem functionKey_pri : ∀ n < 10,
    (functionKey n).pri.toNat = 0x3B + n := by decide

private theorem functionKey_of_pri {c : Scancode} (hSec : c.sec = 0)
    (hLow : 0x3B ≤ c.pri.toNat) (hHigh : c.pri.toNat ≤ 0x44) :
    ∃ n, n < 10 ∧ c = functionKey n := by
  have hn : c.pri.toNat - 0x3B < 10 := by omega
  refine ⟨c.pri.toNat - 0x3B, hn, ?_⟩
  have hPri : c.pri = (functionKey (c.pri.toNat - 0x3B)).pri := by
    apply BitVec.eq_of_toNat_eq
    rw [functionKey_pri _ hn]
    omega
  obtain ⟨pri, sec⟩ := c
  subst hSec
  exact congrArg (Scancode.mk · 0) hPri

/-- Every key that has the code of a function key is one. -/
theorem functionKey_of_lookup {c : Scancode} {s : KeyboardState}
    (hIndex : c.index < scancodeSet1Len) (hPressed : ¬ c.pri > releasedMask)
    (h : isFunctionKey (s.lookup c) = true) : ∃ n, n < 10 ∧ c = functionKey n := by
  by_cases hSec : c.sec = 0
  · rw [lookup_normal hSec hIndex] at h
    obtain ⟨hLow, hHigh⟩ := scan1Normal_functionKey c.index hIndex h
    have hPri : c.index = c.pri.toNat :=
      index_of_pressed c.pri hPressed (Nat.lt_of_lt_of_le (by decide) hLow)
    exact functionKey_of_pri hSec (hPri ▸ hLow) (hPri ▸ hHigh)
  · rw [lookup_special hSec] at h
    exact absurd h (by decide)

/-! ## Selection of a console -/

/-- What a scancode should do. -/
structure Selects (s : KeyboardState) (c : Scancode) : Prop where
  inside : ∀ a ∈ (interpretScancode c s).accesses, a.inside
  marked : (interpretScancode c s).state.input.term.Marked
  /-- with `Alt`, `F1` to `F12` select a console or change none -/
  selects : ∀ n < 12, c = functionKey n → s.input.kbd.mod.alt = true →
    (interpretScancode c s).state.input.term = selectConsole n s.input.term
  /-- and the keys with a code of their own change nothing else -/
  unchanged : ∀ n < 10, c = functionKey n → s.input.kbd.mod.alt = true →
    (interpretScancode c s).state = s.select n

/-- The scancode is not the one behind the table, nor one of `F4` to `F10`
with `Alt`. -/
def InTables (s : KeyboardState) (c : Scancode) : Prop :=
  c.sec = 0 → c.index ≠ scancodeSet1Len ∧
    (0x3E ≤ c.pri.toNat → c.pri.toNat ≤ 0x44 → s.input.kbd.mod.alt = false)

private theorem lookedUp_inside_iff {c : Scancode} (hIndex : c.index ≤ scancodeSet1Len) :
    c.lookedUp.inside ↔ (c.sec = 0 → c.index ≠ scancodeSet1Len) := by
  by_cases hSec : c.sec = 0
  · rw [Scancode.lookedUp, if_pos hSec]
    show c.index < scancodeSet1Len ↔ _
    simp only [hSec, forall_const]
    omega
  · rw [Scancode.lookedUp, if_neg hSec]
    constructor
    · intro _ hZero
      exact absurd hZero hSec
    · intro _
      exact Nat.one_pos

private theorem functionKey_inside_iff {n : Nat} (hn : n < 10) (s : KeyboardState) :
    (∀ a ∈ (interpretScancode (functionKey n) s).accesses, a.inside) ↔
      InTables s (functionKey n) := by
  have hIndex := functionCode_index n hn
  have hLookedUp : (functionKey n).lookedUp.inside := by
    rw [lookedUp_inside_iff (by rw [hIndex, scancodeSet1Len]; omega), hIndex]
    intro _
    simp only [scancodeSet1Len]
    omega
  have hTable : InTables s (functionKey n) ↔
      (3 ≤ n → s.input.kbd.mod.alt = false) := by
    unfold InTables
    rw [functionKey_pri n hn, hIndex]
    simp only [functionKey, forall_const, scancodeSet1Len]
    constructor
    · intro h hThree
      exact h.2 (by omega) (by omega)
    · intro h
      exact ⟨by omega, fun hLow _ => h (by omega)⟩
  rw [interpretScancode_functionKey hn, keyPressed_functionCode hn, hTable]
  cases hAlt : s.input.kbd.mod.alt with
  | false => simp [hLookedUp]
  | true =>
      simp only [if_true, List.forall_mem_cons, hLookedUp, true_and]
      simp [Access.inside, Table.length]

/-- The indices of a scancode lie in their tables exactly then. -/
theorem accesses_inside_iff (s : KeyboardState) (c : Scancode) :
    (∀ a ∈ (interpretScancode c s).accesses, a.inside) ↔ InTables s c := by
  by_cases hKey : ∃ n, n < 10 ∧ c = functionKey n
  · obtain ⟨n, hn, rfl⟩ := hKey
    exact functionKey_inside_iff hn s
  · have hTable : InTables s c ↔ (c.sec = 0 → c.index ≠ scancodeSet1Len) := by
      refine forall_congr' fun hSec => and_iff_left fun hLow hHigh => ?_
      exact absurd (functionKey_of_pri hSec (by omega) hHigh) hKey
    rw [hTable]
    by_cases hLen : c.index > scancodeSet1Len
    · simp only [interpretScancode, if_pos hLen]
      constructor
      · intro _ _
        exact Nat.ne_of_gt hLen
      · intro _ a hMem
        exact absurd hMem List.not_mem_nil
    · rw [← lookedUp_inside_iff (Nat.not_lt.1 hLen)]
      unfold interpretScancode
      rw [if_neg hLen]
      by_cases hReleased : c.pri > releasedMask
      · simp [hReleased]
      · simp only [hReleased, if_false, List.forall_mem_cons]
        refine and_iff_left_of_imp fun hInside => ?_
        have hOther : isFunctionKey (s.lookup c) = false := by
          by_cases hSec : c.sec = 0
          · have hNe := (lookedUp_inside_iff (Nat.not_lt.1 hLen)).1 hInside hSec
            have hIndex : c.index < scancodeSet1Len := by omega
            exact eq_false_of_ne_true fun h =>
              hKey (functionKey_of_lookup hIndex hReleased h)
          · rw [lookup_special hSec]
            rfl
        rw [keyPressed_other hOther]
        exact fun a hMem => absurd hMem List.not_mem_nil

/-- What a call starts and ends with: right marks, and no handler that is
still at work. -/
structure Steady (s : InputState) : Prop where
  marked : s.term.Marked
  free : s.handler = none

theorem Steady.consoleInputhandler {s : InputState} (h : Steady s) (raw : Byte) :
    Steady (consoleInputhandler raw s) where
  marked := h.marked.of_marks (consoleInputhandler_marks raw s)
  free := by
    rw [CompE.Vterm.consoleInputhandler, inputhandlerFinish]
    split
    · assumption
    · rfl

theorem Steady.changeConsole {s : InputState} (h : Steady s) (ascii : Byte) :
    Steady (changeConsole ascii s).1 := by
  unfold CompE.Vterm.changeConsole
  split
  · refine ⟨?_, h.free⟩
    show Terminal.Marked (if _ then vtermSwapConsole _ s.term else s.term)
    split
    · unfold vtermSwapConsole
      split
      · simp only
        split
        · exact h.marked.swapTo _
        · exact h.marked
      · exact h.marked
    · exact h.marked
  · exact h

theorem Steady.keyPressed {s : KeyboardState} (h : Steady s.input) (ascii : Byte) :
    Steady (keyPressed ascii s).1.input := by
  unfold CompE.Vterm.keyPressed
  split
  · exact ⟨h.marked, h.free⟩
  · split
    · exact h.consoleInputhandler ascii
    · split
      · split
        · exact h.changeConsole ascii
        · exact h
      · split
        · exact h.consoleInputhandler ascii
        · exact h

theorem Steady.keyReleased {s : KeyboardState} (h : Steady s.input) (ascii : Byte) :
    Steady (keyReleased ascii s).input := by
  unfold CompE.Vterm.keyReleased
  split
  · exact ⟨h.marked, h.free⟩
  · split <;> exact h

theorem Steady.interpretScancode {s : KeyboardState} (h : Steady s.input)
    (c : Scancode) : Steady (interpretScancode c s).state.input := by
  unfold CompE.Vterm.interpretScancode
  split
  · exact h
  · simp only
    split
    · exact h.keyReleased _
    · exact h.keyPressed _

/-- `'\0'` is no key for the handler. -/
theorem consoleInputhandler_zero {s : InputState} (h : s.handler = none) :
    (consoleInputhandler 0 s).term = s.term := by
  have hKey : decodeKey s.kbd.mod 0 = (.other, 0) := by
    simp [decodeKey, space, newline]
  have hEcho : inputhandlerEcho 0 s =
      { s with kbd := { s.kbd with charPressed := 0 } } := by
    simp only [inputhandlerEcho, hKey]
  rw [consoleInputhandler, hEcho, inputhandlerFinish, h]

/-- `F11` has no code in `scan1_normal`, and the consoles are left alone. -/
theorem interpretScancode_f11 {s : KeyboardState} (h : Steady s.input) :
    (interpretScancode (functionKey 10) s).state.input.term = s.input.term := by
  have hLookup : s.lookup (functionKey 10) = 0 := by
    rw [lookup_normal rfl (by decide)]
    rfl
  have hPressed : keyPressed 0 s =
      if 0 ≠ s.last then
        ({ s with input := consoleInputhandler 0 s.input, last := 0 }, [])
      else (s, []) := rfl
  unfold interpretScancode
  rw [if_neg (by decide), if_neg (by decide), hLookup]
  simp only [hPressed]
  split
  · exact consoleInputhandler_zero h.free
  · rfl

/-- One scancode. -/
theorem selects_iff {s : KeyboardState} (h : Steady s.input) (c : Scancode) :
    Selects s c ↔ InTables s c := by
  refine ⟨fun hSelects => (accesses_inside_iff s c).1 hSelects.inside,
    fun hTables => ?_⟩
  have hUnchanged : ∀ n < 10, c = functionKey n →
      s.input.kbd.mod.alt = true →
        (interpretScancode c s).state = s.select n := by
    rintro n hn rfl hAlt
    rw [interpretScancode_functionKey hn, keyPressed_functionCode hn, if_pos hAlt]
  refine ⟨(accesses_inside_iff s c).2 hTables, (h.interpretScancode c).marked, ?_,
    hUnchanged⟩
  intro n hn hKey hAlt
  by_cases hTen : n < 10
  · rw [hUnchanged n hTen hKey hAlt]
    rfl
  · have hLast : n = 10 ∨ n = 11 := by omega
    obtain rfl | rfl := hLast
    · rw [hKey, interpretScancode_f11 h]
      rfl
    · rw [hKey] at hTables
      exact absurd rfl (hTables rfl).1

/--
**Console selection.**  In a run of scancodes every index used lies in its
table, the one console marked is the one displayed, and `Alt` with a function
key switches to its console if there is one, exactly if no scancode is the one
behind `scan1_normal` and none of `F4` to `F10` comes with `Alt`.
-/
theorem console_selection_iff (s : KeyboardState) (cs : List Scancode)
    (hMarked : s.input.term.Marked) (hFree : s.input.handler = none) :
    scancodes.Always Selects s cs ↔ scancodes.Always InTables s cs := by
  refine scancodes.always_iff_of_invariant (I := fun s => Steady s.input)
    ?_ ?_ cs s ⟨hMarked, hFree⟩ (scancodes_legal s cs)
  · intro s c hSteady _ hTables
    exact ⟨(selects_iff hSteady c).2 hTables, hSteady.interpretScancode c⟩
  · intro s c hSteady _ hSelects
    exact (selects_iff hSteady c).1 hSelects

/-- One console, and `Alt` held. -/
def altHeld : KeyboardState where
  input :=
    { term :=
        { vterms := fun c =>
            { zeroConsole with present := decide (c = 0), current := decide (c = 0) }
          currentConsole := 0
          video := fun _ => { codept := 0, style := 0 }
          padding := fun _ _ => 0
          behind := fun _ => 0 }
      kbd :=
        { mod := { ctrl := false, alt := true, sft := false, capslock := false }
          charPressed := 0 }
      handler := none
      reads := fun _ => none }
  last := 0
  behind := 0

private theorem altHeld_marked : altHeld.input.term.Marked := fun _ => rfl

/-- `F2` and `F3` without their consoles. -/
theorem console_selection_iff_altHeld :
    scancodes.Always Selects altHeld [functionKey 1, functionKey 2] ↔
      scancodes.Always InTables altHeld [functionKey 1, functionKey 2] :=
  console_selection_iff altHeld _ altHeld_marked rfl

/-- `Alt` and `F4` look for a fourth console. -/
theorem altF4_behind_vterms : ¬ ∀ (s : KeyboardState) (cs : List Scancode),
    s.input.term.Marked → s.input.handler = none →
      scancodes.Always Selects s cs := by
  intro h
  have hFour := (h altHeld [functionKey 3] altHeld_marked rfl).1.inside
    ⟨.vterms, 3⟩ (by decide)
  exact absurd hFour (by decide)

end CompE.Vterm
