import CompE.Vterm.ReadLine

/-!
# The line on the screen

While a read waits, what has been typed is on the screen and in the buffer.
The keyboard handler keeps the two apart: `console_echokbd` and `console_bksp`
move the cursor, and the handler counts in `next`.  They agree if the cursor is
`next` cells behind the place where the read began, and the cells in between
are the characters of the buffer.  The place moves up with the screen, and
beyond its top.

`Keystroke.Keeps` says which keys keep this up, `echo_agrees_iff` that the others do
not.  These are

* a character with `ctrl` or `alt`, which is echoed as two or three;
* a backspace on an empty line that starts a row, which goes to the row above:
  a stop column of 0 stops nothing;
* a backspace on an empty line at the end of the screen, whose blank scrolls;
* a backspace in a later row of the line, left of the stop column, which takes
  a character from the buffer and none from the screen;
* a backspace at the top left when the row above has scrolled away.
-/

namespace CompE.Vterm

open CompE.Library
open CompE.Kernel (Byte)

/-! ## Keys -/

/-- A key, and the modifiers held with it. -/
structure Keystroke where
  mod : KbdModState
  raw : Byte

/-- What the handler takes the key for. -/
def Keystroke.key (k : Keystroke) : KeyKind × Byte := decodeKey k.mod k.raw

/-- The characters that `console_echokbd` echoes. -/
def echoString (kbdin : KbdInput) : List Byte :=
  let held := kbdin.mod.ctrl || kbdin.mod.alt
  let c := if held ∧ 0x61 ≤ kbdin.charPressed ∧ kbdin.charPressed ≤ 0x7A then
    kbdin.charPressed - 0x20 else kbdin.charPressed
  (if held then [0x5E] else []) ++
    if held ∧ c = 0x4C then []
    else
      (if kbdin.mod.alt || c = escape then [0x5B] else []) ++
        if c = escape then [] else [c]

/-- How often the characters of a string scroll the console. -/
def scrolls (st : ConsoleState) : List Byte → Nat
  | [] => 0
  | c :: str => (if st.scrollsOn c then 1 else 0) + scrolls (st.after c) str

/-- How often a key scrolls the console. -/
def Keystroke.scrolls (k : Keystroke) (st : ConsoleState) : Nat :=
  match k.key.1 with
  | .printable => CompE.Vterm.scrolls st (echoString ⟨k.mod, k.key.2⟩)
  | .bksp => CompE.Vterm.scrolls (bkspMove st) [space]
  | .enter | .capslock | .other => 0

/-! ## The screen and the buffer -/

/-- The driver, the memory with the buffer, and the index of the cell where the
read began.  It is negative when that row has scrolled away. -/
structure LineState where
  input : InputState
  mem : Memory
  start : Int

namespace LineState

variable (s : LineState)

/-- The state of the console that is displayed. -/
def constate : ConsoleState := s.input.term.constate s.input.term.currentConsole

/-- Its `current_input`. -/
def inp : BufferedInput := s.input.term.currentInput s.input.term.currentConsole

/-- What is between the place where the read began and the cursor is what is in
the buffer. -/
structure Agrees : Prop where
  cursor : (s.constate.cursor : Int) = s.start + s.inp.next.toNat
  cells : ∀ i j : Nat, i < s.inp.next.toNat → (j : Int) = s.start + i →
    (s.input.term.video j).codept = s.mem (s.inp.buffer + BitVec.ofNat 32 i)

end LineState

/-- A key while no other is handled: both halves of the handler. -/
def pressKey (k : Keystroke) (s : LineState) : LineState :=
  let kbd : KbdInput := { s.input.kbd with mod := k.mod }
  let echoed := inputhandlerEcho k.raw { s.input with kbd := kbd }
  { input := inputhandlerFinish echoed
    mem := (InputEvent.finish.stores echoed).foldl Store.apply s.mem
    start := s.start - (numCols * k.scrolls s.constate : Nat) }

/-- A character that does not complete the read, or a backspace. -/
def Keystroke.edits (k : Keystroke) (s : LineState) : Prop :=
  (k.key.1 = .printable ∧ s.inp.next ≠ s.inp.bufferLength - 2) ∨ k.key.1 = .bksp

/-- Typing in a line. -/
def lineEcho : Machine LineState Keystroke Unit where
  step s k := pressKey k s
  emit _ _ := []
  legal s k := k.edits s

/-- A backspace leaves what is in front of the line alone. -/
structure Behind (k : Keystroke) (s : LineState) : Prop where
  cursor : (pressKey k s).start ≤ (pressKey k s).constate.cursor
  cells : ∀ i : Nat, (i : Int) < (pressKey k s).start →
    (pressKey k s).input.term.video i =
      s.input.term.video (i + numCols * k.scrolls s.constate)

/-- What is expected of every key. -/
structure EchoKept (s : LineState) (k : Keystroke) : Prop where
  agrees : (pressKey k s).Agrees
  behind : k.key.1 = .bksp → Behind k s

/-- A backspace that stays where it is. -/
def ConsoleState.stuck (st : ConsoleState) : Prop :=
  if st.vcurX = 0 then st.vcurY = 0
  else st.conBkspstopCol ≠ 0 ∧ st.vcurX ≤ st.conBkspstopCol.toNat

instance (st : ConsoleState) : Decidable st.stuck :=
  inferInstanceAs (Decidable (ite _ _ _))

/-- The keys that keep screen and buffer together. -/
def Keystroke.Keeps (s : LineState) (k : Keystroke) : Prop :=
  match k.key.1 with
  | .printable => k.mod.ctrl = false ∧ k.mod.alt = false
  | .bksp =>
      if s.inp.next = 0 then s.constate.stuck ∧ ¬ s.constate.full
      else ¬ s.constate.stuck
  | .enter | .capslock | .other => True

/-- A read that waits for its first key. -/
def beginRead (con : ConIdx) (kbuf n : BitVec 32) (s : InputState) : InputState :=
  lineInput.run s
    [.readline con kbuf n, .advance con, .advance con, .advance con, .advance con,
      .advance con]

def LineState.begin (con : ConIdx) (kbuf n : BitVec 32) (mem : Memory)
    (s : InputState) : LineState where
  input := beginRead con kbuf n s
  mem := mem
  start := (s.term.constate con).cursor

/-! ## Cursors -/

theorem Ready.cursor_lt {st : ConsoleState} (h : Ready st) :
    st.cursor < numRows * numCols := by
  have hColumn := h.column
  have hRow := h.row
  simp only [ConsoleState.cursor, numRows, numCols] at *
  omega

private theorem after_of_fits {st : ConsoleState} {c : Byte} (hChar : c ≠ newline)
    (hNext : st.vcurX + 1 < numCols) :
    st.after c = { st with vcurX := st.vcurX + 1 } ∧ ¬ st.scrollsOn c := by
  rw [ConsoleState.after, if_neg hChar, ConsoleState.nextColumn, if_pos hNext,
    ConsoleState.scrollsOn, if_neg hChar]
  exact ⟨rfl, fun hFull => hFull.1 hNext⟩

private theorem after_of_wraps {st : ConsoleState} {c : Byte} (hChar : c ≠ newline)
    (hNext : ¬ st.vcurX + 1 < numCols) :
    st.after c = st.nextRow ∧ (st.scrollsOn c ↔ st.atBottom) := by
  rw [ConsoleState.after, if_neg hChar, ConsoleState.nextColumn, if_neg hNext,
    ConsoleState.scrollsOn, if_neg hChar, ConsoleState.full, and_iff_right hNext]
  exact ⟨rfl, Iff.rfl⟩

/-- A character moves the cursor on by one, or up by a row and on by one. -/
theorem Ready.cursor_after {st : ConsoleState} (h : Ready st) {c : Byte}
    (hChar : c ≠ newline) :
    (st.after c).cursor + numCols * (if st.scrollsOn c then 1 else 0) =
      st.cursor + 1 := by
  have hColumn := h.column
  have hRow := h.row
  by_cases hNext : st.vcurX + 1 < numCols
  · obtain ⟨hAfter, hScrolls⟩ := after_of_fits hChar hNext
    rw [hAfter, if_neg hScrolls]
    simp only [ConsoleState.cursor]
    omega
  · obtain ⟨hAfter, hScrolls⟩ := after_of_wraps hChar hNext
    rw [hAfter]
    by_cases hBottom : st.atBottom
    · rw [if_pos (hScrolls.2 hBottom)]
      simp only [ConsoleState.cursor, ConsoleState.nextRow, if_pos hBottom]
      simp only [ConsoleState.atBottom, numRows, numCols] at *
      omega
    · rw [if_neg (fun hYes => hBottom (hScrolls.1 hYes))]
      simp only [ConsoleState.cursor, ConsoleState.nextRow, if_neg hBottom]
      simp only [numCols] at *
      omega

/-- The last character of the screen. -/
theorem Ready.full_iff {st : ConsoleState} (h : Ready st) :
    st.full ↔ st.cursor + 1 = numRows * numCols := by
  have hColumn := h.column
  have hRow := h.row
  simp only [ConsoleState.full, ConsoleState.atBottom, ConsoleState.cursor, numRows,
    numCols] at *
  omega

/-- A string of characters moves the cursor on by its length. -/
theorem cursor_scrolls (str : List Byte) : ∀ {st : ConsoleState}, Ready st →
    (∀ c ∈ str, c ≠ newline) →
    (str.foldl ConsoleState.after st).cursor + numCols * scrolls st str =
      st.cursor + str.length := by
  induction str with
  | nil => intro st _ _; rfl
  | cons c str ih =>
      intro st h hChars
      have hHere := h.cursor_after (hChars c (List.mem_cons_self ..))
      have hRest := ih (h.after c) fun d hd => hChars d (List.mem_cons_of_mem _ hd)
      rw [List.foldl_cons, scrolls, List.length_cons, Nat.mul_add]
      omega

private theorem with_cursor {st : ConsoleState} {x y : Nat} (hx : st.vcurX = x)
    (hy : st.vcurY = y) : { st with vcurX := x, vcurY := y } = st := by
  subst hx hy
  rfl

private theorem bkspMove_stuck {st : ConsoleState} (h : st.stuck) : bkspMove st = st := by
  unfold ConsoleState.stuck at h
  unfold bkspMove
  by_cases hColumn : st.vcurX = 0
  · rw [if_pos hColumn] at h
    rw [if_pos hColumn, if_pos h]
    exact with_cursor hColumn h
  · rw [if_neg hColumn] at h
    rw [if_neg hColumn, if_neg]
    rintro (hZero | hBehind)
    · exact h.1 hZero
    · exact absurd hBehind (Nat.not_lt.2 h.2)

private theorem bkspMove_back {st : ConsoleState} (hReady : Ready st) (h : ¬ st.stuck) :
    (bkspMove st).cursor + 1 = st.cursor := by
  unfold ConsoleState.stuck at h
  unfold bkspMove
  by_cases hColumn : st.vcurX = 0
  · rw [if_pos hColumn] at h
    rw [if_pos hColumn, if_neg h]
    simp only [ConsoleState.cursor, hReady.wrap, if_true, hColumn]
    simp only [numCols]
    omega
  · rw [if_neg hColumn] at h
    rw [if_neg hColumn, if_pos]
    · simp only [ConsoleState.cursor]
      omega
    · by_cases hZero : st.conBkspstopCol = 0
      · exact Or.inl hZero
      · exact Or.inr (Nat.not_le.1 fun hStop => h ⟨hZero, hStop⟩)

private theorem not_full_of_back {st : ConsoleState} (hReady : Ready st) (h : ¬ st.stuck) :
    ¬ (bkspMove st).full := by
  have hBack := bkspMove_back hReady h
  have hCursor := hReady.cursor_lt
  rw [hReady.bkspMove.full_iff]
  omega

/-! ## Characters -/

/-- Every character of a key is a printable one. -/
theorem decodeKey_char {mod : KbdModState} {raw c : Byte}
    (h : decodeKey mod raw = (.printable, c)) : 0x20 ≤ c ∧ c ≤ 0x7E := by
  have hTable : ∀ (sft capslock : Bool) (raw : Byte),
      (decodeKey ⟨false, false, sft, capslock⟩ raw).1 = .printable →
        0x20 ≤ (decodeKey ⟨false, false, sft, capslock⟩ raw).2 ∧
          (decodeKey ⟨false, false, sft, capslock⟩ raw).2 ≤ 0x7E := by
    decide +kernel
  have hSame : decodeKey ⟨false, false, mod.sft, mod.capslock⟩ raw = (.printable, c) := h
  have hChar := hTable mod.sft mod.capslock raw
  rw [hSame] at hChar
  exact hChar rfl

/-! ## Echoes -/

/-- The echoes of a string. -/
def echoAll (str : List Byte) (s : Terminal) : Terminal :=
  str.foldl (fun s c => consoleEcho c s) s

theorem Echoed.echoAll {s : Terminal} (str : List Byte) :
    ∀ {s' : Terminal}, Echoed s s' → Echoed s (echoAll str s') := by
  induction str with
  | nil => intro s' h; exact h
  | cons c str ih => intro s' h; exact ih (h.consoleEcho c)

/-- The cursor after the echoes of a string. -/
theorem echoAll_constate (str : List Byte) : ∀ {s : Terminal}, Sane s →
    (echoAll str s).constate s.currentConsole =
      str.foldl ConsoleState.after (s.constate s.currentConsole) := by
  induction str with
  | nil => intro s _; rfl
  | cons c str ih =>
      intro s h
      have hEcho := h.echoed.consoleEcho c
      have hRest := ih hEcho.sane
      rw [hEcho.displayed, consoleEcho_eq h, output_constate] at hRest
      rw [List.foldl_cons, ← hRest, ← consoleEcho_eq h]
      rfl

theorem Sane.autoinc {s : Terminal} (h : Sane s) (t : ConIdx) :
    s.setConstate t { s.constate t with vcurAutoincEn := true } = s := by
  have hSame : { s.constate t with vcurAutoincEn := true } = s.constate t := by
    rw [← (h.ready t).autoinc]
  rw [hSame, setConstate_eq_put, put_self]

private theorem echoChar_eq (alt : Bool) (c : Byte) (s : Terminal) :
    echoChar alt c s =
      echoAll ((if alt || c = escape then [0x5B] else []) ++
        if c = escape then [] else [c]) s := by
  by_cases hEscape : c = escape
  · simp [echoChar, echoAll, hEscape]
  · cases alt with
    | true => simp [echoChar, echoAll, hEscape]
    | false => simp [echoChar, echoAll, hEscape]

/-- `ctrl` or `alt` with `l` clears the screen. -/
def KbdInput.clears (kbdin : KbdInput) : Prop :=
  (kbdin.mod.ctrl || kbdin.mod.alt) = true ∧
    (kbdin.charPressed = 0x6C ∨ kbdin.charPressed = 0x4C)

instance (kbdin : KbdInput) : Decidable kbdin.clears :=
  inferInstanceAs (Decidable (_ ∧ _))

private theorem upper_eq_L (c : Byte) :
    (if 0x61 ≤ c ∧ c ≤ 0x7A then c - 0x20 else c) = 0x4C ↔ c = 0x6C ∨ c = 0x4C := by
  split
  · bv_omega
  · bv_omega

/-- With `ctrl` or `alt` a key is at least two characters, or it clears. -/
theorem echoString_held (kbdin : KbdInput)
    (hHeld : (kbdin.mod.ctrl || kbdin.mod.alt) = true)
    (hChar : 0x20 ≤ kbdin.charPressed ∧ kbdin.charPressed ≤ 0x7E) :
    ∃ up, up ≠ newline ∧
      echoString kbdin =
        0x5E :: if kbdin.clears then []
          else (if kbdin.mod.alt then [0x5B] else []) ++ [up] := by
  refine ⟨if 0x61 ≤ kbdin.charPressed ∧ kbdin.charPressed ≤ 0x7A then
    kbdin.charPressed - 0x20 else kbdin.charPressed, ?_, ?_⟩
  · simp only [newline]
    split
    · bv_omega
    · bv_omega
  · unfold echoString KbdInput.clears
    simp only [hHeld, if_true, true_and]
    have hEscape : (if 0x61 ≤ kbdin.charPressed ∧ kbdin.charPressed ≤ 0x7A then
        kbdin.charPressed - 0x20 else kbdin.charPressed) ≠ escape := by
      simp only [escape]
      split
      · bv_omega
      · bv_omega
    simp only [hEscape, upper_eq_L, decide_false, Bool.or_false, if_false,
      List.singleton_append]

/-- None of them is a newline, and they are at least two if the key does not
clear the screen. -/
theorem echoString_held_chars (kbdin : KbdInput)
    (hHeld : (kbdin.mod.ctrl || kbdin.mod.alt) = true)
    (hChar : 0x20 ≤ kbdin.charPressed ∧ kbdin.charPressed ≤ 0x7E) :
    (∀ c ∈ echoString kbdin, c ≠ newline) ∧
      (kbdin.clears → echoString kbdin = [0x5E]) ∧
      (¬ kbdin.clears → 2 ≤ (echoString kbdin).length) := by
  obtain ⟨up, hUp, hEchoes⟩ := echoString_held kbdin hHeld hChar
  rw [hEchoes]
  refine ⟨?_, fun hClears => by rw [if_pos hClears], fun hNot => ?_⟩
  · intro c hc
    rcases List.mem_cons.1 hc with rfl | hc
    · decide
    · split at hc
      · exact absurd hc List.not_mem_nil
      · rcases List.mem_append.1 hc with hc | hc
        · split at hc
          · rw [List.mem_singleton.1 hc]
            decide
          · exact absurd hc List.not_mem_nil
        · rw [List.mem_singleton.1 hc]
          exact hUp
  · rw [if_neg hNot, List.length_cons, List.length_append, List.length_singleton]
    omega

/-- What `console_echokbd` does. -/
theorem consoleEchokbd_eq {s : Terminal} (h : Sane s) (kbdin : KbdInput) :
    consoleEchokbd kbdin s =
      if kbdin.clears then consoleClrsc (echoAll (echoString kbdin) s)
      else echoAll (echoString kbdin) s := by
  unfold consoleEchokbd echoString KbdInput.clears
  simp only [h.autoinc]
  by_cases hHeld : (kbdin.mod.ctrl || kbdin.mod.alt) = true
  · simp only [hHeld, if_true, true_and, upper_eq_L]
    split
    · rfl
    · rw [echoChar_eq, List.cons_append, List.nil_append]
      rfl
  · have hAlt : kbdin.mod.alt = false := by
      cases hAlt : kbdin.mod.alt
      · rfl
      · exact absurd (by simp [hAlt]) hHeld
    simp only [hHeld, if_false, Bool.false_eq_true, false_and, List.nil_append]
    rw [echoChar_eq]

/-! ## One key -/

@[simp] theorem setCurrentInput_constate (s : Terminal) (con c : ConIdx)
    (inp : BufferedInput) : (s.setCurrentInput con inp).constate c = s.constate c :=
  update_same s.vterms con Console.constate (by rfl) c

private theorem setCurrentInput_setCurrentInput (s : Terminal) (con : ConIdx)
    (inp inp' : BufferedInput) :
    (s.setCurrentInput con inp).setCurrentInput con inp' = s.setCurrentInput con inp' := by
  simp [Terminal.setCurrentInput]

section Press

variable {k : Keystroke} {s : LineState} {c : Byte}

/-- A key that the handler stores for: the console echoed to, its input, and the
memory. -/
structure Pressed (k : Keystroke) (s : LineState) (term : Terminal)
    (store : List Store × BufferedInput) : Prop where
  displayed : (pressKey k s).input.term.currentConsole = s.input.term.currentConsole
  constate : (pressKey k s).constate = term.constate s.input.term.currentConsole
  video : (pressKey k s).input.term.video = term.video
  inp : (pressKey k s).inp = store.2
  mem : (pressKey k s).mem = store.1.foldl Store.apply s.mem
  sane : Sane (pressKey k s).input.term
  handler : (pressKey k s).input.handler = none

private theorem pressed_of_handler {term : Terminal} (handler : Handler)
    (hTerm : Echoed s.input.term term)
    (hEcho : inputhandlerEcho k.raw
        { s.input with kbd := { s.input.kbd with mod := k.mod } } =
      { s.input with
        term := term, kbd := ⟨k.mod, k.key.2⟩, handler := some handler }) :
    Pressed k s term handler.store := by
  have hInput : (pressKey k s).input =
      { s.input with
        term := term.setCurrentInput term.currentConsole handler.store.2
        kbd := ⟨k.mod, k.key.2⟩, handler := none } := by
    simp only [pressKey, hEcho, inputhandlerFinish]
  have hDisplayed : (pressKey k s).input.term.currentConsole =
      s.input.term.currentConsole := by
    rw [hInput]
    exact hTerm.displayed
  exact
    { displayed := hDisplayed
      constate := by
        rw [LineState.constate, hDisplayed, hInput]
        exact setCurrentInput_constate _ _ _ _
      video := by rw [hInput]; rfl
      inp := by
        rw [LineState.inp, hDisplayed, hInput, ← hTerm.displayed]
        simp only [setCurrentInput_currentInput, if_true]
      mem := by simp only [pressKey, hEcho, InputEvent.stores]
      sane := by
        rw [hInput]
        exact hTerm.sane.setCurrentInput _ _
      handler := by rw [hInput] }

private theorem pressed_printable (h : Sane s.input.term) (hKey : k.key = (.printable, c)) :
    Pressed k s (consoleEchokbd ⟨k.mod, c⟩ s.input.term) (storePrintable s.inp c) := by
  have hChar : c ≠ 0 := by
    have hRange := decodeKey_char hKey
    bv_omega
  have hDecode : decodeKey k.mod k.raw = (.printable, c) := hKey
  refine pressed_of_handler ⟨.printable, c, s.inp⟩
    (h.echoed.consoleEchokbd _) ?_
  simp only [inputhandlerEcho, hDecode, hKey, if_neg hChar]
  rfl

private theorem pressed_bksp (h : Sane s.input.term) (hKey : k.key.1 = .bksp) :
    Pressed k s (consoleBksp s.input.term)
      ([], if !s.inp.complete && s.inp.next > 0 then
        { s.inp with next := s.inp.next - 1 } else s.inp) := by
  have hDecode : (decodeKey k.mod k.raw).1 = .bksp := hKey
  refine pressed_of_handler ⟨.bksp, k.key.2, s.inp⟩
    h.echoed.consoleBksp ?_
  simp only [inputhandlerEcho, hDecode]
  rfl

end Press

/-! ## Cells up to the cursor -/

/-- The character at the cursor, and what is in front of it, move up together. -/
theorem output_video_behind {s : Terminal} (h : Sane s) {c : Byte} (hChar : c ≠ newline)
    {j : Nat}
    (hj : j + numCols * (if (s.constate s.currentConsole).scrollsOn c then 1 else 0) ≤
      (s.constate s.currentConsole).cursor) :
    (s.output s.currentConsole c).video j =
      if j + numCols * (if (s.constate s.currentConsole).scrollsOn c then 1 else 0) =
          (s.constate s.currentConsole).cursor
        then (s.constate s.currentConsole).styled c
      else s.video
        (j + numCols * if (s.constate s.currentConsole).scrollsOn c then 1 else 0) := by
  have hCursor := (h.ready s.currentConsole).cursor_lt
  have hStored : (s.stored s.currentConsole c).video =
      Function.update s.video (s.constate s.currentConsole).cursor
        ((s.constate s.currentConsole).styled c) := by
    rw [Terminal.stored, if_neg hChar, put_video, if_pos rfl]
  have hCell : ∀ i, Function.update s.video (s.constate s.currentConsole).cursor
      ((s.constate s.currentConsole).styled c) i =
        if i = (s.constate s.currentConsole).cursor then
          (s.constate s.currentConsole).styled c else s.video i := by
    intro i
    rw [Function.update_apply]
  rw [output_video]
  by_cases hScrolls : (s.constate s.currentConsole).scrollsOn c
  · rw [if_pos hScrolls] at hj ⊢
    have hRow : ¬ (lastRow ≤ j ∧ j < lastRow + numCols) := by
      simp only [lastRow, numRows, numCols] at *
      omega
    have hLow : j < lastRow := by
      simp only [lastRow, numRows, numCols] at *
      omega
    rw [if_pos ⟨hScrolls, rfl⟩, Terminal.rolledScreen, filled, if_neg hRow, if_pos hLow,
      hStored, Nat.mul_one, hCell]
  · rw [if_neg hScrolls] at hj ⊢
    rw [if_neg fun hBoth => hScrolls hBoth.1, hStored, Nat.mul_zero, Nat.add_zero, hCell]

/-- The screen after a backspace, up to the cursor. -/
theorem bksp_video {s : Terminal} (h : Sane s) {j : Nat}
    (hFull : ¬ (bkspMove (s.constate s.currentConsole)).full)
    (hj : j < (bkspMove (s.constate s.currentConsole)).cursor) :
    (consoleBksp s).video j = s.video j := by
  have hScrolls : ¬ (s.backed.constate s.currentConsole).scrollsOn space := by
    rw [backed_constate]
    exact hFull
  have hCursor : j ≠ (s.backed.constate s.currentConsole).cursor := by
    rw [backed_constate]
    omega
  rw [consoleBksp_eq h]
  exact output_video_of_ne s.backed s.currentConsole space hScrolls hCursor

private theorem bksp_constate {s : Terminal} (h : Sane s) :
    (consoleBksp s).constate s.currentConsole =
      bkspMove (s.constate s.currentConsole) := by
  rw [consoleBksp_eq h, setConstate_eq_put, put_constate]

/-! ## One key in a line -/

/-- A read that waits, with screen and buffer together. -/
structure Pending (s : LineState) : Prop where
  sane : Sane s.input.term
  complete : s.inp.complete = false
  room : s.inp.next.toNat ≤ (s.inp.bufferLength - 2).toNat
  agrees : s.Agrees

private theorem bksp_scrolls (k : Keystroke) (st : ConsoleState) (hKey : k.key.1 = .bksp) :
    k.scrolls st = if (bkspMove st).full then 1 else 0 := by
  simp only [Keystroke.scrolls, hKey, CompE.Vterm.scrolls, Nat.add_zero]
  rfl

namespace Pending

variable {k : Keystroke} {s : LineState} {c : Byte} (h : Pending s)

include h

theorem ready : Ready s.constate := h.sane.ready _

private theorem store_printable (hRoom : s.inp.next ≠ s.inp.bufferLength - 2) (c : Byte) :
    storePrintable s.inp c =
      ([⟨s.inp.buffer, s.inp.next, c⟩], { s.inp with next := s.inp.next + 1 }) := by
  unfold storePrintable
  rw [if_neg (Bool.eq_false_iff.1 h.complete), if_neg hRoom]

theorem next_succ (hRoom : s.inp.next ≠ s.inp.bufferLength - 2) :
    (s.inp.next + 1).toNat = s.inp.next.toNat + 1 ∧
      s.inp.next.toNat + 1 ≤ (s.inp.bufferLength - 2).toNat := by
  have hLe := h.room
  have hNe : s.inp.next.toNat ≠ (s.inp.bufferLength - 2).toNat := fun hEq =>
    hRoom (BitVec.eq_of_toNat_eq hEq)
  have hSmall := (s.inp.bufferLength - 2).isLt
  exact ⟨toNat_add_one (by omega), by omega⟩

omit h in
private theorem echoString_plain (hKey : k.key = (.printable, c))
    (hPlain : k.mod.ctrl = false ∧ k.mod.alt = false) :
    echoString ⟨k.mod, c⟩ = [c] := by
  have hRange := decodeKey_char hKey
  have hEscape : c ≠ escape := by simp only [escape]; bv_omega
  simp [echoString, hPlain.1, hPlain.2, hEscape]

private theorem pressed_plain (hKey : k.key = (.printable, c))
    (hRoom : s.inp.next ≠ s.inp.bufferLength - 2)
    (hPlain : k.mod.ctrl = false ∧ k.mod.alt = false) :
    Pressed k s (s.input.term.output s.input.term.currentConsole c)
      ([⟨s.inp.buffer, s.inp.next, c⟩], { s.inp with next := s.inp.next + 1 }) := by
  have hString := echoString_plain hKey hPlain
  have hClears : ¬ KbdInput.clears ⟨k.mod, c⟩ := by
    simp [KbdInput.clears, hPlain.1, hPlain.2]
  have hTerm : consoleEchokbd ⟨k.mod, c⟩ s.input.term =
      s.input.term.output s.input.term.currentConsole c := by
    rw [consoleEchokbd_eq h.sane, if_neg hClears, hString, ← consoleEcho_eq h.sane]
    rfl
  have hPressed := pressed_printable h.sane hKey
  rw [hTerm, h.store_printable hRoom] at hPressed
  exact hPressed

/-- A character as it is. -/
theorem printable (hKey : k.key = (.printable, c))
    (hRoom : s.inp.next ≠ s.inp.bufferLength - 2)
    (hPlain : k.mod.ctrl = false ∧ k.mod.alt = false) : Pending (pressKey k s) := by
  obtain ⟨hLow, hHigh⟩ := decodeKey_char hKey
  have hNewline : c ≠ newline := by simp only [newline]; bv_omega
  have hString := echoString_plain hKey hPlain
  have hPressed := h.pressed_plain hKey hRoom hPlain
  obtain ⟨hNext, hFits⟩ := h.next_succ hRoom
  have hState : (pressKey k s).constate = s.constate.after c := by
    rw [hPressed.constate, output_constate]
    rfl
  have hStart : (pressKey k s).start =
      s.start - (numCols * (if s.constate.scrollsOn c then 1 else 0) : Nat) := by
    simp only [pressKey, Keystroke.scrolls, hKey, hString, CompE.Vterm.scrolls,
      Nat.add_zero]
  have hCursor := h.ready.cursor_after hNewline
  have hAgrees := h.agrees.cursor
  have hMem : (pressKey k s).mem =
      Function.update s.mem (s.inp.buffer + s.inp.next) c := hPressed.mem
  refine ⟨hPressed.sane, ?_, ?_, ⟨?_, ?_⟩⟩
  · rw [hPressed.inp]
    exact h.complete
  · rw [hPressed.inp]
    simp only [hNext]
    exact hFits
  · rw [hState, hStart, hPressed.inp]
    simp only [hNext]
    omega
  · intro i j hi hj
    rw [hPressed.inp] at hi ⊢
    simp only [hNext] at hi
    rw [hStart] at hj
    generalize hShift : numCols * (if s.constate.scrollsOn c then 1 else 0) = shift at *
    have hBehind : j + shift ≤ s.constate.cursor := by omega
    rw [hPressed.video]
    have hVideo := output_video_behind h.sane hNewline (j := j)
    rw [show s.input.term.constate s.input.term.currentConsole = s.constate from rfl,
      hShift] at hVideo
    rw [hVideo hBehind, hMem]
    have hPlace : s.inp.next = BitVec.ofNat 32 s.inp.next.toNat := by simp
    by_cases hLast : i = s.inp.next.toNat
    · rw [if_pos (by omega), hLast, ← hPlace, Function.update_self]
      rfl
    · have hNe := place_ne s.inp.buffer (i := i) (j := s.inp.next.toNat) (by omega)
        s.inp.next.isLt hLast
      rw [← hPlace] at hNe
      rw [if_neg (by omega), Function.update_of_ne hNe]
      exact h.agrees.cells i _ (by omega) (by omega)

/-- Where a backspace leaves the cursor and the line. -/
theorem bksp_state (hKey : k.key.1 = .bksp) :
    (pressKey k s).constate = bkspMove s.constate ∧
      (pressKey k s).inp.complete = false ∧
      (pressKey k s).inp.next.toNat = s.inp.next.toNat - 1 ∧
      (pressKey k s).inp.buffer = s.inp.buffer ∧
      (pressKey k s).inp.bufferLength = s.inp.bufferLength ∧
      (pressKey k s).mem = s.mem ∧
      (pressKey k s).input.term.video = (consoleBksp s.input.term).video ∧
      (pressKey k s).start = s.start -
        (numCols * (if (bkspMove s.constate).full then 1 else 0) : Nat) := by
  have hPressed := pressed_bksp h.sane hKey
  have hState : (pressKey k s).constate = bkspMove s.constate := by
    rw [hPressed.constate, bksp_constate h.sane]
    rfl
  have hStart : (pressKey k s).start = s.start -
      (numCols * (if (bkspMove s.constate).full then 1 else 0) : Nat) := by
    rw [← bksp_scrolls k s.constate hKey]
    rfl
  have hComplete := h.complete
  refine ⟨hState, ?_, ?_, ?_, ?_, hPressed.mem, hPressed.video, hStart⟩
  all_goals rw [hPressed.inp, h.complete]
  · split
    · exact hComplete
    · exact hComplete
  · by_cases hSome : s.inp.next > 0
    · rw [if_pos (by simpa using hSome)]
      bv_omega
    · rw [if_neg (by simpa using hSome)]
      bv_omega
  · split
    · rfl
    · rfl
  · split
    · rfl
    · rfl

/-- A backspace that takes a character, or none from an empty line. -/
theorem bksp (hKey : k.key.1 = .bksp)
    (hKeeps : if s.inp.next = 0 then s.constate.stuck ∧ ¬ s.constate.full
      else ¬ s.constate.stuck) :
    Pending (pressKey k s) ∧ Behind k s := by
  obtain ⟨hState, hComplete, hNext, hBuffer, hLength, hMem, hVideo, hStart⟩ :=
    h.bksp_state hKey
  have hAgrees := h.agrees.cursor
  have hRoom := h.room
  have hMove : ¬ (bkspMove s.constate).full ∧
      ((bkspMove s.constate).cursor : Int) = s.start + (s.inp.next.toNat - 1 : Nat) := by
    by_cases hEmpty : s.inp.next = 0
    · rw [if_pos hEmpty] at hKeeps
      rw [bkspMove_stuck hKeeps.1, hEmpty]
      rw [hEmpty] at hAgrees
      exact ⟨hKeeps.2, hAgrees⟩
    · rw [if_neg hEmpty] at hKeeps
      have hBack := bkspMove_back h.ready hKeeps
      have hSome : s.inp.next.toNat ≠ 0 := fun hZero =>
        hEmpty (BitVec.eq_of_toNat_eq hZero)
      exact ⟨not_full_of_back h.ready hKeeps, by omega⟩
  obtain ⟨hFull, hCursor⟩ := hMove
  rw [if_neg hFull, Nat.mul_zero, Int.natCast_zero, Int.sub_zero] at hStart
  have hCells : ∀ j : Nat, j < (bkspMove s.constate).cursor →
      (pressKey k s).input.term.video j = s.input.term.video j := by
    intro j hj
    rw [hVideo]
    exact bksp_video h.sane hFull hj
  have hSane := (pressed_bksp h.sane hKey).sane
  refine ⟨⟨hSane, hComplete, ?_, ⟨?_, ?_⟩⟩, ⟨?_, ?_⟩⟩
  · rw [hNext, hLength]
    omega
  · rw [hState, hStart, hNext]
    exact hCursor
  · intro i j hi hj
    rw [hNext] at hi
    rw [hStart] at hj
    rw [hCells j (by omega), hMem, hBuffer]
    exact h.agrees.cells i j (by omega) hj
  · rw [hState, hStart, hCursor]
    omega
  · intro i hi
    rw [hStart] at hi
    rw [bksp_scrolls k s.constate hKey, if_neg hFull, Nat.mul_zero, Nat.add_zero]
    exact hCells i (by omega)

/-- Any other backspace takes the cursor away from the line. -/
theorem bksp_only (hKey : k.key.1 = .bksp) (hAgrees : (pressKey k s).Agrees) :
    if s.inp.next = 0 then s.constate.stuck ∧ ¬ s.constate.full
    else ¬ s.constate.stuck := by
  obtain ⟨hState, _, hNext, _, _, _, _, hStart⟩ := h.bksp_state hKey
  have hCursor := hAgrees.cursor
  have hBefore := h.agrees.cursor
  rw [hState, hStart, hNext] at hCursor
  by_cases hStuck : s.constate.stuck
  · rw [bkspMove_stuck hStuck] at hCursor
    have hEmpty : s.inp.next.toNat = 0 ∧ ¬ s.constate.full := by
      by_cases hFull : s.constate.full
      · rw [if_pos hFull] at hCursor
        simp only [numCols] at hCursor
        omega
      · rw [if_neg hFull] at hCursor
        exact ⟨by omega, hFull⟩
    have hZero : s.inp.next = 0 := BitVec.eq_of_toNat_eq hEmpty.1
    rw [if_pos hZero]
    exact ⟨hStuck, hEmpty.2⟩
  · have hBack := bkspMove_back h.ready hStuck
    rw [if_neg (not_full_of_back h.ready hStuck)] at hCursor
    have hSome : s.inp.next ≠ 0 := by
      intro hZero
      have hNat : s.inp.next.toNat = 0 := by rw [hZero]; rfl
      omega
    rw [if_neg hSome]
    exact hStuck

/-- With `ctrl` or `alt` the cursor moves on by more than one cell. -/
theorem printable_only (hKey : k.key = (.printable, c))
    (hRoom : s.inp.next ≠ s.inp.bufferLength - 2) (hAgrees : (pressKey k s).Agrees) :
    k.mod.ctrl = false ∧ k.mod.alt = false := by
  apply Decidable.byContradiction
  intro hHeld
  have hMod : (k.mod.ctrl || k.mod.alt) = true := by
    cases hCtrl : k.mod.ctrl
    · cases hAlt : k.mod.alt
      · exact absurd ⟨hCtrl, hAlt⟩ hHeld
      · rfl
    · rfl
  have hPressed := pressed_printable h.sane hKey
  rw [h.store_printable hRoom] at hPressed
  have hCursor := hAgrees.cursor
  have hBefore := h.agrees.cursor
  have hBound := h.ready.cursor_lt
  have hStart : (pressKey k s).start = s.start -
      (numCols * scrolls s.constate (echoString ⟨k.mod, c⟩) : Nat) := by
    simp only [pressKey, Keystroke.scrolls, hKey]
  rw [hPressed.inp, hStart, hPressed.constate, consoleEchokbd_eq h.sane] at hCursor
  simp only [(h.next_succ hRoom).1] at hCursor
  obtain ⟨hChars, hCaret, hMany⟩ := echoString_held_chars ⟨k.mod, c⟩ hMod
    (decodeKey_char hKey)
  have hString := cursor_scrolls _ h.ready hChars
  by_cases hClears : KbdInput.clears ⟨k.mod, c⟩
  · have hDisplayed : (echoAll (echoString ⟨k.mod, c⟩) s.input.term).currentConsole =
        s.input.term.currentConsole :=
      (h.sane.echoed.echoAll _).displayed
    rw [if_pos hClears, consoleClrsc_eq, hDisplayed, put_constate] at hCursor
    rw [hCaret hClears] at hCursor hString
    have hScrolls : s.constate.scrollsOn 0x5E ↔
        s.constate.cursor + 1 = numRows * numCols := by
      rw [← h.ready.full_iff, ConsoleState.scrollsOn, if_neg (by decide)]
    have hHome : (0 : Int) = s.start -
        (numCols * (if s.constate.scrollsOn 0x5E then 1 else 0) : Nat) +
          (s.inp.next.toNat + 1 : Nat) := hCursor
    by_cases hYes : s.constate.scrollsOn 0x5E
    · have hEnd := hScrolls.1 hYes
      rw [if_pos hYes] at hHome
      simp only [numRows, numCols] at hEnd hHome
      omega
    · rw [if_neg hYes] at hHome
      omega
  · have hLong := hMany hClears
    rw [if_neg hClears, echoAll_constate _ h.sane] at hCursor
    rw [show s.input.term.constate s.input.term.currentConsole = s.constate from rfl]
      at hCursor
    omega

end Pending

/-! ## The cursor and the input of a line -/

/-- What a key does to them. -/
def Keystroke.moves (k : Keystroke) (st : ConsoleState) (inp : BufferedInput) :
    ConsoleState × BufferedInput :=
  match k.key.1 with
  | .printable => (st.after k.key.2, { inp with next := inp.next + 1 })
  | .bksp => (bkspMove st, if inp.next > 0 then { inp with next := inp.next - 1 } else inp)
  | .enter | .capslock | .other => (st, inp)

/-- Whether the keys edit a line and keep screen and buffer together. -/
def keepsLine : List Keystroke → ConsoleState → BufferedInput → Bool
  | [], _, _ => true
  | k :: ks, st, inp =>
      (match k.key.1 with
        | .printable => inp.next != inp.bufferLength - 2 && !k.mod.ctrl && !k.mod.alt
        | .bksp =>
            if inp.next = 0 then decide st.stuck && !decide st.full
            else !decide st.stuck
        | .enter | .capslock | .other => false) &&
        keepsLine ks (k.moves st inp).1 (k.moves st inp).2

theorem Pending.moves {s : LineState} (h : Pending s) {k : Keystroke} (hEdits : k.edits s)
    (hKeeps : k.Keeps s) :
    ((pressKey k s).constate, (pressKey k s).inp) = k.moves s.constate s.inp := by
  unfold Keystroke.Keeps at hKeeps
  unfold Keystroke.moves
  rcases hEdits with ⟨hKey, hRoom⟩ | hKey
  · rw [hKey] at hKeeps ⊢
    have hPressed := h.pressed_plain (c := k.key.2) (by rw [← hKey]) hRoom hKeeps
    rw [hPressed.constate, hPressed.inp, output_constate]
    rfl
  · rw [hKey]
    have hPressed := pressed_bksp h.sane hKey
    rw [(h.bksp_state hKey).1, hPressed.inp]
    simp only [h.complete, Bool.not_false, Bool.true_and, decide_eq_true_eq]

/-! ## Runs -/

/-- The step lemma. -/
theorem Pending.step {s : LineState} (h : Pending s) {k : Keystroke} (hEdits : k.edits s)
    (hKeeps : k.Keeps s) : EchoKept s k ∧ Pending (pressKey k s) := by
  unfold Keystroke.Keeps at hKeeps
  rcases hEdits with ⟨hKey, hRoom⟩ | hKey
  · rw [hKey] at hKeeps
    have hNext := h.printable (c := k.key.2) (by rw [← hKey]) hRoom hKeeps
    exact ⟨⟨hNext.agrees, fun hBack => by rw [hKey] at hBack; cases hBack⟩, hNext⟩
  · rw [hKey] at hKeeps
    obtain ⟨hNext, hBehind⟩ := h.bksp hKey hKeeps
    exact ⟨⟨hNext.agrees, fun _ => hBehind⟩, hNext⟩

/-- `keepsLine` finds out before a line is typed. -/
theorem Pending.keepsLine (ks : List Keystroke) : ∀ {s : LineState}, Pending s →
    keepsLine ks s.constate s.inp = true →
      lineEcho.Legal s ks ∧ lineEcho.Always (fun s k => k.Keeps s) s ks := by
  induction ks with
  | nil => exact fun _ _ => ⟨trivial, trivial⟩
  | cons k ks ih =>
      intro s h hKeys
      rw [CompE.Vterm.keepsLine, Bool.and_eq_true] at hKeys
      obtain ⟨hHere, hRest⟩ := hKeys
      have hKey : k.edits s ∧ k.Keeps s := by
        unfold Keystroke.edits Keystroke.Keeps
        cases hKind : k.key.1 with
        | printable => simpa [hKind, and_assoc] using hHere
        | bksp =>
            rw [hKind] at hHere
            refine ⟨Or.inr rfl, ?_⟩
            by_cases hEmpty : s.inp.next = 0
            · simpa [hEmpty] using hHere
            · simpa [hEmpty] using hHere
        | enter | capslock | other =>
            rw [hKind] at hHere
            cases hHere
      have hMoves := h.moves hKey.1 hKey.2
      rw [← hMoves] at hRest
      obtain ⟨hLegal, hKeeps⟩ := ih (h.step hKey.1 hKey.2).2 hRest
      exact ⟨⟨hKey.1, hLegal⟩, hKey.2, hKeeps⟩

/-- No other key keeps screen and buffer together. -/
theorem Pending.only {s : LineState} (h : Pending s) {k : Keystroke} (hEdits : k.edits s)
    (hKept : EchoKept s k) : k.Keeps s := by
  unfold Keystroke.Keeps
  rcases hEdits with ⟨hKey, hRoom⟩ | hKey
  · rw [hKey]
    exact h.printable_only (c := k.key.2) (by rw [← hKey]) hRoom hKept.agrees
  · rw [hKey]
    exact h.bksp_only hKey hKept.agrees

/-- The run lemma. -/
theorem Pending.always_iff {s : LineState} (h : Pending s) {ks : List Keystroke}
    (hLegal : lineEcho.Legal s ks) :
    lineEcho.Always EchoKept s ks ↔ lineEcho.Always (fun s k => k.Keeps s) s ks :=
  lineEcho.always_iff_of_invariant (I := Pending)
    (fun _ _ hPending hEdits hKeeps => hPending.step hEdits hKeeps)
    (fun _ _ hPending hEdits hKept => hPending.only hEdits hKept) ks s h hLegal

section Begin

variable {s : InputState} {con : ConIdx} {kbuf n : BitVec 32}

/-- What the start of a read changes. -/
theorem beginRead_eq (hFree : s.reads con = none)
    (hKbuf : kbuf ≠ 0) (hSome : n ≠ 0) :
    beginRead con kbuf n s =
      { s with
        term := (s.term.setCurrentInput con ⟨n, kbuf, 0, false⟩).setBkspstop con
          (BitVec.ofNat 8 (s.term.constate con).vcurX)
        reads := Function.update s.reads con (some ⟨kbuf, n, .bkspstop⟩) } := by
  have hCall : (InputEvent.readline con kbuf n).possible s := hFree
  have hAdvance : ∀ s, (InputEvent.advance con).possible s := fun _ => trivial
  simp only [beginRead, Machine.run, lineInput, if_pos hCall, if_pos (hAdvance _),
    InputEvent.run, consoleReadline, if_neg hKbuf, if_neg hSome]
  simp only [readAdvance, InputState.filled, Function.update_self, Function.update_idem,
    setCurrentInput_currentInput, if_true, setCurrentInput_constate,
    setCurrentInput_setCurrentInput]

variable (hSane : Sane s.term) (hDisplayed : s.term.currentConsole = con)
  (hFree : s.reads con = none) (hKbuf : kbuf ≠ 0) (hSome : n ≠ 0)

include hDisplayed hFree hKbuf hSome

variable (kbuf n)

/-- The cursor is where it was, and `next` is zero. -/
theorem begin_state (mem : Memory) :
    (LineState.begin con kbuf n mem s).constate =
        { s.term.constate con with
          conBkspstopCol := BitVec.ofNat 8 (s.term.constate con).vcurX } ∧
      (LineState.begin con kbuf n mem s).inp = ⟨n, kbuf, 0, false⟩ := by
  subst hDisplayed
  simp only [LineState.begin, LineState.constate, LineState.inp,
    beginRead_eq hFree hKbuf hSome]
  constructor
  · simp [Terminal.setBkspstop, Terminal.setConstate, Terminal.setCurrentInput,
      Terminal.constate]
  · simp [Terminal.setBkspstop, Terminal.setConstate, Terminal.setCurrentInput,
      Terminal.currentInput]

include hSane

theorem Pending.begin (mem : Memory) : Pending (LineState.begin con kbuf n mem s) := by
  obtain ⟨hState, hInp⟩ := begin_state kbuf n hDisplayed hFree hKbuf hSome mem
  refine ⟨?_, ?_, ?_, ⟨?_, ?_⟩⟩
  · simp only [LineState.begin, beginRead_eq hFree hKbuf hSome]
    have hFilled := hSane.setCurrentInput con ⟨n, kbuf, 0, false⟩
    exact hFilled.setConstate con { hFilled.ready con with }
  · rw [hInp]
  · rw [hInp]
    exact Nat.zero_le _
  · rw [hState, hInp]
    simp only [LineState.begin, ConsoleState.cursor]
    rfl
  · intro i j hi _
    rw [hInp] at hi
    exact absurd hi (Nat.not_lt_zero i)

end Begin

/-- From the start of any read, every key leaves the line on the screen as it is
in the buffer, and no backspace touches what is in front of it, if and only if
all keys are of those that `Keystroke.Keeps` names. -/
theorem echo_agrees_iff {s : InputState} {con : ConIdx} {kbuf n : BitVec 32}
    (hSane : Sane s.term) (hDisplayed : s.term.currentConsole = con)
    (hFree : s.reads con = none) (hKbuf : kbuf ≠ 0) (hSome : n ≠ 0) (mem : Memory)
    (ks : List Keystroke) (hEdits : lineEcho.Legal (.begin con kbuf n mem s) ks) :
    lineEcho.Always EchoKept (.begin con kbuf n mem s) ks ↔
      lineEcho.Always (fun s k => k.Keeps s) (.begin con kbuf n mem s) ks :=
  (Pending.begin kbuf n hSane hDisplayed hFree hKbuf hSome mem).always_iff hEdits

section Boot

variable (video : Nat → VgaChar) (padding : ConIdx → Nat → Byte)
  (behind : Nat → Byte) (mem : Memory)

private theorem boot_displayed : (bootInput video padding behind).term.currentConsole = 0 :=
  (booted video padding behind).displayed

private theorem boot_constate :
    (bootInput video padding behind).term.constate 0 = { newConstate with vcurY := 1 } :=
  (booted video padding behind).state

private theorem boot_sane : Sane (bootInput video padding behind).term :=
  sane_boot video padding behind

private theorem boot_begin :
    (LineState.begin 0 0x1000 128 mem (bootInput video padding behind)).constate =
        { newConstate with vcurY := 1 } ∧
      (LineState.begin 0 0x1000 128 mem (bootInput video padding behind)).inp =
        ⟨128, 0x1000, 0, false⟩ := by
  obtain ⟨hState, hInp⟩ := begin_state 0x1000 128
    (boot_displayed video padding behind) rfl (by decide) (by decide) mem
  rw [boot_constate] at hState
  exact ⟨hState, hInp⟩

/-- A backspace on the empty line of a read that begins at the start of the second
row goes up into the first. -/
theorem boot_backs_up :
    ¬ lineEcho.Always EchoKept
      (.begin 0 0x1000 128 mem (bootInput video padding behind))
      [⟨⟨false, false, false, false⟩, 0x08⟩] := by
  intro hAlways
  obtain ⟨hState, hInp⟩ := boot_begin video padding behind mem
  have hPending := Pending.begin 0x1000 128
    (boot_sane video padding behind) (boot_displayed video padding behind) rfl
    (by decide) (by decide) mem
  have hBksp : (Keystroke.key ⟨⟨false, false, false, false⟩, 0x08⟩).1 = .bksp := by
    decide
  generalize LineState.begin 0 0x1000 128 mem (bootInput video padding behind) = s at *
  have hKeeps := hPending.only (Or.inr hBksp) hAlways.1
  simp only [Keystroke.Keeps, hBksp, hInp, if_true, hState] at hKeeps
  revert hKeeps
  decide

end Boot

/-- From the second row of the screen on: two characters more than the row has,
four of them erased, back into the row, and another one. -/
def wrappedLine : List Keystroke :=
  List.replicate 82 ⟨⟨false, false, false, false⟩, 0x61⟩ ++
    List.replicate 4 ⟨⟨false, false, false, false⟩, 0x08⟩ ++
      [⟨⟨false, false, true, false⟩, 0x62⟩]

theorem echo_agrees_wrappedLine :
    lineEcho.Always EchoKept
      (.begin 0 0x1000 128 (fun _ => 0)
        (bootInput (fun _ => ⟨0, 0⟩) (fun _ _ => 0) fun _ => 0))
      wrappedLine := by
  obtain ⟨hState, hInp⟩ :=
    boot_begin (fun _ => ⟨0, 0⟩) (fun _ _ => 0) (fun _ => 0) fun _ => 0
  have hPending := Pending.begin 0x1000 128
    (boot_sane (fun _ => ⟨0, 0⟩) (fun _ _ => 0) fun _ => 0) (boot_displayed _ _ _) rfl
    (by decide) (by decide) fun _ => 0
  have hLine : keepsLine wrappedLine { newConstate with vcurY := 1 }
      ⟨128, 0x1000, 0, false⟩ = true := by
    decide +kernel
  rw [← hState, ← hInp] at hLine
  obtain ⟨hLegal, hKeeps⟩ := hPending.keepsLine wrappedLine hLine
  exact (echo_agrees_iff (boot_sane _ _ _) (boot_displayed _ _ _) rfl (by decide)
    (by decide) _ _ hLegal).2 hKeeps

theorem empty_line_backs_up :
    ¬ lineEcho.Always EchoKept
      (.begin 0 0x1000 128 (fun _ => 0)
        (bootInput (fun _ => ⟨0, 0⟩) (fun _ _ => 0) fun _ => 0))
      [⟨⟨false, false, false, false⟩, 0x08⟩] :=
  boot_backs_up _ _ _ _

end CompE.Vterm
