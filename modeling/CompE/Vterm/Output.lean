import CompE.Vterm.Screen

/-!
# What one output does

An output to console `t` changes the state and the buffer of `t`, and the
screen if `t` is displayed: the terminals are `s.put t ..` afterwards.  Every
function of the driver has one lemma that says so, and with what; for
`console_putchar` and `console_echo` it is `Terminal.output`.

The functions are as simple as that when the three modes of the console are
on, the cursor is on the screen, and `id` and `current` say which console is
displayed.  Between two operations this is always so: `Sane`.
-/

namespace CompE.Vterm

open CompE.Kernel (Byte)

/-! ## Consoles between two operations -/

/-- The modes of a console, and its cursor. -/
structure Ready (st : ConsoleState) : Prop where
  autoinc : st.vcurAutoincEn = true
  wrap : st.conWrap = true
  scroll : st.conScroll = true
  column : st.vcurX < numCols
  row : st.vcurY < numRows

/-- What holds between two operations. -/
structure Sane (s : Terminal) : Prop where
  present : ∀ c, (s.vterms c).present = true
  id : ∀ c, (s.vterms c).id = c.val
  current : ∀ c, (s.vterms c).current = decide (c = s.currentConsole)
  ready : ∀ c, Ready (s.constate c)

/-- What a new value at `t` does not change. -/
theorem update_same {β : Type} (vterms : ConIdx → Console) (t : ConIdx)
    {con : Console} (f : Console → β) (h : f con = f (vterms t)) (c : ConIdx) :
    f (Function.update vterms t con c) = f (vterms c) := by
  by_cases hc : c = t
  · subst hc
    rw [Function.update_self, h]
  · rw [Function.update_of_ne hc]

/-- What lies behind the buffer of `t` is not part of `t`. -/
theorem cellBehind_of_others (s s' : Terminal) {t : ConIdx}
    (hVterms : ∀ c, c ≠ t → s'.vterms c = s.vterms c)
    (hPadding : s'.padding = s.padding) (hBehind : s'.behind = s.behind)
    (j : Nat) : s'.cellBehind t j = s.cellBehind t j := by
  have hByte : ∀ j, s'.byteBehind t j = s.byteBehind t j := by
    intro j
    unfold Terminal.byteBehind
    rw [hPadding, hBehind]
    simp only
    split
    · rfl
    · split
      · rename_i h
        have hNe : (⟨t.val + 1, h⟩ : ConIdx) ≠ t := by
          intro hEq
          have hVal := congrArg Fin.val hEq
          simp only at hVal
          omega
        rw [hVterms _ hNe]
      · rfl
  simp only [Terminal.cellBehind, hByte]

/-! ## One console and the screen -/

/-- The terminals with another state and buffer of console `t` and another
screen. -/
def Terminal.put (s : Terminal) (t : ConIdx) (st : ConsoleState)
    (buf screen : Nat → VgaChar) : Terminal :=
  { s with
    vterms := Function.update s.vterms t
      { s.vterms t with constate := st, vidBuf := buf }
    video := screen }

section Put

variable (s : Terminal) (t : ConIdx) (st : ConsoleState)
  (buf screen : Nat → VgaChar)

@[simp] theorem put_currentConsole :
    (s.put t st buf screen).currentConsole = s.currentConsole := rfl

@[simp] theorem put_video : (s.put t st buf screen).video = screen := rfl

@[simp] theorem put_constate : (s.put t st buf screen).constate t = st := by
  simp [Terminal.put, Terminal.constate]

@[simp] theorem put_vidBuf :
    ((s.put t st buf screen).vterms t).vidBuf = buf := by
  simp [Terminal.put]

theorem put_vterms_of_ne {c : ConIdx} (h : c ≠ t) :
    (s.put t st buf screen).vterms c = s.vterms c := by
  simp [Terminal.put, h]

@[simp] theorem put_id (c : ConIdx) :
    ((s.put t st buf screen).vterms c).id = (s.vterms c).id :=
  update_same s.vterms t Console.id (by rfl) c

@[simp] theorem put_current (c : ConIdx) :
    ((s.put t st buf screen).vterms c).current = (s.vterms c).current :=
  update_same s.vterms t Console.current (by rfl) c

@[simp] theorem put_put (st' : ConsoleState) (buf' screen' : Nat → VgaChar) :
    (s.put t st buf screen).put t st' buf' screen' =
      s.put t st' buf' screen' := by
  simp [Terminal.put]

theorem put_self :
    s.put t (s.constate t) (s.vterms t).vidBuf s.video = s := by
  simp [Terminal.put, Terminal.constate]

@[simp] theorem put_setConstate (st' : ConsoleState) :
    (s.put t st buf screen).setConstate t st' = s.put t st' buf screen := by
  simp [Terminal.put, Terminal.setConstate]

theorem setConstate_eq_put (st' : ConsoleState) :
    s.setConstate t st' = s.put t st' (s.vterms t).vidBuf s.video := by
  simp [Terminal.put, Terminal.setConstate]

@[simp] theorem put_shown (con : ConIdx) (forceCurrent : Bool) :
    (s.put t st buf screen).shown con forceCurrent = s.shown con forceCurrent := by
  simp [Terminal.shown]

@[simp] theorem put_out (con : ConIdx) (forceCurrent : Bool) :
    (s.put t st buf screen).out con forceCurrent = s.out con forceCurrent := rfl

@[simp] theorem put_cellBehind (j : Nat) :
    (s.put t st buf screen).cellBehind t j = s.cellBehind t j :=
  cellBehind_of_others s (s.put t st buf screen)
    (fun _ h => put_vterms_of_ne s t st buf screen h) rfl rfl j

end Put

/-- Which outputs are shown. -/
theorem Sane.shown_iff {s : Terminal} (h : Sane s) (con : ConIdx)
    (forceCurrent : Bool) :
    s.shown con forceCurrent = decide (s.out con forceCurrent = s.currentConsole) := by
  unfold Terminal.shown Terminal.out
  cases forceCurrent with
  | true => simp
  | false =>
      rw [h.id, Bool.false_or]
      simp only [Bool.false_eq_true, if_false]
      by_cases hCon : con = s.currentConsole
      · simp [hCon]
      · have hVal : con.val ≠ s.currentConsole.val := fun hEq => hCon (Fin.ext hEq)
        simp [hCon, hVal]

/-! ## The cursor -/

/-- The cursor is in the last row. -/
def ConsoleState.atBottom (st : ConsoleState) : Prop :=
  st.vcurY + 1 ≥ numRows

instance (st : ConsoleState) : Decidable st.atBottom :=
  inferInstanceAs (Decidable (_ ≥ _))

/-- The cursor at the start of the next row, or of the last one. -/
def ConsoleState.nextRow (st : ConsoleState) : ConsoleState :=
  { st with
    vcurX := 0
    vcurY := if st.atBottom then numRows - 1 else st.vcurY + 1 }

/-- The cursor behind this character. -/
def ConsoleState.nextColumn (st : ConsoleState) : ConsoleState :=
  if st.vcurX + 1 < numCols then { st with vcurX := st.vcurX + 1 }
  else st.nextRow

/-- The cursor is on the last character of the screen. -/
def ConsoleState.full (st : ConsoleState) : Prop :=
  ¬ st.vcurX + 1 < numCols ∧ st.atBottom

instance (st : ConsoleState) : Decidable st.full :=
  inferInstanceAs (Decidable (_ ∧ _))

section Cursor

variable {α : Type} (scroll : α → α) {st : ConsoleState}

private theorem inccurStep_eq (a : α) (hWrap : st.conWrap = true) :
    inccurStep scroll (st, a) =
      (st.nextColumn, if st.full ∧ st.conScroll then scroll a else a) := by
  simp only [inccurStep, ConsoleState.nextColumn, ConsoleState.nextRow]
  by_cases hColumn : st.vcurX + 1 < numCols
  · have hFull : ¬ (st.full ∧ st.conScroll = true) := fun h => h.1.1 hColumn
    rw [if_neg (Nat.not_le.2 hColumn), if_pos hColumn, if_neg hFull]
  · rw [if_pos (Nat.not_lt.1 hColumn), if_neg hColumn]
    by_cases hBottom : st.vcurY + 1 ≥ numRows
    · have hFull : st.full := ⟨hColumn, hBottom⟩
      simp [hBottom, hWrap, hFull, ConsoleState.atBottom]
    · have hFull : ¬ (st.full ∧ st.conScroll = true) := fun h => hBottom h.1.2
      rw [if_neg hBottom, if_pos hWrap, if_neg hFull]
      simp [ConsoleState.atBottom, hBottom]

/-- Along a row. -/
theorem inccurStep_columns (a : α) (hWrap : st.conWrap = true) :
    ∀ m, st.vcurX + m < numCols →
      (inccurStep scroll)^[m] (st, a) =
        ({ st with vcurX := st.vcurX + m }, a) := by
  intro m
  induction m with
  | zero => intro _; rfl
  | succ m ih =>
      intro hm
      have hColumn : st.vcurX + m + 1 < numCols := by omega
      rw [Function.iterate_succ_apply', ih (by omega), inccurStep_eq]
      · rw [← Nat.add_assoc]
        simp [ConsoleState.nextColumn, ConsoleState.full, hColumn]
      · exact hWrap

/-- To the end of the row and beyond. -/
theorem inccurStep_linereturn (a : α) (hWrap : st.conWrap = true)
    (hColumn : st.vcurX < numCols) :
    (inccurStep scroll)^[ConInc.numChars .linereturn st] (st, a) =
      (st.nextRow, if st.atBottom ∧ st.conScroll then scroll a else a) := by
  have hRounds :
      ConInc.numChars .linereturn st = (numCols - st.vcurX - 1) + 1 := by
    simp only [ConInc.numChars]
    omega
  have hEnd : ¬ st.vcurX + (numCols - st.vcurX - 1) + 1 < numCols := by omega
  rw [hRounds, Function.iterate_succ_apply',
    inccurStep_columns scroll a hWrap _ (by omega), inccurStep_eq]
  · simp [ConsoleState.nextColumn, ConsoleState.nextRow, ConsoleState.full,
      ConsoleState.atBottom, hEnd]
  · exact hWrap

end Cursor

section Advance

variable {scroll : ConIdx → Bool → Terminal → Terminal} {con t : ConIdx}
  {forceCurrent : Bool} {s s' : Terminal}

private theorem inccurWith_char (hOut : s.out con forceCurrent = t)
    (hWrap : (s.constate t).conWrap = true)
    (hs' : (if (s.constate t).full ∧ (s.constate t).conScroll
      then scroll con forceCurrent s else s) = s') :
    inccurWith scroll .char con forceCurrent s =
      s'.setConstate (s'.out con forceCurrent) (s.constate t).nextColumn := by
  simp only [inccurWith, ConInc.numChars, Function.iterate_one, hOut]
  rw [inccurStep_eq _ _ hWrap, hs']

private theorem inccurWith_linereturn (hOut : s.out con forceCurrent = t)
    (hWrap : (s.constate t).conWrap = true)
    (hColumn : (s.constate t).vcurX < numCols)
    (hs' : (if (s.constate t).atBottom ∧ (s.constate t).conScroll
      then scroll con forceCurrent s else s) = s') :
    inccurWith scroll .linereturn con forceCurrent s =
      s'.setConstate (s'.out con forceCurrent) (s.constate t).nextRow := by
  simp only [inccurWith, hOut]
  rw [inccurStep_linereturn _ _ hWrap hColumn, hs']

end Advance

theorem Ready.nextRow {st : ConsoleState} (h : Ready st) : Ready st.nextRow where
  autoinc := h.autoinc
  wrap := h.wrap
  scroll := h.scroll
  column := show 0 < numCols by decide
  row := by
    show (if st.atBottom then numRows - 1 else st.vcurY + 1) < numRows
    by_cases hBottom : st.atBottom
    · rw [if_pos hBottom]
      decide
    · rw [if_neg hBottom]
      exact Nat.not_le.1 hBottom

theorem Ready.nextColumn {st : ConsoleState} (h : Ready st) :
    Ready st.nextColumn := by
  unfold ConsoleState.nextColumn
  split
  · exact { h with column := ‹_› }
  · exact h.nextRow

theorem Ready.modes {st : ConsoleState} (h : Ready st) :
    { st with vcurAutoincEn := true, conScroll := true } = st := by
  have hAutoinc := h.autoinc
  have hScroll := h.scroll
  cases st
  simp_all

/-! ## Storing a character -/

/-- A character of a console in the console's style. -/
def ConsoleState.styled (st : ConsoleState) (c : Byte) : VgaChar :=
  { codept := c, style := st.charstyle.style }

section Store

variable {s : Terminal} {t con : ConIdx} {forceCurrent : Bool}
  (st : ConsoleState) (buf screen : Nat → VgaChar)

theorem storeChar_put (c : Byte) (hOut : s.out con forceCurrent = t) :
    storeChar con forceCurrent c (s.put t st buf screen) =
      s.put t st (Function.update buf st.cursor (st.styled c))
        (if s.shown con forceCurrent then
          Function.update screen st.cursor (st.styled c) else screen) := by
  have hOut' : (s.put t st buf screen).out con forceCurrent = t := hOut
  simp only [storeChar, hOut', put_constate, put_vidBuf, put_shown, put_video]
  simp [Terminal.put, ConsoleState.styled]

/-- While a row is emptied: a character in the last row, without scrolling. -/
theorem putcharUnscrolled_put {c : Byte} (hOut : s.out con forceCurrent = t)
    (hChar : c ≠ newline) (hAutoinc : st.vcurAutoincEn = true)
    (hWrap : st.conWrap = true) :
    putcharUnscrolled con forceCurrent c (s.put t st buf screen) =
      s.put t st.nextColumn (Function.update buf st.cursor (st.styled c))
        (if s.shown con forceCurrent then
          Function.update screen st.cursor (st.styled c) else screen) := by
  have hOut' : (s.put t st buf screen).out con forceCurrent = t := hOut
  simp only [putcharUnscrolled, putcharWith, if_neg hChar, hOut', put_constate,
    if_pos hAutoinc]
  rw [storeChar_put st buf screen c hOut,
    inccurWith_char (by rw [put_out, hOut]) (by rwa [put_constate])
      (ite_self _)]
  simp only [put_out, hOut, put_constate, put_setConstate]

end Store

/-! ## Scrolling -/

/-- Cells `start ..< start + m` replaced by one character. -/
def filled (start m : Nat) (ch : VgaChar) (cells : Nat → VgaChar) (i : Nat) :
    VgaChar :=
  if start ≤ i ∧ i < start + m then ch else cells i

private theorem filled_zero (start : Nat) (ch : VgaChar) (cells : Nat → VgaChar) :
    filled start 0 ch cells = cells := by
  funext i
  have hOut : ¬ (start ≤ i ∧ i < start + 0) := by omega
  simp only [filled, if_neg hOut]

private theorem filled_succ (start m : Nat) (ch : VgaChar) (cells : Nat → VgaChar) :
    Function.update (filled start m ch cells) (start + m) ch =
      filled start (m + 1) ch cells := by
  funext i
  by_cases hi : i = start + m
  · subst hi
    simp [filled]
  · rw [Function.update_of_ne hi]
    have hSame : (start ≤ i ∧ i < start + m) ↔
        (start ≤ i ∧ i < start + (m + 1)) := by omega
    simp only [filled, hSame]

/-- The index of the last row. -/
def lastRow : Nat := numCols * (numRows - 1)

/-- Emptying the last row. -/
theorem putcharUnscrolled_iterate {s : Terminal} {t con : ConIdx}
    {forceCurrent : Bool} (st : ConsoleState) (buf screen : Nat → VgaChar)
    (hOut : s.out con forceCurrent = t) (hAutoinc : st.vcurAutoincEn = true)
    (hWrap : st.conWrap = true)
    (hColumn : st.vcurX = 0) (hRow : st.vcurY = numRows - 1) :
    ∀ m, m ≤ numCols →
      (putcharUnscrolled con forceCurrent space)^[m] (s.put t st buf screen) =
        s.put t { st with vcurX := if m < numCols then m else 0 }
          (filled lastRow m (st.styled space) buf)
          (if s.shown con forceCurrent then
            filled lastRow m (st.styled space) screen else screen) := by
  intro m
  induction m with
  | zero =>
      intro _
      have hSame : { st with vcurX := if 0 < numCols then 0 else 0 } = st := by
        simp [← hColumn]
      rw [hSame, filled_zero, filled_zero, ite_self]
      rfl
  | succ m ih =>
      intro hm
      have hRange : m < numCols := by omega
      have hCursor : ConsoleState.cursor { st with vcurX := m } = lastRow + m := by
        simp only [ConsoleState.cursor, hRow, lastRow]
        rw [Nat.mul_comm, Nat.add_comm]
      have hNext : ConsoleState.nextColumn { st with vcurX := m } =
          { st with vcurX := if m + 1 < numCols then m + 1 else 0 } := by
        simp only [ConsoleState.nextColumn]
        split
        · rfl
        · simp [ConsoleState.nextRow, ConsoleState.atBottom, hRow, numRows]
      have hStyled : ConsoleState.styled { st with vcurX := m } space =
          st.styled space := rfl
      rw [Function.iterate_succ_apply', ih (by omega), if_pos hRange,
        putcharUnscrolled_put { st with vcurX := m } _ _ hOut (by decide)
          hAutoinc hWrap,
        hCursor, hNext, hStyled, filled_succ]
      cases s.shown con forceCurrent with
      | true => simp only [if_true, filled_succ]
      | false => simp only [Bool.false_eq_true, if_false]

/-- The buffer of a console after `console_scroll`. -/
def Terminal.rolledBuf (s : Terminal) (t : ConIdx) : Nat → VgaChar :=
  filled lastRow numCols ((s.constate t).styled space) fun i =>
    if i < lastRow then s.cell t (i + lineMemLen) else (s.vterms t).vidBuf i

/-- The screen after `console_scroll` of the console displayed. -/
def Terminal.rolledScreen (s : Terminal) (t : ConIdx) : Nat → VgaChar :=
  filled lastRow numCols ((s.constate t).styled space) fun i =>
    if i < lastRow then s.video (i + numCols) else s.video i

/-- The terminals after `console_scroll`. -/
def Terminal.rolled (s : Terminal) (t : ConIdx) : Terminal :=
  s.put t (s.constate t) (s.rolledBuf t)
    (if t = s.currentConsole then s.rolledScreen t else s.video)

private theorem moveUp_eq {s : Terminal} (h : Sane s) (t : ConIdx) :
    moveUp t s = s.put t (s.constate t)
      (fun i => if i < lastRow then s.cell t (i + lineMemLen)
        else (s.vterms t).vidBuf i)
      (if t = s.currentConsole then
        fun i => if i < lastRow then s.video (i + numCols) else s.video i
        else s.video) := by
  have hLen : lineMemLen * (numRows - 1) / 2 = lastRow := by decide
  have hCols : lineMemLen / 2 = numCols := by decide
  have hCurrent : (s.vterms t).current = true ↔ t = s.currentConsole := by
    rw [h.current, decide_eq_true_eq]
  simp only [moveUp, hLen, hCols, hCurrent]
  rfl

private theorem scrollLineWith_eq {s : Terminal} (h : Sane s) {t con : ConIdx}
    {forceCurrent : Bool} (hOut : s.out con forceCurrent = t) :
    scrollLineWith putcharUnscrolled con forceCurrent s = s.rolled t := by
  have hReady := h.ready t
  have hShown : s.shown con forceCurrent = true ↔ t = s.currentConsole := by
    rw [h.shown_iff, hOut, decide_eq_true_eq]
  have hEmptied := fun buf screen => putcharUnscrolled_iterate
    { s.constate t with
      vcurX := 0, vcurY := numRows - 1, vcurAutoincEn := true
      conScroll := false }
    buf screen hOut rfl hReady.wrap rfl rfl numCols (Nat.le_refl _)
  simp only [scrollLineWith, hOut, moveUp_eq h, put_constate, put_setConstate,
    hEmptied, hShown, hReady.modes]
  unfold Terminal.rolled Terminal.rolledBuf Terminal.rolledScreen
  split
  · rfl
  · rfl

private theorem scrollWith_eq {s : Terminal} (h : Sane s) {t con : ConIdx}
    {forceCurrent : Bool} (hOut : s.out con forceCurrent = t) :
    scrollWith putcharUnscrolled 1 con forceCurrent s = s.rolled t := by
  simp only [scrollWith, hOut, (h.ready t).scroll, if_true,
    Function.iterate_one]
  exact scrollLineWith_eq h hOut

/-! ## Output -/

/-- A character is stored before the cursor moves, but for a newline. -/
def Terminal.stored (s : Terminal) (t : ConIdx) (c : Byte) : Terminal :=
  if c = newline then s
  else
    s.put t (s.constate t)
      (Function.update (s.vterms t).vidBuf (s.constate t).cursor
        ((s.constate t).styled c))
      (if t = s.currentConsole then
        Function.update s.video (s.constate t).cursor ((s.constate t).styled c)
        else s.video)

/-- Whether a character scrolls the console. -/
def ConsoleState.scrollsOn (st : ConsoleState) (c : Byte) : Prop :=
  if c = newline then st.atBottom else st.full

instance (st : ConsoleState) (c : Byte) : Decidable (st.scrollsOn c) :=
  inferInstanceAs (Decidable (ite _ _ _))

/-- The cursor after a character. -/
def ConsoleState.after (st : ConsoleState) (c : Byte) : ConsoleState :=
  if c = newline then st.nextRow else st.nextColumn

/-- The terminals after a character on console `t`. -/
def Terminal.output (s : Terminal) (t : ConIdx) (c : Byte) : Terminal :=
  Terminal.setConstate
    (if (s.constate t).scrollsOn c then (s.stored t c).rolled t
      else s.stored t c)
    t ((s.constate t).after c)

theorem Ready.after {st : ConsoleState} (h : Ready st) (c : Byte) :
    Ready (st.after c) := by
  unfold ConsoleState.after
  split
  · exact h.nextRow
  · exact h.nextColumn

/-- Another buffer and screen, and another cursor. -/
theorem Sane.put {s : Terminal} (h : Sane s) (t : ConIdx) {st : ConsoleState}
    (hReady : Ready st) (buf screen : Nat → VgaChar) :
    Sane (s.put t st buf screen) where
  present c :=
    (update_same s.vterms t Console.present (by rfl) c).trans (h.present c)
  id c := by rw [put_id, h.id]
  current c := by rw [put_current, h.current, put_currentConsole]
  ready c := by
    by_cases hc : c = t
    · subst hc
      rw [put_constate]
      exact hReady
    · unfold Terminal.constate
      rw [put_vterms_of_ne s t st buf screen hc]
      exact h.ready c

@[simp] theorem stored_constate (s : Terminal) (t : ConIdx) (c : Byte) :
    (s.stored t c).constate t = s.constate t := by
  unfold Terminal.stored
  split
  · rfl
  · rw [put_constate]

@[simp] theorem stored_currentConsole (s : Terminal) (t : ConIdx) (c : Byte) :
    (s.stored t c).currentConsole = s.currentConsole := by
  unfold Terminal.stored
  split <;> rfl

theorem Sane.stored {s : Terminal} (h : Sane s) (t : ConIdx) (c : Byte) :
    Sane (s.stored t c) := by
  unfold Terminal.stored
  split
  · exact h
  · exact h.put t (h.ready t) _ _

private theorem storeChar_eq {s : Terminal} (h : Sane s) {t con : ConIdx}
    {forceCurrent : Bool} {c : Byte} (hOut : s.out con forceCurrent = t)
    (hChar : c ≠ newline) :
    storeChar con forceCurrent c s = s.stored t c := by
  have hShown : s.shown con forceCurrent = true ↔ t = s.currentConsole := by
    rw [h.shown_iff, hOut, decide_eq_true_eq]
  have hStore := storeChar_put (s.constate t) (s.vterms t).vidBuf s.video c hOut
  rw [put_self] at hStore
  rw [hStore, Terminal.stored, if_neg hChar]
  simp only [hShown]

private theorem out_rolled (s : Terminal) (t con : ConIdx) (forceCurrent : Bool) :
    (s.rolled t).out con forceCurrent = s.out con forceCurrent := rfl

section Putchar

variable {s : Terminal} (h : Sane s) {t con : ConIdx} {forceCurrent : Bool}
  (hOut : s.out con forceCurrent = t)

include h hOut

private theorem consoleInccur_char :
    consoleInccur .char con forceCurrent s =
      Terminal.setConstate
        (if (s.constate t).full then s.rolled t else s) t
        (s.constate t).nextColumn := by
  have hReady := h.ready t
  by_cases hFull : (s.constate t).full
  · rw [if_pos hFull]
    refine (inccurWith_char hOut hReady.wrap
      ((if_pos ⟨hFull, hReady.scroll⟩).trans (scrollWith_eq h hOut))).trans ?_
    rw [out_rolled, hOut]
  · rw [if_neg hFull]
    refine (inccurWith_char hOut hReady.wrap
      (if_neg fun hBoth => hFull hBoth.1)).trans ?_
    rw [hOut]

private theorem consoleInccur_linereturn :
    consoleInccur .linereturn con forceCurrent s =
      Terminal.setConstate
        (if (s.constate t).atBottom then s.rolled t else s) t
        (s.constate t).nextRow := by
  have hReady := h.ready t
  by_cases hBottom : (s.constate t).atBottom
  · rw [if_pos hBottom]
    refine (inccurWith_linereturn hOut hReady.wrap hReady.column
      ((if_pos ⟨hBottom, hReady.scroll⟩).trans (scrollWith_eq h hOut))).trans ?_
    rw [out_rolled, hOut]
  · rw [if_neg hBottom]
    refine (inccurWith_linereturn hOut hReady.wrap hReady.column
      (if_neg fun hBoth => hBottom hBoth.1)).trans ?_
    rw [hOut]

/-- What one character does. -/
theorem putcharWith_eq (c : Byte) :
    putcharWith consoleInccur con forceCurrent c s = s.output t c := by
  by_cases hChar : c = newline
  · simp only [putcharWith, Terminal.output, Terminal.stored,
      ConsoleState.scrollsOn, ConsoleState.after, if_pos hChar]
    exact consoleInccur_linereturn h hOut
  · have hStored : (s.stored t c).out con forceCurrent = t := by
      rw [← hOut]
      simp only [Terminal.out, stored_currentConsole]
    simp only [putcharWith, hOut, (h.ready t).autoinc, if_neg hChar, if_true,
      storeChar_eq h hOut hChar]
    rw [consoleInccur_char (h.stored t c) hStored, stored_constate]
    simp only [Terminal.output, ConsoleState.scrollsOn, ConsoleState.after,
      if_neg hChar]

end Putchar

theorem consolePutchar_eq {s : Terminal} (h : Sane s) (con : ConIdx) (c : Byte) :
    consolePutchar con c s = s.output con c :=
  putcharWith_eq h rfl c

theorem consoleEcho_eq {s : Terminal} (h : Sane s) (c : Byte) :
    consoleEcho c s = s.output s.currentConsole c :=
  putcharWith_eq h rfl c

/-! ## What an output leaves alone -/

section Output

variable (s : Terminal) (t : ConIdx) (c : Byte)

private theorem stored_eq_put :
    ∃ buf screen, s.stored t c = s.put t (s.constate t) buf screen := by
  unfold Terminal.stored
  split
  · exact ⟨_, _, (put_self s t).symm⟩
  · exact ⟨_, _, rfl⟩

@[simp] theorem stored_cellBehind (j : Nat) :
    (s.stored t c).cellBehind t j = s.cellBehind t j := by
  obtain ⟨buf, screen, hPut⟩ := stored_eq_put s t c
  rw [hPut, put_cellBehind]

/-- An output is a matter of its console and the screen. -/
theorem output_eq_put :
    ∃ buf screen,
      s.output t c = s.put t ((s.constate t).after c) buf screen := by
  obtain ⟨buf, screen, hPut⟩ := stored_eq_put s t c
  unfold Terminal.output
  split
  · exact ⟨_, _, by rw [Terminal.rolled, hPut, put_put, put_setConstate]⟩
  · exact ⟨_, _, by rw [hPut, put_setConstate]⟩

@[simp] theorem output_constate :
    (s.output t c).constate t = (s.constate t).after c := by
  obtain ⟨buf, screen, hPut⟩ := output_eq_put s t c
  rw [hPut, put_constate]

@[simp] theorem output_currentConsole :
    (s.output t c).currentConsole = s.currentConsole := by
  obtain ⟨buf, screen, hPut⟩ := output_eq_put s t c
  rw [hPut, put_currentConsole]

@[simp] theorem output_cellBehind (j : Nat) :
    (s.output t c).cellBehind t j = s.cellBehind t j := by
  obtain ⟨buf, screen, hPut⟩ := output_eq_put s t c
  rw [hPut, put_cellBehind]

theorem output_vterms_of_ne {b : ConIdx} (hb : b ≠ t) :
    (s.output t c).vterms b = s.vterms b := by
  obtain ⟨buf, screen, hPut⟩ := output_eq_put s t c
  rw [hPut, put_vterms_of_ne s t _ buf screen hb]

theorem output_vidBuf :
    ((s.output t c).vterms t).vidBuf =
      if (s.constate t).scrollsOn c then (s.stored t c).rolledBuf t
      else ((s.stored t c).vterms t).vidBuf := by
  unfold Terminal.output
  split
  · simp [Terminal.rolled]
  · simp [Terminal.setConstate]

theorem output_video :
    (s.output t c).video =
      if (s.constate t).scrollsOn c ∧ t = s.currentConsole then
        (s.stored t c).rolledScreen t
      else (s.stored t c).video := by
  unfold Terminal.output
  by_cases hScrolls : (s.constate t).scrollsOn c
  · simp [hScrolls, Terminal.rolled, Terminal.setConstate]
  · simp [hScrolls, Terminal.setConstate]

/-- Without scrolling only the cell of the cursor changes. -/
theorem output_vidBuf_of_ne {i : Nat} (hScrolls : ¬ (s.constate t).scrollsOn c)
    (hi : i ≠ (s.constate t).cursor) :
    ((s.output t c).vterms t).vidBuf i = (s.vterms t).vidBuf i := by
  rw [output_vidBuf, if_neg hScrolls, Terminal.stored]
  split
  · rfl
  · rw [put_vidBuf, Function.update_of_ne hi]

theorem output_video_of_ne {i : Nat} (hScrolls : ¬ (s.constate t).scrollsOn c)
    (hi : i ≠ (s.constate t).cursor) :
    (s.output t c).video i = s.video i := by
  rw [output_video, if_neg (fun hBoth => hScrolls hBoth.1), Terminal.stored]
  split
  · rfl
  · rw [put_video]
    split
    · rw [Function.update_of_ne hi]
    · rfl

/-- A newline above the last row only moves the cursor. -/
theorem output_newline (hBottom : ¬ (s.constate t).atBottom) :
    s.output t newline = s.setConstate t (s.constate t).nextRow := by
  simp only [Terminal.output, Terminal.stored, ConsoleState.scrollsOn,
    ConsoleState.after, if_true, if_neg hBottom]

end Output

theorem Sane.output {s : Terminal} (h : Sane s) (t : ConIdx) (c : Byte) :
    Sane (s.output t c) := by
  obtain ⟨buf, screen, hPut⟩ := output_eq_put s t c
  rw [hPut]
  exact h.put t ((h.ready t).after c) buf screen

end CompE.Vterm
