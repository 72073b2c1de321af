import CompE.Vterm.Driver

/-!
# What the recursion changes, and that it ends

All functions of the driver change one console only, the one that they put out
on, and the screen.  On a console whose cursor is on the screen they leave it
there, write cells of the screen only, and leave `con_scroll` as it is:
`Changed`, for every depth of calls.

`console_scroll` switches `con_scroll` off while it empties the last row, and
with `con_scroll` off `console_inccur` does not scroll.  So two calls deep is
deep enough, `calls_settle`.
-/

namespace CompE.Vterm

open CompE.Library
open CompE.Kernel (Byte)

namespace Driver

/-! ## What may change -/

/-- The cursor of a console is on the screen. -/
structure OnScreen (d : Driver) (t : ConIdx) : Prop where
  column : (d.constate t).vcurX < numCols
  row : (d.constate t).vcurY < numRows

/-- Outputs go to console `t`, whose cursor is on the screen. -/
structure At (con : ConIdx) (forceCurrent : Bool) (t : ConIdx) (d : Driver) :
    Prop where
  out : d.term.out con forceCurrent = t
  onScreen : d.OnScreen t

/-- Console `t`, the screen and the hardware cursor may have changed, and cells
of the screen may have been written. -/
structure Moved (t : ConIdx) (d d' : Driver) : Prop where
  term : ∃ buf screen, d'.term = d.term.put t (d'.constate t) buf screen
  wrap : (d'.constate t).conWrap = (d.constate t).conWrap
  onScreen : d'.OnScreen t
  written : ∃ ws, d'.written = d.written ++ ws ∧
    ∀ w ∈ ws, w.index < numRows * numCols

/-- Neither `con_wrap` nor `con_scroll` has changed. -/
structure Changed (t : ConIdx) (d d' : Driver) : Prop extends Moved t d d' where
  scroll : (d'.constate t).conScroll = (d.constate t).conScroll

theorem OnScreen.cursor {d : Driver} {t : ConIdx} (h : d.OnScreen t) :
    (d.constate t).cursor < numRows * numCols := by
  have hColumn := h.column
  have hRow := h.row
  simp only [ConsoleState.cursor, numRows, numCols] at *
  omega

section Moved

variable {t : ConIdx} {d d' d'' : Driver}

private theorem put_of_term {st : ConsoleState} {buf screen : Nat → VgaChar}
    (h : d'.term = d.term.put t st buf screen) : d'.constate t = st := by
  rw [constate, h, put_constate]

/-- A change of the consoles and nothing else. -/
theorem Moved.of_put {st : ConsoleState} {buf screen : Nat → VgaChar}
    (ws : List CellWrite) (hTerm : d'.term = d.term.put t st buf screen)
    (hWrap : st.conWrap = (d.constate t).conWrap) (hColumn : st.vcurX < numCols)
    (hRow : st.vcurY < numRows) (hWritten : d'.written = d.written ++ ws)
    (hIndex : ∀ w ∈ ws, w.index < numRows * numCols) : Moved t d d' := by
  have hState := put_of_term hTerm
  refine ⟨⟨buf, screen, by rw [hState, hTerm]⟩, by rw [hState, hWrap], ⟨?_, ?_⟩,
    ws, hWritten, hIndex⟩
  · rw [hState]
    exact hColumn
  · rw [hState]
    exact hRow

theorem Moved.trans (h : Moved t d d') (h' : Moved t d' d'') : Moved t d d'' := by
  obtain ⟨buf, screen, hTerm⟩ := h.term
  obtain ⟨buf', screen', hTerm'⟩ := h'.term
  obtain ⟨ws, hWritten, hIndex⟩ := h.written
  obtain ⟨ws', hWritten', hIndex'⟩ := h'.written
  refine ⟨⟨buf', screen', ?_⟩, h'.wrap.trans h.wrap, h'.onScreen, ws ++ ws', ?_, ?_⟩
  · rw [hTerm', hTerm, put_put]
  · rw [hWritten', hWritten, List.append_assoc]
  · intro w hw
    rcases List.mem_append.1 hw with hw | hw
    · exact hIndex w hw
    · exact hIndex' w hw

theorem Moved.displayed (h : Moved t d d') :
    d'.term.currentConsole = d.term.currentConsole := by
  obtain ⟨buf, screen, hTerm⟩ := h.term
  rw [hTerm, put_currentConsole]

theorem Moved.out (h : Moved t d d') (con : ConIdx) (forceCurrent : Bool) :
    d'.term.out con forceCurrent = d.term.out con forceCurrent := by
  rw [Terminal.out, Terminal.out, h.displayed]

theorem Moved.stays {con : ConIdx} {forceCurrent : Bool} (h : Moved t d d')
    (hAt : At con forceCurrent t d) : At con forceCurrent t d' :=
  ⟨(h.out con forceCurrent).trans hAt.out, h.onScreen⟩

theorem Moved.others (h : Moved t d d') {c : ConIdx} (hc : c ≠ t) :
    d'.term.vterms c = d.term.vterms c := by
  obtain ⟨buf, screen, hTerm⟩ := h.term
  rw [hTerm, put_vterms_of_ne _ _ _ _ _ hc]

theorem Moved.id (h : Moved t d d') (c : ConIdx) :
    (d'.term.vterms c).id = (d.term.vterms c).id := by
  obtain ⟨buf, screen, hTerm⟩ := h.term
  rw [hTerm, put_id]

theorem Moved.current (h : Moved t d d') (c : ConIdx) :
    (d'.term.vterms c).current = (d.term.vterms c).current := by
  obtain ⟨buf, screen, hTerm⟩ := h.term
  rw [hTerm, put_current]

theorem Changed.trans (h : Changed t d d') (h' : Changed t d' d'') : Changed t d d'' :=
  { h.toMoved.trans h'.toMoved with scroll := h'.scroll.trans h.scroll }

end Moved

/-! ## Small steps -/

section Steps

variable {t : ConIdx} {d : Driver}

theorem setConstate_term (d : Driver) (t : ConIdx) (st : ConsoleState) :
    (d.setConstate t st).term =
      d.term.put t st (d.term.vterms t).vidBuf d.term.video :=
  setConstate_eq_put d.term t st

@[simp] theorem setConstate_constate (d : Driver) (t : ConIdx) (st : ConsoleState) :
    (d.setConstate t st).constate t = st :=
  put_of_term (setConstate_term d t st)

theorem Moved.setConstate (d : Driver) (t : ConIdx) (st : ConsoleState)
    (hWrap : st.conWrap = (d.constate t).conWrap) (hColumn : st.vcurX < numCols)
    (hRow : st.vcurY < numRows) : Moved t d (d.setConstate t st) :=
  Moved.of_put [] (setConstate_term d t st) hWrap hColumn hRow
    (List.append_nil _).symm fun _ hw => absurd hw List.not_mem_nil

theorem Changed.setConstate (d : Driver) (t : ConIdx) (st : ConsoleState)
    (hWrap : st.conWrap = (d.constate t).conWrap)
    (hScroll : st.conScroll = (d.constate t).conScroll) (hColumn : st.vcurX < numCols)
    (hRow : st.vcurY < numRows) : Changed t d (d.setConstate t st) :=
  { Moved.setConstate d t st hWrap hColumn hRow with
    scroll := by rw [setConstate_constate, hScroll] }

theorem writeScreen_term (d : Driver) (t : ConIdx) (i : Nat) (ch : VgaChar) :
    (d.writeScreen i ch).term =
      d.term.put t (d.constate t) (d.term.vterms t).vidBuf
        (Function.update d.term.video i ch) := by
  simp [Driver.writeScreen, Terminal.put, constate, Terminal.constate]

@[simp] theorem vgaSetCursorPos_term (x y : Nat) (d : Driver) :
    (vgaSetCursorPos x y d).term = d.term := by
  unfold vgaSetCursorPos
  split
  · rfl
  · rfl

@[simp] theorem vgaSetCursorPos_written (x y : Nat) (d : Driver) :
    (vgaSetCursorPos x y d).written = d.written := by
  unfold vgaSetCursorPos
  split
  · rfl
  · rfl

variable (h : d.OnScreen t)

include h

/-- No change of the consoles. -/
theorem Changed.of_term {d' : Driver} (hTerm : d'.term = d.term)
    (hWritten : d'.written = d.written) : Changed t d d' := by
  have hPut : d'.term =
      d.term.put t (d.constate t) (d.term.vterms t).vidBuf d.term.video :=
    hTerm.trans (put_self d.term t).symm
  exact
    { Moved.of_put [] hPut rfl h.column h.row (hWritten.trans (List.append_nil _).symm)
        fun _ hw => absurd hw List.not_mem_nil with
      scroll := by rw [put_of_term hPut] }

theorem Changed.refl : Changed t d d := Changed.of_term h rfl rfl

theorem Changed.vgaSetCursorPos (x y : Nat) : Changed t d (vgaSetCursorPos x y d) :=
  Changed.of_term h (vgaSetCursorPos_term x y d) (vgaSetCursorPos_written x y d)

theorem Changed.refresh : Changed t d d.consoleRefreshPcur :=
  Changed.vgaSetCursorPos h _ _

theorem Changed.writeBuffer {i : Nat} (hi : i < numRows * numCols) (ch : VgaChar) :
    Changed t d (d.writeBuffer t i ch) := by
  have hPut : (d.writeBuffer t i ch).term =
      d.term.put t (d.constate t) (Function.update (d.term.vterms t).vidBuf i ch)
        d.term.video := rfl
  exact
    { Moved.of_put [.buffer t i] hPut rfl h.column h.row rfl
        fun w hw => by rw [List.mem_singleton.1 hw]; exact hi with
      scroll := by rw [put_of_term hPut] }

theorem Changed.writeScreen {i : Nat} (hi : i < numRows * numCols) (ch : VgaChar) :
    Changed t d (d.writeScreen i ch) := by
  have hPut := writeScreen_term d t i ch
  exact
    { Moved.of_put [.screen i] hPut rfl h.column h.row rfl
        fun w hw => by rw [List.mem_singleton.1 hw]; exact hi with
      scroll := by rw [put_of_term hPut] }

end Steps

/-! ## Scrolling -/

section Scroll

variable {con t : ConIdx} {forceCurrent : Bool} {d : Driver}

/-- Both ways to set the cursor are the same for a place on the screen. -/
theorem scrollCursor_eq (hOut : d.term.out con forceCurrent = t) {x y : Nat}
    (hx : x < numCols) (hy : y < numRows) :
    d.scrollCursor con forceCurrent x y =
      d.setConstate t { d.constate t with vcurX := x, vcurY := y } := by
  unfold scrollCursor
  cases forceCurrent with
  | true =>
      have hCur : d.term.currentConsole = t := hOut
      rw [if_pos rfl, hCur]
  | false =>
      have hCon : con = t := hOut
      rw [if_neg (by decide), consoleSetcursorpos, if_neg (Nat.not_le.2 hx),
        if_neg (Nat.not_le.2 hy), hCon]

theorem Changed.moveUp (h : d.OnScreen t) :
    Changed t d { d with term := moveUp t d.term } := by
  obtain ⟨buf, screen, hPut⟩ : ∃ buf screen,
      CompE.Vterm.moveUp t d.term = d.term.put t (d.constate t) buf screen :=
    ⟨_, _, rfl⟩
  have hTerm : ({ d with term := CompE.Vterm.moveUp t d.term } : Driver).term =
      d.term.put t (d.constate t) buf screen := hPut
  exact
    { Moved.of_put [] hTerm rfl h.column h.row (List.append_nil _).symm
        fun _ hw => absurd hw List.not_mem_nil with
      scroll := by rw [put_of_term hTerm] }

/-- Scrolling is off while the last row is emptied. -/
theorem scrollStart_moved (h : At con forceCurrent t d) :
    Moved t d (d.scrollStart con forceCurrent) ∧
      ((d.scrollStart con forceCurrent).constate t).conScroll = false := by
  have hUp := Changed.moveUp h.onScreen
  simp only [scrollStart, h.out]
  rw [scrollCursor_eq (hUp.out con forceCurrent |>.trans h.out) (by decide) (by decide)]
  generalize ({ d with term := CompE.Vterm.moveUp t d.term } : Driver) = d1 at *
  have hBottom := Moved.setConstate d1 t
    { d1.constate t with vcurX := 0, vcurY := numRows - 1 } rfl
    (show 0 < numCols by decide) (show numRows - 1 < numRows by decide)
  generalize d1.setConstate t { d1.constate t with vcurX := 0, vcurY := numRows - 1 } = d2
    at *
  have hOff := Moved.setConstate d2 t
    { d2.constate t with vcurAutoincEn := true, conScroll := false } rfl
    hBottom.onScreen.column hBottom.onScreen.row
  exact ⟨(hUp.toMoved.trans hBottom).trans hOff, by rw [setConstate_constate]⟩

/-- Then it is on again, and the cursor where it was. -/
theorem scrollEnd_moved (h : At con forceCurrent t d) {x y : Nat} (hx : x < numCols)
    (hy : y < numRows) :
    Moved t d (scrollEnd con forceCurrent x y d) ∧
      ((scrollEnd con forceCurrent x y d).constate t).conScroll = true := by
  have hBack := Moved.setConstate d t { d.constate t with vcurX := x, vcurY := y }
    rfl hx hy
  simp only [scrollEnd, h.out, scrollCursor_eq h.out hx hy]
  generalize d.setConstate t { d.constate t with vcurX := x, vcurY := y } = d1 at *
  have hCursor : Moved t d (if ((d1.term.vterms t).current || forceCurrent) = true then
      vgaSetCursorPos (d1.constate t).vcurX (d1.constate t).vcurY d1 else d1) := by
    split
    · exact hBack.trans (Changed.vgaSetCursorPos hBack.onScreen _ _).toMoved
    · exact hBack
  generalize (if ((d1.term.vterms t).current || forceCurrent) = true then
      vgaSetCursorPos (d1.constate t).vcurX (d1.constate t).vcurY d1 else d1) = d2 at *
  have hOn := Moved.setConstate d2 t { d2.constate t with conScroll := true } rfl
    hCursor.onScreen.column hCursor.onScreen.row
  exact ⟨hCursor.trans hOn, by rw [setConstate_constate]⟩

end Scroll

/-! ## Each function, if its calls change no more -/

/-- Where outputs go to `t`, this function changes no more than they do. -/
def Sound (con : ConIdx) (forceCurrent : Bool) (t : ConIdx)
    (f : Driver → Option Driver) : Prop :=
  Within (fun d d' => At con forceCurrent t d → Changed t d d') f

/-- The functions that `console_scroll` calls do. -/
def SoundCalls (con : ConIdx) (calls : Calls) : Prop :=
  ∀ forceCurrent t, Sound con forceCurrent t (scrollChar calls forceCurrent)

theorem Sound.repeatM {con t : ConIdx} {forceCurrent : Bool}
    {f : Driver → Option Driver} (h : Sound con forceCurrent t f) (n : Nat) :
    Sound con forceCurrent t (repeatM f n) :=
  Within.repeatM (fun _ hAt => Changed.refl hAt.onScreen)
    (fun _ _ _ hab hbc hAt => (hab hAt).trans (hbc ((hab hAt).stays hAt))) h n

section Functions

variable {con t : ConIdx} {forceCurrent : Bool} {calls : Calls}
  (hCalls : SoundCalls con calls)

include hCalls

theorem scrollLine_changed {d d' : Driver} (h : At con forceCurrent t d)
    (hScroll : (d.constate t).conScroll = true)
    (hLine : scrollLine calls con forceCurrent d = some d') : Changed t d d' := by
  simp only [scrollLine, h.out] at hLine
  obtain ⟨d2, hLoop, hEnd⟩ := Option.map_eq_some_iff.1 hLine
  obtain ⟨hStart, _⟩ := scrollStart_moved h
  have hStartAt := hStart.stays h
  have hRow := (hCalls forceCurrent t).repeatM numCols _ _ hLoop hStartAt
  obtain ⟨hBack, hOn⟩ :=
    scrollEnd_moved (hRow.stays hStartAt) h.onScreen.column h.onScreen.row
  rw [hEnd] at hBack hOn
  exact { (hStart.trans hRow.toMoved).trans hBack with scroll := hOn.trans hScroll.symm }

theorem consoleScroll_sound (lines : BitVec 32) :
    Sound con forceCurrent t (consoleScroll calls con lines forceCurrent) := by
  intro d d' hRun h
  simp only [consoleScroll, h.out] at hRun
  split at hRun
  · rename_i hScroll
    have hLoop := Within.repeatM
      (R := fun (d d' : Driver) => At con forceCurrent t d → (d.constate t).conScroll = true →
        Changed t d d')
      (fun _ hAt _ => Changed.refl hAt.onScreen)
      (fun _ _ _ hab hbc hAt hOn => (hab hAt hOn).trans
        (hbc ((hab hAt hOn).stays hAt) ((hab hAt hOn).scroll.trans hOn)))
      (fun _ _ hLine hAt hOn => scrollLine_changed hCalls hAt hOn hLine)
      lines.toInt.toNat
    exact hLoop _ _ hRun h hScroll
  · cases hRun
    exact Changed.refl h.onScreen

/-- The copy of `console_inccur` is moved on the screen. -/
structure Copied (t : ConIdx) (d : Driver) (r : ConsoleState × Driver) : Prop where
  changed : Changed t d r.2
  wrap : r.1.conWrap = (d.constate t).conWrap
  scroll : r.1.conScroll = (d.constate t).conScroll
  column : r.1.vcurX < numCols
  row : r.1.vcurY < numRows

theorem inccurRound_copied {d : Driver} (h : At con forceCurrent t d)
    {r r' : ConsoleState × Driver} (hCopied : Copied t d r)
    (hRound : inccurRound calls con forceCurrent r = some r') : Copied t d r' := by
  obtain ⟨st, d1⟩ := r
  have hAt := hCopied.changed.stays h
  simp only [inccurRound] at hRound
  split at hRound
  · split at hRound
    · split at hRound
      · obtain ⟨d2, hScroll, rfl⟩ := Option.map_eq_some_iff.1 hRound
        have hDown : Changed t d1 d2 := by
          split at hScroll
          · exact consoleScroll_sound hCalls 1 _ _ hScroll hAt
          · cases hScroll
            exact Changed.refl hAt.onScreen
        exact
          { changed := hCopied.changed.trans hDown
            wrap := hCopied.wrap
            scroll := hCopied.scroll
            column := show 0 < numCols by decide
            row := show numRows - 1 < numRows by decide }
      · cases hRound
        exact hCopied
    · split at hRound
      · rename_i hRow _
        cases hRound
        exact
          { hCopied with
            column := show 0 < numCols by decide
            row := Nat.not_le.1 hRow }
      · cases hRound
        exact hCopied
  · rename_i hColumn
    cases hRound
    exact { hCopied with column := Nat.not_le.1 hColumn }

theorem consoleInccur_sound (inc : ConInc) :
    Sound con forceCurrent t (consoleInccur calls con inc forceCurrent) := by
  intro d d' hRun h
  simp only [consoleInccur, h.out] at hRun
  obtain ⟨⟨st, d1⟩, hLoop, hEnd⟩ := Option.map_eq_some_iff.1 hRun
  have hRounds := Within.repeatM (R := fun r r' => Copied t d r → Copied t d r')
    (fun _ hCopied => hCopied) (fun _ _ _ hab hbc hCopied => hbc (hab hCopied))
    (fun _ _ hRound hCopied => inccurRound_copied hCalls h hCopied hRound)
    (inc.numChars (d.constate t)) _ _ hLoop
  have hCopied := hRounds
    ⟨Changed.refl h.onScreen, rfl, rfl, h.onScreen.column, h.onScreen.row⟩
  have hAt := hCopied.changed.stays h
  simp only [inccurEnd, hAt.out] at hEnd
  have hBack := Changed.setConstate d1 t st
    (hCopied.wrap.trans hCopied.changed.wrap.symm)
    (hCopied.scroll.trans hCopied.changed.scroll.symm) hCopied.column hCopied.row
  have hTotal := hCopied.changed.trans hBack
  split at hEnd
  · have hCursor := Changed.refresh hTotal.onScreen
    have hShown : Changed t (d1.setConstate t st).consoleRefreshPcur
        (vgaEnableCursor true (d1.setConstate t st).consoleRefreshPcur) :=
      Changed.of_term hCursor.onScreen rfl rfl
    rw [← hEnd]
    exact (hTotal.trans hCursor).trans hShown
  · rw [← hEnd]
    exact hTotal

private theorem consolePutchar_sound (c : Byte) :
    Sound con false t (consolePutchar calls con c) := by
  intro d d' hRun h
  have hCon : con = t := h.out
  subst hCon
  unfold consolePutchar at hRun
  split at hRun
  · exact consoleInccur_sound hCalls .linereturn _ _ hRun h
  · simp only at hRun
    generalize ({ codept := c, style := (d.constate con).charstyle.style } : VgaChar)
      = outchar at hRun
    have hBuffer := Changed.writeBuffer h.onScreen h.onScreen.cursor outchar
    generalize d.writeBuffer con (d.constate con).cursor outchar = d1 at hRun hBuffer
    have hScreen : Changed con d
        (if con.val = (d1.term.vterms d1.term.currentConsole).id then
          d1.writeScreen (d.constate con).cursor outchar else d1) := by
      split
      · exact hBuffer.trans
          (Changed.writeScreen hBuffer.onScreen h.onScreen.cursor outchar)
      · exact hBuffer
    generalize (if con.val = (d1.term.vterms d1.term.currentConsole).id then
        d1.writeScreen (d.constate con).cursor outchar else d1) = d2 at hRun hScreen
    have hState := hScreen.trans (Changed.setConstate d2 con (d.constate con)
      hScreen.wrap.symm hScreen.scroll.symm h.onScreen.column h.onScreen.row)
    obtain ⟨d4, hNext, hEnd⟩ := Option.map_eq_some_iff.1 hRun
    have hCursor : Changed con d d4 := by
      split at hNext
      · exact hState.trans
          (consoleInccur_sound hCalls .char _ _ hNext (hState.stays h))
      · cases hNext
        exact hState
    rw [← hEnd]
    split
    · exact hCursor.trans (Changed.vgaSetCursorPos hCursor.onScreen _ _)
    · exact hCursor

private theorem consoleEcho_sound (c : Byte) :
    Sound con true t (consoleEcho calls con c) := by
  intro d d' hRun h
  have hCur : d.term.currentConsole = t := h.out
  unfold consoleEcho at hRun
  split at hRun
  · exact consoleInccur_sound hCalls .linereturn _ _ hRun h
  · simp only [hCur] at hRun
    generalize ({ codept := c, style := (d.constate t).charstyle.style } : VgaChar)
      = outchar at hRun
    have hBuffer := Changed.writeBuffer h.onScreen h.onScreen.cursor outchar
    generalize d.writeBuffer t (d.constate t).cursor outchar = d1 at hRun hBuffer
    have hScreen := hBuffer.trans
      (Changed.writeScreen hBuffer.onScreen h.onScreen.cursor outchar)
    generalize d1.writeScreen (d.constate t).cursor outchar = d2 at hRun hScreen
    rw [hScreen.displayed.trans hCur] at hRun
    have hState := hScreen.trans (Changed.setConstate d2 t (d.constate t)
      hScreen.wrap.symm hScreen.scroll.symm h.onScreen.column h.onScreen.row)
    obtain ⟨d4, hNext, hEnd⟩ := Option.map_eq_some_iff.1 hRun
    have hCursor : Changed t d d4 := by
      split at hNext
      · exact hState.trans
          (consoleInccur_sound hCalls .char _ _ hNext (hState.stays h))
      · cases hNext
        exact hState
    have hShown := hCursor.trans (Changed.vgaSetCursorPos hCursor.onScreen
      (d4.constate t).vcurX (d4.constate t).vcurY)
    rw [hCursor.displayed.trans hCur] at hEnd
    generalize vgaSetCursorPos (d4.constate t).vcurX (d4.constate t).vcurY d4 = d5
      at hEnd hShown
    rw [hShown.displayed.trans hCur] at hEnd
    have hBack := Changed.setConstate d5 t (d4.constate t)
      (hCursor.wrap.trans hShown.wrap.symm) (hCursor.scroll.trans hShown.scroll.symm)
      hCursor.onScreen.column hCursor.onScreen.row
    rw [← hEnd]
    exact hShown.trans hBack

end Functions

/-- The functions change no more at any depth. -/
theorem calls_sound (con : ConIdx) : ∀ n, SoundCalls con (calls con n) := by
  intro n
  induction n with
  | zero =>
      intro forceCurrent t
      cases forceCurrent with
      | true => exact Within.none
      | false => exact Within.none
  | succ n ih =>
      intro forceCurrent t
      cases forceCurrent with
      | true => exact consoleEcho_sound ih space
      | false => exact consolePutchar_sound ih space

/-! ## The recursion ends -/

/-- Without `con_scroll`, `console_inccur` calls nothing. -/
theorem consoleInccur_unscrolled (con : ConIdx) (forceCurrent : Bool) {d : Driver}
    (hScroll : (d.constate (d.term.out con forceCurrent)).conScroll = false)
    (inc : ConInc) :
    ∃ d', ∀ calls, consoleInccur calls con inc forceCurrent d = some d' := by
  have hRound : Settles (fun r : ConsoleState × Driver => r.1.conScroll = false)
      (fun calls => inccurRound calls con forceCurrent) := by
    rintro ⟨st, d⟩ hOff
    simp only at hOff
    simp only [inccurRound, hOff]
    split
    · split
      · split
        · exact ⟨_, rfl, fun _ => rfl⟩
        · exact ⟨_, hOff, fun _ => rfl⟩
      · split
        · exact ⟨_, rfl, fun _ => rfl⟩
        · exact ⟨_, hOff, fun _ => rfl⟩
    · exact ⟨_, rfl, fun _ => rfl⟩
  obtain ⟨r, _, hRounds⟩ := hRound.repeatM
    (inc.numChars (d.constate (d.term.out con forceCurrent)))
    (d.constate (d.term.out con forceCurrent), d) hScroll
  refine ⟨inccurEnd con forceCurrent r, fun calls => ?_⟩
  simp only [consoleInccur, hRounds calls, Option.map_some]

section Settle

variable {ι : Type} (calls : ι → Calls) (con : ConIdx) {t : ConIdx}

/-- A character ends if the move of the cursor does. -/
theorem consolePutchar_settles {d : Driver}
    (hInccur : ∀ (inc : ConInc) (d1 : Driver), d1.constate con = d.constate con →
      ∃ d', ∀ i, consoleInccur (calls i) con inc false d1 = some d') (c : Byte) :
    ∃ d', ∀ i, consolePutchar (calls i) con c d = some d' := by
  unfold consolePutchar
  split
  · exact hInccur .linereturn d rfl
  · simp only
    split
    · obtain ⟨d', hNext⟩ :=
        hInccur .char _ (setConstate_constate _ con (d.constate con))
      exact ⟨_, fun i => by rw [hNext i, Option.map_some]⟩
    · exact ⟨_, fun i => by rw [Option.map_some]⟩

private theorem consoleEcho_settles {d : Driver} (hCur : d.term.currentConsole = t)
    (hInccur : ∀ (inc : ConInc) (d1 : Driver), d1.term.currentConsole = t →
      d1.constate t = d.constate t →
      ∃ d', ∀ i, consoleInccur (calls i) con inc true d1 = some d') (c : Byte) :
    ∃ d', ∀ i, consoleEcho (calls i) con c d = some d' := by
  subst hCur
  unfold consoleEcho
  split
  · exact hInccur .linereturn d rfl rfl
  · simp only
    generalize hStored : (d.writeBuffer d.term.currentConsole
        (d.constate d.term.currentConsole).cursor
        { codept := c, style := (d.constate d.term.currentConsole).charstyle.style }
      ).writeScreen (d.constate d.term.currentConsole).cursor
        { codept := c, style := (d.constate d.term.currentConsole).charstyle.style } = d2
    have hCur : d2.term.currentConsole = d.term.currentConsole := by
      rw [← hStored]
      rfl
    rw [hCur]
    split
    · obtain ⟨d', hNext⟩ := hInccur .char (d2.setConstate d.term.currentConsole
        (d.constate d.term.currentConsole)) hCur (setConstate_constate _ _ _)
      exact ⟨_, fun i => by rw [hNext i, Option.map_some]⟩
    · exact ⟨_, fun i => by rw [Option.map_some]⟩

/-- The characters of an emptied row end without further calls. -/
theorem scrollChar_settles (con t : ConIdx) (forceCurrent : Bool) :
    Settles (fun d => At con forceCurrent t d ∧ (d.constate t).conScroll = false)
      (fun n : Nat => scrollChar (Driver.calls con (n + 1)) forceCurrent) := by
  refine Settles.of_within (fun n => calls_sound con (n + 1) forceCurrent t) ?_ ?_
  · rintro d d' ⟨hAt, hOff⟩ hChanged
    exact ⟨(hChanged hAt).stays hAt, (hChanged hAt).scroll.trans hOff⟩
  · rintro d ⟨hAt, hOff⟩
    cases forceCurrent with
    | true =>
        have hCur : d.term.currentConsole = t := hAt.out
        refine consoleEcho_settles _ con hCur ?_ space
        intro inc d1 hCur1 hState
        have hOut : d1.term.out con true = t := hCur1
        obtain ⟨d', hEnd⟩ := consoleInccur_unscrolled con true
          (d := d1) (by rw [hOut, hState]; exact hOff) inc
        exact ⟨d', fun n => hEnd _⟩
    | false =>
        have hCon : con = t := hAt.out
        subst hCon
        refine consolePutchar_settles _ con ?_ space
        intro inc d1 hState
        have hOut : d1.term.out con false = con := rfl
        obtain ⟨d', hEnd⟩ := consoleInccur_unscrolled con false
          (d := d1) (by rw [hOut, hState]; exact hOff) inc
        exact ⟨d', fun n => hEnd _⟩

private theorem scrollLine_settles (con t : ConIdx) (forceCurrent : Bool) :
    Settles (fun d => At con forceCurrent t d ∧ (d.constate t).conScroll = true)
      (fun n : Nat => scrollLine (Driver.calls con (n + 1)) con forceCurrent) := by
  refine Settles.of_within (R := fun d d' => At con forceCurrent t d →
    (d.constate t).conScroll = true → Changed t d d') ?_ ?_ ?_
  · intro n d d' hLine hAt hOn
    exact scrollLine_changed (calls_sound con (n + 1)) hAt hOn hLine
  · rintro d d' ⟨hAt, hOn⟩ hChanged
    exact ⟨(hChanged hAt hOn).stays hAt, (hChanged hAt hOn).scroll.trans hOn⟩
  · rintro d ⟨hAt, _⟩
    obtain ⟨hStart, hOff⟩ := scrollStart_moved hAt
    obtain ⟨d1, _, hRow⟩ := (scrollChar_settles con t forceCurrent).repeatM numCols _
      ⟨hStart.stays hAt, hOff⟩
    refine ⟨scrollEnd con forceCurrent (d.constate t).vcurX (d.constate t).vcurY d1,
      fun n => ?_⟩
    simp only [scrollLine, hAt.out, hRow n, Option.map_some]

private theorem consoleScroll_settles (con t : ConIdx) (forceCurrent : Bool)
    (lines : BitVec 32) :
    Settles (At con forceCurrent t)
      (fun n : Nat => consoleScroll (Driver.calls con (n + 1)) con lines forceCurrent) := by
  refine Settles.of_within
    (fun n => consoleScroll_sound (calls_sound con (n + 1)) lines)
    (fun d d' hAt hChanged => (hChanged hAt).stays hAt) ?_
  intro d hAt
  unfold consoleScroll
  rw [hAt.out]
  by_cases hOn : (d.constate t).conScroll = true
  · obtain ⟨d', _, hLines⟩ := (scrollLine_settles con t forceCurrent).repeatM
      lines.toInt.toNat d ⟨hAt, hOn⟩
    exact ⟨d', fun n => (if_pos hOn).trans (hLines n)⟩
  · exact ⟨d, fun n => by rw [if_neg hOn]⟩

private theorem consoleInccur_settles (con t : ConIdx) (forceCurrent : Bool) (inc : ConInc) :
    Settles (At con forceCurrent t)
      (fun n : Nat => consoleInccur (Driver.calls con (n + 1)) con inc forceCurrent) := by
  refine Settles.of_within
    (fun n => consoleInccur_sound (calls_sound con (n + 1)) inc)
    (fun d d' hAt hChanged => (hChanged hAt).stays hAt) ?_
  intro d hAt
  have hRound : Settles (fun r : ConsoleState × Driver => At con forceCurrent t r.2)
      (fun n : Nat => inccurRound (Driver.calls con (n + 1)) con forceCurrent) := by
    rintro ⟨st, d⟩ hAt
    obtain ⟨d', hAt', hScroll⟩ := consoleScroll_settles con t forceCurrent 1 d hAt
    simp only [inccurRound, hScroll]
    split
    · split
      · split
        · by_cases hOn : st.conScroll = true
          · simp only [hOn, if_true, Option.map_some]
            exact ⟨_, by exact hAt', fun _ => rfl⟩
          · simp only [hOn]
            exact ⟨_, by exact hAt, fun _ => rfl⟩
        · exact ⟨_, hAt, fun _ => rfl⟩
      · split
        · exact ⟨_, by exact hAt, fun _ => rfl⟩
        · exact ⟨_, hAt, fun _ => rfl⟩
    · exact ⟨_, by exact hAt, fun _ => rfl⟩
  obtain ⟨r, _, hRounds⟩ := hRound.repeatM
    (inc.numChars (d.constate (d.term.out con forceCurrent)))
    (d.constate (d.term.out con forceCurrent), d) hAt
  refine ⟨inccurEnd con forceCurrent r, fun n => ?_⟩
  simp only [consoleInccur, hRounds n, Option.map_some]

theorem consolePutchar_ends {con : ConIdx} {d : Driver} (h : d.OnScreen con) (c : Byte) :
    ∃ d', Changed con d d' ∧
      ∀ n : Nat, consolePutchar (Driver.calls con (n + 1)) con c d = some d' := by
  obtain ⟨d', hEnds⟩ := consolePutchar_settles
    (fun n : Nat => Driver.calls con (n + 1)) con (d := d)
    (fun inc d1 hState => by
      have hAt : At con false con d1 :=
        ⟨rfl, by rw [hState]; exact h.column, by rw [hState]; exact h.row⟩
      obtain ⟨d', _, hEnd⟩ := consoleInccur_settles con con false inc d1 hAt
      exact ⟨d', hEnd⟩) c
  exact ⟨d', consolePutchar_sound (calls_sound con 1) c _ _ (hEnds 0) ⟨rfl, h⟩, hEnds⟩

private theorem consoleEcho_ends (con : ConIdx) {d : Driver}
    (h : d.OnScreen d.term.currentConsole) (c : Byte) :
    ∃ d', Changed d.term.currentConsole d d' ∧
      ∀ n : Nat, consoleEcho (Driver.calls con (n + 1)) con c d = some d' := by
  obtain ⟨d', hEnds⟩ := consoleEcho_settles
    (fun n : Nat => Driver.calls con (n + 1)) con (d := d) rfl
    (fun inc d1 hCur hState => by
      have hAt : At con true d.term.currentConsole d1 :=
        ⟨hCur, by rw [hState]; exact h.column, by rw [hState]; exact h.row⟩
      obtain ⟨d', _, hEnd⟩ := consoleInccur_settles con _ true inc d1 hAt
      exact ⟨d', hEnd⟩) c
  exact ⟨d', consoleEcho_sound (calls_sound con 1) c _ _ (hEnds 0) ⟨rfl, h⟩, hEnds⟩

end Settle

/-! ## Operations -/

/-- All cursors are on the screen, and all cells written were cells of it. -/
structure InBounds (d : Driver) : Prop where
  onScreen : ∀ c, d.OnScreen c
  written : ∀ w ∈ d.written, w.index < numRows * numCols

theorem InBounds.moved {t : ConIdx} {d d' : Driver} (h : InBounds d)
    (hMoved : Moved t d d') : InBounds d' where
  onScreen c := by
    by_cases hc : c = t
    · rw [hc]
      exact hMoved.onScreen
    · have hSame : d'.constate c = d.constate c :=
        congrArg Console.constate (hMoved.others hc)
      exact ⟨by rw [hSame]; exact (h.onScreen c).column,
        by rw [hSame]; exact (h.onScreen c).row⟩
  written w hw := by
    obtain ⟨ws, hWritten, hIndex⟩ := hMoved.written
    rw [hWritten] at hw
    rcases List.mem_append.1 hw with hw | hw
    · exact h.written w hw
    · exact hIndex w hw

theorem bkspMove_onScreen {st : ConsoleState} (hColumn : st.vcurX < numCols)
    (hRow : st.vcurY < numRows) :
    (bkspMove st).vcurX < numCols ∧ (bkspMove st).vcurY < numRows ∧
      (bkspMove st).conWrap = st.conWrap := by
  have hLast : numCols - 1 < numCols := by decide
  unfold bkspMove
  split
  · split
    · exact ⟨show 0 < numCols by decide, show 0 < numRows by decide, rfl⟩
    · refine ⟨hLast, ?_, rfl⟩
      simp only
      split
      · omega
      · exact hRow
  · split
    · exact ⟨by simp only; omega, hRow, rfl⟩
    · exact ⟨hColumn, hRow, rfl⟩

/-- The cursor goes back, a blank is echoed there, the cursor goes back. -/
theorem consoleBksp_ends (con : ConIdx) {d : Driver}
    (h : d.OnScreen d.term.currentConsole) :
    ∃ d', Moved d.term.currentConsole d d' ∧
      ∀ n : Nat, consoleBksp (Driver.calls con (n + 1 + 1)) d = some d' := by
  generalize hCur : d.term.currentConsole = cur at h
  obtain ⟨hColumn, hRow, hWrap⟩ := bkspMove_onScreen h.column h.row
  have hOff := Moved.setConstate d cur { d.constate cur with vcurAutoincEn := false }
    rfl h.column h.row
  have hBack := hOff.trans (Moved.setConstate _ cur (bkspMove (d.constate cur))
    (hWrap.trans hOff.wrap.symm) hColumn hRow)
  simp only [consoleBksp, hCur]
  generalize (d.setConstate cur { d.constate cur with vcurAutoincEn := false }).setConstate
    cur (bkspMove (d.constate cur)) = d1 at hBack
  obtain ⟨d2, hEcho, hEnds⟩ := consoleEcho_ends con (d := d1)
    (by rw [hBack.displayed, hCur]; exact hBack.onScreen) space
  rw [hBack.displayed, hCur] at hEcho
  have hBlank := hBack.trans hEcho.toMoved
  have hOn := hBlank.trans (Moved.setConstate d2 cur
    { d2.constate cur with vcurAutoincEn := true } rfl hBlank.onScreen.column
    hBlank.onScreen.row)
  have hEnd := hOn.trans (Moved.setConstate _ cur (bkspMove (d.constate cur))
    (hWrap.trans hOn.wrap.symm) hColumn hRow)
  have hCursor := hEnd.trans (Changed.refresh hEnd.onScreen).toMoved
  refine ⟨_, hCursor, fun n => ?_⟩
  have hRun : (Driver.calls con (n + 1 + 1)).echo space d1 = some d2 := hEnds n
  rw [hRun, Option.map_some]

private theorem consoleClrsc_moved (d : Driver) : Moved d.term.currentConsole d d.consoleClrsc := by
  generalize hCur : d.term.currentConsole = cur
  have hTerm : d.consoleClrsc.term =
      d.term.put cur { d.constate cur with vcurX := 0, vcurY := 0 }
        (d.term.vterms cur).vidBuf (clear d.term).video := by
    rw [consoleClrsc, consoleRefreshPcur, vgaSetCursorPos_term, ← hCur]
    exact setConstate_eq_put _ _ _
  have hWritten : d.consoleClrsc.written = d.written := by
    rw [consoleClrsc, consoleRefreshPcur, vgaSetCursorPos_written]
    rfl
  exact Moved.of_put [] hTerm rfl (show 0 < numCols by decide) (show 0 < numRows by decide)
    (hWritten.trans (List.append_nil _).symm) fun _ hw => absurd hw List.not_mem_nil

theorem InBounds.swap {d : Driver} (h : InBounds d) (newIdx : Int) :
    InBounds (d.vtermSwapConsole newIdx) := by
  unfold vtermSwapConsole
  split
  · rename_i hRange
    simp only
    split
    · generalize hNew : (⟨newIdx.toNat, by omega⟩ : ConIdx) = new
      generalize hSwapped : ({ d with term := swapTo new d.term } : Driver) = d1
      have hState : ∀ c, d1.constate c = d.constate c := by
        intro c
        rw [← hSwapped]
        exact swapTo_constate d.term new c
      have hWritten : d1.written = d.written := by rw [← hSwapped]
      have hEnd : ∀ c, (vgaEnableCursor true (Driver.vgaSetCursorPos
          (d1.constate new).vcurX (d1.constate new).vcurY d1)).constate c =
            d.constate c := by
        intro c
        rw [← hState c]
        exact congrArg (Terminal.constate · c) (vgaSetCursorPos_term _ _ d1)
      refine ⟨fun c => ⟨?_, ?_⟩, fun w hw => ?_⟩
      · rw [hEnd c]
        exact (h.onScreen c).column
      · rw [hEnd c]
        exact (h.onScreen c).row
      · refine h.written w ?_
        rw [← hWritten, ← vgaSetCursorPos_written (d1.constate new).vcurX
          (d1.constate new).vcurY d1]
        exact hw
    · exact h
  · exact h

end Driver

/-- The step lemma: every operation ends, at the same result for all depths. -/
theorem DriverOp.run_settles (op : DriverOp) :
    Settles Driver.InBounds (fun (n : Nat) d => op.run (n + 1) d) := by
  intro d h
  cases op with
  | putchar con c =>
      obtain ⟨d', hChanged, hEnds⟩ := Driver.consolePutchar_ends (h.onScreen con) c
      exact ⟨d', h.moved hChanged.toMoved, hEnds⟩
  | echo con c =>
      obtain ⟨d', hChanged, hEnds⟩ := Driver.consoleEcho_ends con (h.onScreen _) c
      exact ⟨d', h.moved hChanged.toMoved, hEnds⟩
  | bksp con =>
      obtain ⟨d', hMoved, hEnds⟩ := Driver.consoleBksp_ends con (h.onScreen _)
      exact ⟨d', h.moved hMoved, hEnds⟩
  | linefeed con forceCurrent =>
      have hAt : Driver.At con forceCurrent (d.term.out con forceCurrent) d :=
        ⟨rfl, h.onScreen _⟩
      obtain ⟨d', _, hEnds⟩ := Driver.consoleInccur_settles con _ forceCurrent
        .linereturn d hAt
      have hChanged := Driver.consoleInccur_sound (Driver.calls_sound con 1) .linereturn
        _ _ (hEnds 0) hAt
      exact ⟨d', h.moved hChanged.toMoved, hEnds⟩
  | clrsc => exact ⟨d.consoleClrsc, h.moved d.consoleClrsc_moved, fun _ => rfl⟩
  | scroll con lines forceCurrent =>
      have hAt : Driver.At con forceCurrent (d.term.out con forceCurrent) d :=
        ⟨rfl, h.onScreen _⟩
      obtain ⟨d', _, hEnds⟩ := Driver.consoleScroll_settles con _ forceCurrent lines d hAt
      have hChanged := Driver.consoleScroll_sound (Driver.calls_sound con 1) lines
        _ _ (hEnds 0) hAt
      exact ⟨d', h.moved hChanged.toMoved, hEnds⟩
  | swap newIdx => exact ⟨d.vtermSwapConsole newIdx, h.swap newIdx, fun _ => rfl⟩

/-- The run lemma. -/
theorem runOps_settles (ops : List DriverOp) :
    Settles Driver.InBounds (fun (n : Nat) d => runOps (n + 1) ops d) := by
  induction ops with
  | nil => exact fun d h => ⟨d, h, fun _ => rfl⟩
  | cons op ops ih => exact (op.run_settles).bind ih

/-- The driver after initialisation. -/
def bootDriver (video : Nat → VgaChar) (padding : ConIdx → Nat → Byte)
    (behind : Nat → Byte) (cursorAddr : Nat) (cursorShown : Bool) : Driver where
  term := bootTerminal video padding behind
  cursorAddr := cursorAddr
  cursorShown := cursorShown
  written := []

theorem bootDriver_inBounds (video : Nat → VgaChar) (padding : ConIdx → Nat → Byte)
    (behind : Nat → Byte) (cursorAddr : Nat) (cursorShown : Bool) :
    (bootDriver video padding behind cursorAddr cursorShown).InBounds where
  onScreen c :=
    have hReady := (sane_boot video padding behind).ready c
    ⟨hReady.column, hReady.row⟩
  written _ hw := absurd hw List.not_mem_nil

/-- Any sequence of operations ends, with calls two deep.  Then all cursors are on
the screen, and every cell that was written is one of the 2000 of a buffer or of
the screen. -/
theorem driver_bounds (video : Nat → VgaChar) (padding : ConIdx → Nat → Byte)
    (behind : Nat → Byte) (cursorAddr : Nat) (cursorShown : Bool)
    (ops : List DriverOp) :
    ∃ d, (∀ n, runOps (n + 1) ops
        (bootDriver video padding behind cursorAddr cursorShown) = some d) ∧
      (∀ c, (d.constate c).vcurX < 80 ∧ (d.constate c).vcurY < 25) ∧
      ∀ w ∈ d.written, w.index < 2000 := by
  obtain ⟨d, hBounds, hEnds⟩ := runOps_settles ops _
    (bootDriver_inBounds video padding behind cursorAddr cursorShown)
  exact ⟨d, hEnds, fun c => ⟨(hBounds.onScreen c).column, (hBounds.onScreen c).row⟩,
    hBounds.written⟩

end CompE.Vterm
