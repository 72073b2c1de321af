import CompE.Vterm.Recursion

/-!
# The consoles without the recursion

`Screen` has the functions of the driver with the recursion cut at the place
where it ends, and without the hardware cursor.  Here the functions of `Driver`,
at any depth of calls, are shown to do on the consoles what those of `Screen`
do.  What is proved of the consoles and the screen there holds of the driver as
it is.
-/

namespace CompE.Vterm

open CompE.Library
open CompE.Kernel (Byte)

namespace Driver

/-! ## The parts that call nothing -/

section Parts

variable {con t : ConIdx} {forceCurrent : Bool} {d : Driver}

private theorem scrollStart_term (h : At con forceCurrent t d) :
    (d.scrollStart con forceCurrent).term =
      (moveUp t d.term).setConstate t
        { (moveUp t d.term).constate t with
          vcurX := 0, vcurY := numRows - 1, vcurAutoincEn := true
          conScroll := false } := by
  have hUp := Changed.moveUp h.onScreen
  simp only [scrollStart, h.out]
  rw [scrollCursor_eq (hUp.out con forceCurrent |>.trans h.out) (by decide) (by decide),
    setConstate_constate]
  exact setConstate_setConstate _ _ _ _

private theorem scrollEnd_term (h : At con forceCurrent t d) {x y : Nat} (hx : x < numCols)
    (hy : y < numRows) :
    (scrollEnd con forceCurrent x y d).term =
      d.term.setConstate t
        { d.term.constate t with vcurX := x, vcurY := y, conScroll := true } := by
  simp only [scrollEnd, h.out, scrollCursor_eq h.out hx hy]
  have hOn : ∀ (st : ConsoleState) (d2 : Driver), d2.term = (d.setConstate t st).term →
      (d2.setConstate t { d2.constate t with conScroll := true }).term =
        d.term.setConstate t { st with conScroll := true } := by
    intro st d2 hTerm
    have hState : d2.constate t = st := by
      rw [constate, hTerm]
      exact setConstate_constate d t st
    rw [hState]
    simp only [setConstate, hTerm]
    exact setConstate_setConstate _ _ _ _
  refine hOn { d.constate t with vcurX := x, vcurY := y } _ ?_
  split
  · exact vgaSetCursorPos_term _ _ _
  · rfl

private theorem inccurEnd_term (st : ConsoleState) (d : Driver) :
    (inccurEnd con forceCurrent (st, d)).term =
      d.term.setConstate (d.term.out con forceCurrent) st := by
  simp only [inccurEnd]
  split
  · exact vgaSetCursorPos_term _ _ _
  · rfl

end Parts

/-! ## Advancing the cursor -/

/-- The console state copied by `console_inccur`, and the consoles. -/
def inccurView (r : ConsoleState × Driver) : ConsoleState × Terminal :=
  (r.1, r.2.term)

private theorem inccurStep_conScroll {α : Type} (scroll : α → α) (r : ConsoleState × α) :
    (inccurStep scroll r).1.conScroll = r.1.conScroll := by
  simp only [inccurStep]
  split
  · split
    · split
      · rfl
      · rfl
    · split
      · rfl
      · rfl
  · rfl

section Inccur

variable {con t : ConIdx} {forceCurrent : Bool} {calls : Calls}
  {scroll : ConIdx → Bool → Terminal → Terminal}

/-- A round, if `console_scroll` is `scroll` on the consoles. -/
theorem inccurRound_view (scroll : ConIdx → Bool → Terminal → Terminal)
    {r r' : ConsoleState × Driver}
    (hScroll : r.1.conScroll = true → ∀ d',
      consoleScroll calls con 1 forceCurrent r.2 = some d' →
        d'.term = scroll con forceCurrent r.2.term)
    (hRound : inccurRound calls con forceCurrent r = some r') :
    inccurView r' = inccurStep (scroll con forceCurrent) (inccurView r) := by
  obtain ⟨st, d⟩ := r
  simp only [inccurRound] at hRound
  show inccurView r' = inccurStep (scroll con forceCurrent) (st, d.term)
  simp only [inccurStep]
  split at hRound
  · rename_i hColumn
    split at hRound
    · rename_i hRow
      split at hRound
      · rename_i hWrap
        obtain ⟨d2, hDown, rfl⟩ := Option.map_eq_some_iff.1 hRound
        rw [if_pos hColumn, if_pos hRow, if_pos hWrap]
        split at hDown
        · rename_i hOn
          rw [if_pos hOn, ← hScroll hOn d2 hDown]
          rfl
        · rename_i hOff
          cases hDown
          rw [if_neg hOff]
          rfl
      · rename_i hWrap
        cases hRound
        rw [if_pos hColumn, if_pos hRow, if_neg hWrap]
        rfl
    · rename_i hRow
      split at hRound
      · rename_i hWrap
        cases hRound
        rw [if_pos hColumn, if_neg hRow, if_pos hWrap]
        rfl
      · rename_i hWrap
        cases hRound
        rw [if_pos hColumn, if_neg hRow, if_neg hWrap]
        rfl
  · rename_i hColumn
    cases hRound
    rw [if_neg hColumn]
    rfl

private theorem consoleInccur_view {p : ConsoleState × Driver → Prop}
    (hRound : Refines p inccurView (inccurRound calls con forceCurrent)
      (inccurStep (scroll con forceCurrent)))
    {d d' : Driver} (h : p (d.constate (d.term.out con forceCurrent), d)) (inc : ConInc)
    (hRun : consoleInccur calls con inc forceCurrent d = some d') :
    d'.term = inccurWith scroll inc con forceCurrent d.term := by
  simp only [consoleInccur] at hRun
  obtain ⟨⟨st, d1⟩, hLoop, rfl⟩ := Option.map_eq_some_iff.1 hRun
  obtain ⟨_, hView⟩ := hRound.repeatM _ _ _ hLoop h
  rw [inccurEnd_term]
  simp only [inccurView, constate] at hView
  simp only [inccurWith, ← hView]

/-- While a row is emptied. -/
theorem consoleInccur_term_unscrolled {d d' : Driver}
    (hOff : (d.constate (d.term.out con forceCurrent)).conScroll = false) (inc : ConInc)
    (hRun : consoleInccur calls con inc forceCurrent d = some d') :
    d'.term = inccurWith (fun _ _ s => s) inc con forceCurrent d.term := by
  refine consoleInccur_view (p := fun r => r.1.conScroll = false) ?_ hOff inc hRun
  intro r r' hRound hOff
  have hView := inccurRound_view (fun _ _ s => s)
    (fun hOn => absurd hOn (by rw [hOff]; decide)) hRound
  refine ⟨?_, hView⟩
  have hState := congrArg (·.1.conScroll) hView
  simp only [inccurStep_conScroll] at hState
  exact hState.trans hOff

private theorem consoleInccur_term (hCalls : SoundCalls con calls)
    (hScroll : ∀ d d', At con forceCurrent t d →
      consoleScroll calls con 1 forceCurrent d = some d' →
        d'.term = scroll con forceCurrent d.term)
    {d d' : Driver} (h : At con forceCurrent t d) (inc : ConInc)
    (hRun : consoleInccur calls con inc forceCurrent d = some d') :
    d'.term = inccurWith scroll inc con forceCurrent d.term := by
  refine consoleInccur_view (p := Copied t d) ?_ ?_ inc hRun
  · intro r r' hRound hCopied
    exact ⟨inccurRound_copied hCalls h hCopied hRound,
      inccurRound_view scroll (fun _ d2 hDown =>
        hScroll r.2 d2 (hCopied.changed.stays h) hDown) hRound⟩
  · rw [h.out]
    exact ⟨Changed.refl h.onScreen, rfl, rfl, h.onScreen.column, h.onScreen.row⟩

end Inccur

/-! ## Characters -/

section Characters

variable {con t : ConIdx} {calls : Calls} {d d' : Driver}
  {inccur : ConInc → ConIdx → Bool → Terminal → Terminal}

/-- A character stored in the buffer and on the screen. -/
theorem written_term {forceCurrent : Bool} (hOut : d.term.out con forceCurrent = t)
    (hShown : d.term.shown con forceCurrent = true) (c : Byte) :
    (((d.writeBuffer t (d.constate t).cursor ((d.constate t).styled c)).writeScreen
        (d.constate t).cursor ((d.constate t).styled c)).setConstate t
      (d.constate t)).term = storeChar con forceCurrent c d.term := by
  have hStore := storeChar_put (d.term.constate t) (d.term.vterms t).vidBuf d.term.video
    c hOut
  rw [put_self, if_pos hShown] at hStore
  rw [hStore, setConstate_term, writeScreen_term _ t]
  simp [Driver.writeBuffer, constate]

/-- A character stored in the buffer only. -/
theorem buffered_term {forceCurrent : Bool} (hOut : d.term.out con forceCurrent = t)
    (hShown : ¬ d.term.shown con forceCurrent = true) (c : Byte) :
    ((d.writeBuffer t (d.constate t).cursor ((d.constate t).styled c)).setConstate t
      (d.constate t)).term = storeChar con forceCurrent c d.term := by
  have hStore := storeChar_put (d.term.constate t) (d.term.vterms t).vidBuf d.term.video
    c hOut
  rw [put_self, if_neg hShown] at hStore
  rw [hStore, setConstate_term]
  simp [Driver.writeBuffer, constate]

/-- `console_putchar`, if `console_inccur` is `inccur` on the consoles. -/
theorem consolePutchar_term
    (hInccur : ∀ (inc : ConInc) (d1 d2 : Driver), d1.constate con = d.constate con →
      consoleInccur calls con inc false d1 = some d2 →
        d2.term = inccur inc con false d1.term) (c : Byte)
    (hRun : consolePutchar calls con c d = some d') :
    d'.term = putcharWith inccur con false c d.term := by
  unfold consolePutchar at hRun
  unfold putcharWith
  split at hRun
  · rename_i hChar
    rw [if_pos hChar]
    exact hInccur .linereturn d d' rfl hRun
  · rename_i hChar
    rw [if_neg hChar]
    simp only at hRun
    generalize hStyled : ({ codept := c, style := (d.constate con).charstyle.style } : VgaChar)
      = outchar at hRun
    generalize hBuffer : d.writeBuffer con (d.constate con).cursor outchar = d1 at hRun
    generalize hStored : (if con.val = (d1.term.vterms d1.term.currentConsole).id then
      d1.writeScreen (d.constate con).cursor outchar else d1).setConstate con
        (d.constate con) = d3 at hRun
    have hShown : d.term.shown con false = true ↔
        con.val = (d1.term.vterms d1.term.currentConsole).id := by
      rw [← hBuffer]
      simp [Terminal.shown, Driver.writeBuffer]
    have hTerm : d3.term = storeChar con false c d.term := by
      rw [← hStored]
      by_cases hId : con.val = (d1.term.vterms d1.term.currentConsole).id
      · rw [if_pos hId, ← hBuffer, ← hStyled]
        exact written_term rfl (hShown.2 hId) c
      · rw [if_neg hId, ← hBuffer, ← hStyled]
        exact buffered_term rfl (fun h => hId (hShown.1 h)) c
    have hState : d3.constate con = d.constate con := by
      rw [← hStored, setConstate_constate]
    obtain ⟨d4, hNext, hEnd⟩ := Option.map_eq_some_iff.1 hRun
    have hEndTerm : d'.term = d4.term := by
      rw [← hEnd]
      split
      · exact vgaSetCursorPos_term _ _ _
      · rfl
    rw [hEndTerm, ← hTerm]
    simp only
    have hAutoinc : (d.term.constate (d.term.out con false)).vcurAutoincEn =
        (d.constate con).vcurAutoincEn := rfl
    rw [hAutoinc]
    split at hNext
    · rename_i hOn
      rw [if_pos hOn]
      exact hInccur .char d3 d4 hState hNext
    · rename_i hOff
      cases hNext
      rw [if_neg hOff]

/-- `console_echo` likewise. -/
theorem consoleEcho_term (hCur : d.term.currentConsole = t)
    (hInccur : ∀ (inc : ConInc) (d1 d2 : Driver), d1.term.currentConsole = t →
      d1.constate t = d.constate t → consoleInccur calls con inc true d1 = some d2 →
        d2.term = inccur inc con true d1.term) (c : Byte)
    (hRun : consoleEcho calls con c d = some d') :
    d'.term = putcharWith inccur con true c d.term := by
  unfold consoleEcho at hRun
  unfold putcharWith
  split at hRun
  · rename_i hChar
    rw [if_pos hChar]
    exact hInccur .linereturn d d' hCur rfl hRun
  · rename_i hChar
    rw [if_neg hChar]
    simp only [hCur] at hRun
    generalize hStyled : ({ codept := c, style := (d.constate t).charstyle.style } : VgaChar)
      = outchar at hRun
    generalize hWritten : (d.writeBuffer t (d.constate t).cursor outchar).writeScreen
      (d.constate t).cursor outchar = d2 at hRun
    have hCur2 : d2.term.currentConsole = t := by
      rw [← hWritten]
      exact hCur
    rw [hCur2] at hRun
    have hOut : d.term.out con true = t := hCur
    have hTerm : (d2.setConstate t (d.constate t)).term = storeChar con true c d.term := by
      rw [← hWritten, ← hStyled]
      exact written_term hOut rfl c
    have hCur3 : (d2.setConstate t (d.constate t)).term.currentConsole = t := hCur2
    have hState := setConstate_constate d2 t (d.constate t)
    generalize d2.setConstate t (d.constate t) = d3 at hRun hTerm hCur3 hState
    obtain ⟨d4, hNext, hEnd⟩ := Option.map_eq_some_iff.1 hRun
    have hEndTerm : d'.term = d4.term := by
      rw [← hEnd, setConstate_term, vgaSetCursorPos_term]
      exact put_self _ _
    rw [hEndTerm, ← hTerm]
    simp only
    have hAutoinc : (d.term.constate (d.term.out con true)).vcurAutoincEn =
        (d.constate t).vcurAutoincEn := by rw [hOut]; rfl
    rw [hAutoinc]
    split at hNext
    · rename_i hOn
      rw [if_pos hOn]
      exact hInccur .char d3 d4 hCur3 hState hNext
    · rename_i hOff
      cases hNext
      rw [if_neg hOff]

end Characters

/-! ## Scrolling, to any depth -/

section Scroll

variable (con t : ConIdx) (forceCurrent : Bool) (n : Nat)

private theorem scrollChar_refines :
    Refines (fun d => At con forceCurrent t d ∧ (d.constate t).conScroll = false)
      Driver.term (scrollChar (Driver.calls con n) forceCurrent)
      (putcharUnscrolled con forceCurrent space) := by
  rintro d d' hChar ⟨hAt, hOff⟩
  have hChanged := calls_sound con n forceCurrent t d d' hChar hAt
  refine ⟨⟨hChanged.stays hAt, hChanged.scroll.trans hOff⟩, ?_⟩
  cases n with
  | zero =>
      cases forceCurrent with
      | true => cases hChar
      | false => cases hChar
  | succ n =>
      cases forceCurrent with
      | true =>
          refine consoleEcho_term hAt.out ?_ space hChar
          intro inc d1 d2 hCur hState hNext
          have hOut : d1.term.out con true = t := hCur
          exact consoleInccur_term_unscrolled (by rw [hOut, hState, hOff]) inc hNext
      | false =>
          have hCon : con = t := hAt.out
          subst hCon
          refine consolePutchar_term ?_ space hChar
          intro inc d1 d2 hState hNext
          have hOut : d1.term.out con false = con := rfl
          exact consoleInccur_term_unscrolled (by rw [hOut, hState, hOff]) inc hNext

private theorem scrollLine_refines :
    Refines (fun d => At con forceCurrent t d ∧ (d.constate t).conScroll = true)
      Driver.term (scrollLine (Driver.calls con n) con forceCurrent)
      (scrollLineWith putcharUnscrolled con forceCurrent) := by
  rintro d d' hLine ⟨hAt, hOn⟩
  have hChanged := scrollLine_changed (calls_sound con n) hAt hOn hLine
  refine ⟨⟨hChanged.stays hAt, hChanged.scroll.trans hOn⟩, ?_⟩
  have hOut : d.term.out con forceCurrent = t := hAt.out
  simp only [scrollLine, hOut] at hLine
  obtain ⟨d2, hLoop, hEnd⟩ := Option.map_eq_some_iff.1 hLine
  obtain ⟨hStart, hOff⟩ := scrollStart_moved hAt
  obtain ⟨⟨hRowAt, _⟩, hRow⟩ := (scrollChar_refines con t forceCurrent n).repeatM numCols
    _ _ hLoop ⟨hStart.stays hAt, hOff⟩
  rw [← hEnd, scrollEnd_term hRowAt hAt.onScreen.column hAt.onScreen.row, hRow,
    scrollStart_term hAt]
  simp only [scrollLineWith, hOut]
  rfl

private theorem consoleScroll_refines (lines : BitVec 32) :
    Refines (At con forceCurrent t) Driver.term
      (consoleScroll (Driver.calls con n) con lines forceCurrent)
      (scrollWith putcharUnscrolled lines.toInt.toNat con forceCurrent) := by
  intro d d' hRun hAt
  have hChanged := consoleScroll_sound (calls_sound con n) lines _ _ hRun hAt
  refine ⟨hChanged.stays hAt, ?_⟩
  have hOut : d.term.out con forceCurrent = t := hAt.out
  simp only [consoleScroll, hOut] at hRun
  simp only [scrollWith, hOut]
  split at hRun
  · rename_i hOn
    obtain ⟨_, hLines⟩ := (scrollLine_refines con t forceCurrent n).repeatM
      lines.toInt.toNat _ _ hRun ⟨hAt, hOn⟩
    rw [hLines]
    exact (if_pos hOn).symm
  · rename_i hOff
    cases hRun
    exact (if_neg hOff).symm

private theorem consoleInccur_refines (inc : ConInc) :
    Refines (At con forceCurrent t) Driver.term
      (consoleInccur (Driver.calls con n) con inc forceCurrent)
      (CompE.Vterm.consoleInccur inc con forceCurrent) := by
  intro d d' hRun hAt
  have hChanged := consoleInccur_sound (calls_sound con n) inc _ _ hRun hAt
  refine ⟨hChanged.stays hAt, ?_⟩
  refine consoleInccur_term (calls_sound con n) ?_ hAt inc hRun
  intro d1 d2 hAt1 hDown
  exact (consoleScroll_refines con t forceCurrent n 1 d1 d2 hDown hAt1).2

end Scroll

/-! ## The operations -/

section Operations

variable {con : ConIdx} {n : Nat} {d d' : Driver}

private theorem consolePutchar_refines (h : d.OnScreen con) {c : Byte}
    (hRun : consolePutchar (Driver.calls con n) con c d = some d') :
    d'.term = CompE.Vterm.consolePutchar con c d.term := by
  refine consolePutchar_term ?_ c hRun
  intro inc d1 d2 hState hNext
  have hAt : At con false con d1 :=
    ⟨rfl, by rw [hState]; exact h.column, by rw [hState]; exact h.row⟩
  exact (consoleInccur_refines con con false n inc d1 d2 hNext hAt).2

/-- The console of the process does not matter for an echo. -/
theorem consoleEcho_refines (h : d.OnScreen d.term.currentConsole) {c : Byte}
    (hRun : consoleEcho (Driver.calls con n) con c d = some d') :
    d'.term = CompE.Vterm.consoleEcho c d.term := by
  have hEcho : d'.term = putcharWith CompE.Vterm.consoleInccur con true c d.term := by
    refine consoleEcho_term rfl ?_ c hRun
    intro inc d1 d2 hCur hState hNext
    have hAt : At con true d.term.currentConsole d1 :=
      ⟨hCur, by rw [hState]; exact h.column, by rw [hState]; exact h.row⟩
    exact (consoleInccur_refines con _ true n inc d1 d2 hNext hAt).2
  exact hEcho

private theorem consoleBksp_refines (h : d.OnScreen d.term.currentConsole)
    (hRun : consoleBksp (Driver.calls con n) d = some d') :
    d'.term = CompE.Vterm.consoleBksp d.term := by
  unfold consoleBksp at hRun
  obtain ⟨d2, hEcho, hEnd⟩ := Option.map_eq_some_iff.1 hRun
  cases n with
  | zero => cases hEcho
  | succ n =>
      change consoleEcho (Driver.calls con n) con space _ = some d2 at hEcho
      obtain ⟨hColumn, hRow, _⟩ := bkspMove_onScreen h.column h.row
      have hBack : OnScreen
          ((d.setConstate d.term.currentConsole
            { d.constate d.term.currentConsole with vcurAutoincEn := false }).setConstate
              d.term.currentConsole (bkspMove (d.constate d.term.currentConsole)))
          d.term.currentConsole :=
        ⟨by rw [setConstate_constate]; exact hColumn,
          by rw [setConstate_constate]; exact hRow⟩
      have hEchoed := consoleEcho_refines hBack (c := space) hEcho
      rw [← hEnd, consoleRefreshPcur, vgaSetCursorPos_term]
      simp only [setConstate, constate, hEchoed]
      rfl

private theorem consoleClrsc_term (d : Driver) :
    d.consoleClrsc.term = CompE.Vterm.consoleClrsc d.term :=
  vgaSetCursorPos_term _ _ _

private theorem vtermSwapConsole_term (newIdx : Int) (d : Driver) :
    (d.vtermSwapConsole newIdx).term = CompE.Vterm.vtermSwapConsole newIdx d.term := by
  unfold vtermSwapConsole CompE.Vterm.vtermSwapConsole
  split
  · simp only
    split
    · exact vgaSetCursorPos_term _ _ _
    · rfl
  · rfl

end Operations

end Driver

/-- The operation on the consoles, without the recursion. -/
def DriverOp.onConsoles : DriverOp → Terminal → Terminal
  | .putchar con c => consolePutchar con c
  | .echo _ c => consoleEcho c
  | .bksp _ => consoleBksp
  | .linefeed con forceCurrent => consoleInccur .linereturn con forceCurrent
  | .clrsc => consoleClrsc
  | .scroll con lines forceCurrent =>
      scrollWith putcharUnscrolled lines.toInt.toNat con forceCurrent
  | .swap newIdx => vtermSwapConsole newIdx

/-- The step lemma. -/
theorem DriverOp.run_refines (op : DriverOp) {n : Nat} {d d' : Driver}
    (h : d.InBounds) (hRun : op.run n d = some d') : d'.term = op.onConsoles d.term := by
  cases op with
  | putchar con c => exact Driver.consolePutchar_refines (h.onScreen con) hRun
  | echo con c => exact Driver.consoleEcho_refines (h.onScreen _) hRun
  | bksp con => exact Driver.consoleBksp_refines (h.onScreen _) hRun
  | linefeed con forceCurrent =>
      exact (Driver.consoleInccur_refines con _ forceCurrent n .linereturn d d' hRun
        ⟨rfl, h.onScreen _⟩).2
  | clrsc =>
      cases hRun
      exact d.consoleClrsc_term
  | scroll con lines forceCurrent =>
      exact (Driver.consoleScroll_refines con _ forceCurrent n lines d d' hRun
        ⟨rfl, h.onScreen _⟩).2
  | swap newIdx =>
      cases hRun
      exact d.vtermSwapConsole_term newIdx

/-- The run lemma. -/
theorem runOps_refines (n : Nat) (ops : List DriverOp) :
    ∀ d d' : Driver, d.InBounds → runOps (n + 1) ops d = some d' →
      d'.term = ops.foldl (fun s op => op.onConsoles s) d.term := by
  induction ops with
  | nil =>
      intro d d' _ hRun
      cases hRun
      rfl
  | cons op ops ih =>
      intro d d' h hRun
      obtain ⟨d1, hOp, hRest⟩ := Option.bind_eq_some_iff.1 hRun
      obtain ⟨d2, hBounds, hEnds⟩ := op.run_settles d h
      have hSame : d1 = d2 := Option.some.inj (hOp.symm.trans (hEnds n))
      have hTerm := op.run_refines h hOp
      rw [List.foldl_cons, ← hTerm]
      exact ih d1 d' (hSame ▸ hBounds) hRest

/-- The operation among those of `consoles`; `console_scroll` is none of them. -/
def DriverOp.op : DriverOp → Option Op
  | .putchar con c => some (.putchar con c)
  | .echo _ c => some (.echo c)
  | .bksp _ => some .bksp
  | .linefeed con forceCurrent =>
      some (if forceCurrent then .echo newline else .putchar con newline)
  | .clrsc => some .clrsc
  | .scroll _ _ _ => none
  | .swap newIdx => some (.swap newIdx)

theorem DriverOp.onConsoles_op {op : DriverOp} {o : Op} (h : op.op = some o) :
    op.onConsoles = o.run := by
  cases op with
  | linefeed con forceCurrent =>
      cases forceCurrent with
      | true => cases h; rfl
      | false => cases h; rfl
  | scroll con lines forceCurrent => cases h
  | putchar con c => cases h; rfl
  | echo con c => cases h; rfl
  | bksp con => cases h; rfl
  | clrsc => cases h; rfl
  | swap newIdx => cases h; rfl

private theorem consoles_run_ops : ∀ (ops : List DriverOp) (os : List Op),
    ops.map DriverOp.op = os.map some → ∀ s : Terminal,
      ops.foldl (fun s op => op.onConsoles s) s = consoles.run s os := by
  intro ops
  induction ops with
  | nil =>
      intro os h s
      have hNil : os = [] := List.map_eq_nil_iff.1 h.symm
      rw [hNil]
      rfl
  | cons op ops ih =>
      intro os h s
      cases os with
      | nil => cases h
      | cons o os =>
          obtain ⟨hOp, hOps⟩ := List.cons.inj h
          rw [List.foldl_cons, ih os hOps, DriverOp.onConsoles_op hOp]
          rfl

/-- From initialisation on, the driver with its recursion and its cursor leaves the
consoles and the screen as `consoles` does, at any depth of calls. -/
theorem driver_refines (video : Nat → VgaChar) (padding : ConIdx → Nat → Byte)
    (behind : Nat → Byte) (cursorAddr : Nat) (cursorShown : Bool)
    (ops : List DriverOp) (os : List Op) (hOps : ops.map DriverOp.op = os.map some) :
    ∃ d, (∀ n, runOps (n + 1) ops
        (bootDriver video padding behind cursorAddr cursorShown) = some d) ∧
      d.term = consoles.run (bootTerminal video padding behind) os := by
  have hBounds := bootDriver_inBounds video padding behind cursorAddr cursorShown
  obtain ⟨d, _, hEnds⟩ := runOps_settles ops _ hBounds
  refine ⟨d, hEnds, ?_⟩
  rw [runOps_refines 0 ops _ d hBounds (hEnds 0), consoles_run_ops ops os hOps]
  rfl

end CompE.Vterm
