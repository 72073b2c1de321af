import CompE.Vterm.Recursion

/-!
# `console_putchar` and `console_echo`

The two are the same text, with the console of the process here and the one
displayed there, and they pass `force_current` on to `console_inccur` and
`console_scroll`, which test it in six places.  If the process is on the console
that is displayed, all these tests make no difference, `putchar_eq_echo`: what
one function leaves the other leaves, at any depth of the recursion.
-/

namespace CompE.Vterm

open CompE.Library
open CompE.Kernel (Byte)

namespace Driver

/-- Console `t` is displayed and marked current, and its cursor is on the
screen.  Nothing is said of its modes. -/
structure Shown (t : ConIdx) (d : Driver) : Prop where
  displayed : d.term.currentConsole = t
  id : (d.term.vterms t).id = t.val
  current : (d.term.vterms t).current = true
  onScreen : d.OnScreen t

section Shown

variable {t : ConIdx} {d d' : Driver} (h : Shown t d)

include h

theorem Shown.out (forceCurrent : Bool) : d.term.out t forceCurrent = t := by
  cases forceCurrent with
  | true => exact h.displayed
  | false => rfl

theorem Shown.stands (forceCurrent : Bool) : At t forceCurrent t d :=
  ⟨h.out forceCurrent, h.onScreen⟩

theorem Shown.moved (hMoved : Moved t d d') : Shown t d' where
  displayed := hMoved.displayed.trans h.displayed
  id := (hMoved.id t).trans h.id
  current := (hMoved.current t).trans h.current
  onScreen := hMoved.onScreen

private theorem scrollStart_same : d.scrollStart t false = d.scrollStart t true := by
  have hUp := Changed.moveUp h.onScreen
  have hFalse := (hUp.out t false).trans (h.out false)
  have hTrue := (hUp.out t true).trans (h.out true)
  simp only [scrollStart, h.out]
  rw [scrollCursor_eq hFalse (by decide) (by decide),
    scrollCursor_eq hTrue (by decide) (by decide)]

private theorem scrollEnd_same {x y : Nat} (hx : x < numCols) (hy : y < numRows) :
    scrollEnd t false x y d = scrollEnd t true x y d := by
  have hBack := Moved.setConstate d t { d.constate t with vcurX := x, vcurY := y }
    rfl hx hy
  simp only [scrollEnd, h.out, scrollCursor_eq (h.out _) hx hy,
    (h.moved hBack).current, Bool.true_or]

/-- Both tests of `console_inccur` see the console that is displayed. -/
theorem inccurEnd_same (st : ConsoleState) :
    inccurEnd t false (st, d) = inccurEnd t true (st, d) := by
  have hDisplayed : (d.setConstate t st).term.currentConsole = t := h.displayed
  simp only [inccurEnd, h.out, hDisplayed, beq_self_eq_true, Bool.or_true]

end Shown

private theorem setConstate_self (d : Driver) (t : ConIdx) :
    d.setConstate t (d.constate t) = d := by
  have hTerm : d.term.setConstate t (d.term.constate t) = d.term := by
    rw [setConstate_eq_put, put_self]
  rw [setConstate, constate, hTerm]

/-! ## Each function, if its calls are alike -/

section Functions

variable {t : ConIdx} {calls : Calls} (hSound : SoundCalls t calls)
  (hSame : ∀ d, Shown t d → scrollChar calls false d = scrollChar calls true d)

include hSound hSame

private theorem scrollLine_same {d : Driver} (h : Shown t d) :
    scrollLine calls t false d = scrollLine calls t true d := by
  have hStart := h.moved (scrollStart_moved (h.stands true)).1
  have hRow := repeatM_congr (p := Shown t)
    (fun d d' hShown hChar =>
      hShown.moved (hSound false t d d' hChar (hShown.stands false)).toMoved)
    hSame numCols _ hStart
  simp only [scrollLine, h.out, scrollStart_same h, hRow]
  cases hLoop : repeatM (scrollChar calls true) numCols (d.scrollStart t true) with
  | none => rfl
  | some d1 =>
      have hChanged := (hSound true t).repeatM numCols _ _ hLoop (hStart.stands true)
      have hEnd := scrollEnd_same (hStart.moved hChanged.toMoved) h.onScreen.column
        h.onScreen.row
      rw [Option.map_some, Option.map_some, hEnd]

private theorem consoleScroll_same {d : Driver} (h : Shown t d) (lines : BitVec 32) :
    consoleScroll calls t lines false d = consoleScroll calls t lines true d := by
  simp only [consoleScroll, h.out]
  split
  · rename_i hOn
    refine repeatM_congr (p := fun d => Shown t d ∧ (d.constate t).conScroll = true)
      ?_ (fun d hShown => scrollLine_same hSound hSame hShown.1) _ d ⟨h, hOn⟩
    rintro d d' ⟨hShown, hOn⟩ hLine
    have hChanged := scrollLine_changed hSound (hShown.stands false) hOn hLine
    exact ⟨hShown.moved hChanged.toMoved, hChanged.scroll.trans hOn⟩
  · rfl

private theorem consoleInccur_same {d : Driver} (h : Shown t d) (inc : ConInc) :
    consoleInccur calls t inc false d = consoleInccur calls t inc true d := by
  have hStart : Copied t d (d.constate t, d) :=
    ⟨Changed.refl h.onScreen, rfl, rfl, h.onScreen.column, h.onScreen.row⟩
  have hRound : ∀ r, Copied t d r →
      inccurRound calls t false r = inccurRound calls t true r := by
    rintro ⟨st, d1⟩ hCopied
    have hScroll := consoleScroll_same hSound hSame (h.moved hCopied.changed.toMoved) 1
    simp only at hScroll
    simp only [inccurRound, hScroll]
  have hRounds := repeatM_congr
    (fun _ _ hCopied hNext => inccurRound_copied hSound (h.stands false) hCopied hNext)
    hRound (inc.numChars (d.constate t)) _ hStart
  simp only [consoleInccur, h.out, hRounds]
  cases hLoop : repeatM (inccurRound calls t true) (inc.numChars (d.constate t))
      (d.constate t, d) with
  | none => rfl
  | some r =>
      have hCopied := Within.repeatM (R := fun r r' => Copied t d r → Copied t d r')
        (fun _ hCopied => hCopied) (fun _ _ _ hab hbc hCopied => hbc (hab hCopied))
        (fun _ _ hNext hCopied => inccurRound_copied hSound (h.stands true) hCopied hNext)
        (inc.numChars (d.constate t)) _ _ hLoop hStart
      have hEnd := inccurEnd_same (h.moved hCopied.changed.toMoved) r.1
      rw [Option.map_some, Option.map_some, hEnd]

/-- The copies. -/
theorem consolePutchar_same {d : Driver} (h : Shown t d) (c : Byte) :
    consolePutchar calls t c d = consoleEcho calls t c d := by
  unfold consolePutchar consoleEcho
  split
  · exact consoleInccur_same hSound hSame h .linereturn
  · simp only [h.displayed]
    generalize ({ codept := c, style := (d.constate t).charstyle.style } : VgaChar)
      = outchar
    have hBuffer := Changed.writeBuffer h.onScreen h.onScreen.cursor outchar
    generalize d.writeBuffer t (d.constate t).cursor outchar = d1 at hBuffer
    have hShown1 := h.moved hBuffer.toMoved
    have hId1 : t.val = (d1.term.vterms d1.term.currentConsole).id := by
      rw [hShown1.displayed, hShown1.id]
    rw [if_pos hId1]
    have hScreen := hBuffer.trans
      (Changed.writeScreen hBuffer.onScreen h.onScreen.cursor outchar)
    generalize d1.writeScreen (d.constate t).cursor outchar = d2 at hScreen
    have hState := hScreen.trans (Changed.setConstate d2 t (d.constate t)
      hScreen.wrap.symm hScreen.scroll.symm h.onScreen.column h.onScreen.row)
    rw [hScreen.displayed.trans h.displayed]
    have hShown3 := h.moved hState.toMoved
    rw [consoleInccur_same hSound hSame hShown3]
    generalize hNext : (if (d.constate t).vcurAutoincEn = true then
      consoleInccur calls t .char true (d2.setConstate t (d.constate t))
      else some (d2.setConstate t (d.constate t))) = next
    cases next with
    | none => rfl
    | some d4 =>
        have hShown4 : Shown t d4 := by
          split at hNext
          · have hChanged := consoleInccur_sound hSound .char _ _ hNext
              (hShown3.stands true)
            exact hShown3.moved hChanged.toMoved
          · cases hNext
            exact hShown3
        have hId4 : t.val = (d4.term.vterms d4.term.currentConsole).id := by
          rw [hShown4.displayed, hShown4.id]
        rw [Option.map_some, Option.map_some, if_pos hId4, hShown4.displayed]
        have hTerm := vgaSetCursorPos_term (d4.constate t).vcurX (d4.constate t).vcurY d4
        generalize vgaSetCursorPos (d4.constate t).vcurX (d4.constate t).vcurY d4 = d5
          at hTerm
        have hDisplayed : d5.term.currentConsole = t := by
          rw [hTerm, hShown4.displayed]
        have hState5 : d5.constate t = d4.constate t := by
          rw [constate, hTerm]
          rfl
        rw [hDisplayed, ← hState5, setConstate_self]

end Functions

/-- At any depth. -/
theorem scrollChar_same (t : ConIdx) : ∀ (n : Nat) (d : Driver), Shown t d →
    scrollChar (calls t n) false d = scrollChar (calls t n) true d := by
  intro n
  induction n with
  | zero => intro d _; rfl
  | succ n ih =>
      intro d h
      exact consolePutchar_same (calls_sound t n) ih h space

end Driver

/-- On the console displayed, `console_putchar` and `console_echo` leave the same
driver: all consoles with their buffers, the screen and the hardware cursor.
They do so at every depth of the recursion, and two calls deep they do end. -/
theorem putchar_eq_echo {t : ConIdx} {d : Driver} (h : Driver.Shown t d) (c : Byte) :
    (∀ n, (Driver.calls t n).putchar c d = (Driver.calls t n).echo c d) ∧
      ∃ d', ∀ n, (Driver.calls t (n + 2)).putchar c d = some d' ∧
        (Driver.calls t (n + 2)).echo c d = some d' := by
  have hSame : ∀ n, (Driver.calls t n).putchar c d = (Driver.calls t n).echo c d := by
    intro n
    cases n with
    | zero => rfl
    | succ n =>
        exact Driver.consolePutchar_same (Driver.calls_sound t n)
          (Driver.scrollChar_same t n) h c
  obtain ⟨d', _, hEnds⟩ := Driver.consolePutchar_ends h.onScreen c
  exact ⟨hSame, d', fun n => ⟨hEnds n, (hSame (n + 2)).symm.trans (hEnds n)⟩⟩

theorem putchar_eq_echo_boot :
    (Driver.calls 0 2).putchar newline
        (bootDriver (fun _ => ⟨0, 0⟩) (fun _ _ => 0) (fun _ => 0) 0 true) =
      (Driver.calls 0 2).echo newline
        (bootDriver (fun _ => ⟨0, 0⟩) (fun _ _ => 0) (fun _ => 0) 0 true) := by
  have hBooted := booted (fun _ => ⟨0, 0⟩) (fun _ _ => 0) fun _ => 0
  have hShown : Driver.Shown 0
      (bootDriver (fun _ => ⟨0, 0⟩) (fun _ _ => 0) (fun _ => 0) 0 true) :=
    { displayed := hBooted.displayed
      id := hBooted.sane.id 0
      current := (hBooted.sane.current 0).trans (decide_eq_true hBooted.displayed.symm)
      onScreen := ⟨(hBooted.sane.ready 0).column, (hBooted.sane.ready 0).row⟩ }
  exact (putchar_eq_echo hShown newline).1 2

end CompE.Vterm
