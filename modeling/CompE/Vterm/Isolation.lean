import CompE.Library.Unwinding
import CompE.Vterm.Operations

/-!
# Consoles do not interfere

There are two runs to compare: one with everything in it, and one with only
the operations on console `k`, which stays displayed throughout.  An operation
on another console leaves `k` as it is (`Op.run_other`), and one on `k` does
the same in both runs, with one exception: `console_scroll` copies the eighty
cells behind `vid_buf` into it, and they belong to the next console.

A switch is no operation on `k`.  It leaves the cursors as they are, but it
saves the screen in the buffer of the console that was displayed, which is
what the buffer held before only if the two were equal.

`console_isolation` says that these are the only ways that console `k` can be
influenced.  Its cursor cannot be at all.
-/

namespace CompE.Vterm

open CompE.Library
open CompE.Kernel (Byte)

/-! ## Operations on a console -/

/-- The operations on console `k`. -/
def Op.on (op : Op) (k : ConIdx) (s : Terminal) : Prop :=
  match op with
  | .putchar con _ | .input con .. => con = k
  | .echo _ | .bksp | .clrsc => s.currentConsole = k
  | .swap _ | .memory _ => False

instance (op : Op) (k : ConIdx) (s : Terminal) : Decidable (op.on k s) := by
  cases op <;> unfold Op.on <;> infer_instance

/-- What is left of a run when everything but console `k` is deleted. -/
def directed (k : ConIdx) (s : Terminal) (op : Op) : Option Op :=
  if op.on k s then some op else none

/-- Whether an operation scrolls its console. -/
def Op.scrolls (op : Op) (s : Terminal) : Prop :=
  match op with
  | .putchar con c => (s.constate con).scrollsOn c
  | .echo c => (s.constate s.currentConsole).scrollsOn c
  | .bksp => (bkspMove (s.constate s.currentConsole)).scrollsOn space
  | _ => False

/-- The same cursor, modes and buffer. -/
structure SameConsole (k : ConIdx) (s t : Terminal) : Prop where
  state : s.constate k = t.constate k
  buffer : (s.vterms k).vidBuf = (t.vterms k).vidBuf

/-- An operation that does not let anything else into console `k`: a scroll of
`k` finds behind the buffer what is there in the other run, and a switch away
from `k` finds the buffer on the screen. -/
structure Isolates (k : ConIdx) (behind : Nat → VgaChar) (s : Terminal)
    (op : Op) : Prop where
  scroll : op.on k s → op.scrolls s →
    ∀ j < numCols, s.cellBehind k j = behind j
  swap : op.switches → s.currentConsole = k →
    ∀ i < numRows * numCols, s.video i = (s.vterms k).vidBuf i

/-! ## Operations on another console -/

/-- An operation on other consoles leaves console `k` alone. -/
theorem Op.run_other {s : Terminal} (h : Sane s) {op : Op} {k : ConIdx}
    (hOn : ¬ op.on k s) (hSwap : ¬ op.switches) :
    (op.run s).vterms k = s.vterms k := by
  cases op with
  | putchar con c =>
      rw [Op.run, consolePutchar_eq h, output_vterms_of_ne _ _ _ (Ne.symm hOn)]
  | echo c =>
      rw [Op.run, consoleEcho_eq h, output_vterms_of_ne _ _ _ (Ne.symm hOn)]
  | bksp =>
      rw [Op.run, consoleBksp_eq h, setConstate_eq_put,
        put_vterms_of_ne _ _ _ _ _ (Ne.symm hOn),
        output_vterms_of_ne _ _ _ (Ne.symm hOn), Terminal.backed,
        setConstate_eq_put, put_vterms_of_ne _ _ _ _ _ (Ne.symm hOn)]
  | clrsc =>
      rw [Op.run, consoleClrsc_eq, put_vterms_of_ne _ _ _ _ _ (Ne.symm hOn)]
  | swap newIdx =>
      have hNone : validIdx newIdx = none := Option.not_isSome_iff_eq_none.1 hSwap
      rw [Op.run, vtermSwapConsole_eq h, hNone]
  | input con stop inp =>
      exact Function.update_of_ne (Ne.symm hOn) _ _
  | memory behind => rfl

theorem SameConsole.of_vterms {k : ConIdx} {s s' t : Terminal}
    (h : SameConsole k s t) (hSame : s'.vterms k = s.vterms k) :
    SameConsole k s' t where
  state := by rw [Terminal.constate, hSame]; exact h.state
  buffer := by rw [hSame]; exact h.buffer

/-- A switch changes the buffer of the displayed console, to the screen. -/
theorem SameConsole.swapTo_iff {k new : ConIdx} {s t : Terminal}
    (h : SameConsole k s t) :
    SameConsole k (swapTo new s) t ↔
      (s.currentConsole = k →
        ∀ i < numRows * numCols, s.video i = (s.vterms k).vidBuf i) := by
  constructor
  · intro hSwapped hCur i hi
    have hCell := congrFun hSwapped.buffer i
    rw [swapTo_vidBuf, if_pos ⟨hCur.symm, hi⟩] at hCell
    rw [hCell, h.buffer]
  · intro hShown
    refine ⟨by rw [swapTo_constate]; exact h.state, ?_⟩
    rw [← h.buffer]
    funext i
    rw [swapTo_vidBuf]
    split
    · rename_i hSaved
      exact hShown hSaved.1.symm i hSaved.2
    · rfl

/-! ## Operations on the console -/

theorem SameConsole.setConstate {k : ConIdx} {s t : Terminal}
    {st : ConsoleState} :
    SameConsole k (s.setConstate k st) (t.setConstate k st) ↔
      (s.vterms k).vidBuf = (t.vterms k).vidBuf := by
  constructor
  · intro h
    have hBuffer := h.buffer
    rwa [setConstate_eq_put, setConstate_eq_put, put_vidBuf, put_vidBuf]
      at hBuffer
  · intro h
    rw [setConstate_eq_put, setConstate_eq_put]
    exact ⟨by rw [put_constate, put_constate], by rw [put_vidBuf, put_vidBuf, h]⟩

theorem SameConsole.stored {k : ConIdx} {s t : Terminal}
    (h : SameConsole k s t) (c : Byte) :
    SameConsole k (s.stored k c) (t.stored k c) := by
  unfold Terminal.stored
  split
  · exact h
  · exact ⟨by rw [put_constate, put_constate, h.state],
      by rw [put_vidBuf, put_vidBuf, h.state, h.buffer]⟩

/-- Scrolling copies what lies behind the buffer. -/
theorem SameConsole.rolledBuf_iff {k : ConIdx} {s t : Terminal}
    (h : SameConsole k s t) :
    s.rolledBuf k = t.rolledBuf k ↔
      ∀ j < numCols, s.cellBehind k j = t.cellBehind k j := by
  have hEnd : lastRow + numCols = numRows * numCols := by decide
  have hTwo : lineMemLen = numCols + numCols := by decide
  constructor
  · intro hRolled j hj
    have hLast : numCols ≤ lastRow := by decide
    have hRow : lastRow - numCols + j < lastRow := by omega
    have hKept : ¬ (lastRow ≤ lastRow - numCols + j ∧
        lastRow - numCols + j < lastRow + numCols) := by omega
    have hAt : lastRow - numCols + j + lineMemLen = numRows * numCols + j := by
      omega
    have hOver : ¬ numRows * numCols + j < numRows * numCols := by omega
    have hCell := congrFun hRolled (lastRow - numCols + j)
    simp only [Terminal.rolledBuf, filled, if_neg hKept, if_pos hRow, hAt,
      Terminal.cell, if_neg hOver, Nat.add_sub_cancel_left] at hCell
    exact hCell
  · intro hBehind
    have hCell : ∀ i < lastRow,
        s.cell k (i + lineMemLen) = t.cell k (i + lineMemLen) := by
      intro i hi
      by_cases hInside : i + lineMemLen < numRows * numCols
      · rw [Terminal.cell, Terminal.cell, if_pos hInside, if_pos hInside,
          h.buffer]
      · rw [Terminal.cell, Terminal.cell, if_neg hInside, if_neg hInside]
        exact hBehind _ (by omega)
    funext i
    simp only [Terminal.rolledBuf, filled, h.state, h.buffer]
    by_cases hRow : i < lastRow
    · rw [if_pos hRow, if_pos hRow, hCell i hRow]
    · rw [if_neg hRow, if_neg hRow]

theorem SameConsole.output_buffer_iff {k : ConIdx} {s t : Terminal}
    (h : SameConsole k s t) (c : Byte) :
    ((s.output k c).vterms k).vidBuf = ((t.output k c).vterms k).vidBuf ↔
      ((s.constate k).scrollsOn c →
        ∀ j < numCols, s.cellBehind k j = t.cellBehind k j) := by
  rw [output_vidBuf, output_vidBuf, ← h.state]
  by_cases hScrolls : (s.constate k).scrollsOn c
  · rw [if_pos hScrolls, if_pos hScrolls, (h.stored c).rolledBuf_iff]
    simp only [stored_cellBehind]
    exact ⟨fun hBehind _ => hBehind, fun hAll => hAll hScrolls⟩
  · rw [if_neg hScrolls, if_neg hScrolls]
    exact ⟨fun _ hYes => absurd hYes hScrolls, fun _ => (h.stored c).buffer⟩

/-- A character on the console. -/
theorem SameConsole.output_iff {k : ConIdx} {s t : Terminal}
    (h : SameConsole k s t) (c : Byte) :
    SameConsole k (s.output k c) (t.output k c) ↔
      ((s.constate k).scrollsOn c →
        ∀ j < numCols, s.cellBehind k j = t.cellBehind k j) := by
  rw [← h.output_buffer_iff]
  refine ⟨fun hSame => hSame.buffer, fun hBuffer => ⟨?_, hBuffer⟩⟩
  rw [output_constate, output_constate, h.state]

theorem SameConsole.backed {s t : Terminal}
    (h : SameConsole s.currentConsole s t)
    (hCur : t.currentConsole = s.currentConsole) :
    SameConsole s.currentConsole s.backed t.backed where
  state := by
    rw [backed_constate, ← hCur, backed_constate, hCur, h.state]
  buffer := by rw [backed_vidBuf, backed_vidBuf, h.buffer]

/-- An operation on console `k` does the same in both runs, but for what a
scroll finds behind the buffer. -/
theorem SameConsole.run_on_iff {k : ConIdx} {s t : Terminal}
    (h : SameConsole k s t) (hSane : Sane s) (hSane' : Sane t)
    (hAlone : t.currentConsole = k) {op : Op} (hOn : op.on k s) :
    SameConsole k (op.run s) (op.run t) ↔
      (op.scrolls s → ∀ j < numCols, s.cellBehind k j = t.cellBehind k j) := by
  cases op with
  | putchar con c =>
      have hCon : con = k := hOn
      subst hCon
      rw [Op.run, Op.run, consolePutchar_eq hSane, consolePutchar_eq hSane']
      exact h.output_iff c
  | echo c =>
      have hCur : s.currentConsole = k := hOn
      subst hCur
      rw [Op.run, Op.run, consoleEcho_eq hSane, consoleEcho_eq hSane', hAlone]
      exact h.output_iff c
  | bksp =>
      have hCur : s.currentConsole = k := hOn
      subst hCur
      have hBehind : ∀ j, t.backed.cellBehind s.currentConsole j =
          t.cellBehind s.currentConsole j := by
        intro j
        rw [← hAlone]
        exact backed_cellBehind t j
      have hBacked := (h.backed hAlone).output_buffer_iff space
      simp only [backed_constate, backed_cellBehind, hBehind] at hBacked
      rw [Op.run, Op.run, consoleBksp_eq hSane, consoleBksp_eq hSane', hAlone,
        ← h.state, SameConsole.setConstate, hBacked]
      exact Iff.rfl
  | clrsc =>
      have hCur : s.currentConsole = k := hOn
      subst hCur
      refine ⟨fun _ hScrolls => hScrolls.elim, fun _ => ?_⟩
      rw [Op.run, Op.run, consoleClrsc_eq, consoleClrsc_eq, hAlone]
      exact ⟨by rw [put_constate, put_constate, h.state],
        by rw [put_vidBuf, put_vidBuf, h.buffer]⟩
  | input con stop inp =>
      have hCon : con = k := hOn
      subst hCon
      refine ⟨fun _ hScrolls => hScrolls.elim, fun _ => ⟨?_, ?_⟩⟩
      · simp only [Op.run, Terminal.setInput, Terminal.constate,
          Function.update_self]
        rw [← Terminal.constate, ← Terminal.constate, h.state]
      · simp only [Op.run, Terminal.setInput, Function.update_self]
        exact h.buffer
  | swap | memory => exact hOn.elim

/-! ## The two runs -/

/-- What holds of the two runs at any time, `behind` being what the shorter
one had behind the buffer at its start. -/
structure Beside (k : ConIdx) (behind : Nat → VgaChar) (s t : Terminal) : Prop where
  full : Sane s
  alone : Sane t
  displayed : t.currentConsole = k
  behind : ∀ j, t.cellBehind k j = behind j

theorem Op.run_currentConsole {s : Terminal} (h : Sane s) {op : Op}
    (hSwap : ¬ op.switches) : (op.run s).currentConsole = s.currentConsole := by
  cases op with
  | putchar con c => rw [Op.run, consolePutchar_eq h, output_currentConsole]
  | echo c => rw [Op.run, consoleEcho_eq h, output_currentConsole]
  | bksp =>
      rw [Op.run, consoleBksp_eq h, setConstate_eq_put, put_currentConsole,
        output_currentConsole, backed_currentConsole]
  | clrsc => rw [Op.run, consoleClrsc_eq, put_currentConsole]
  | swap newIdx =>
      have hNone : validIdx newIdx = none := Option.not_isSome_iff_eq_none.1 hSwap
      rw [Op.run, vtermSwapConsole_eq h, hNone]
  | input | memory => rfl

/-- An operation on console `k` changes nothing behind its buffer. -/
theorem Op.run_cellBehind {k : ConIdx} {t : Terminal} (h : Sane t) {op : Op}
    (hOn : op.on k t) (j : Nat) :
    (op.run t).cellBehind k j = t.cellBehind k j := by
  cases op with
  | putchar con c =>
      have hCon : con = k := hOn
      subst hCon
      rw [Op.run, consolePutchar_eq h, output_cellBehind]
  | echo c =>
      have hCur : t.currentConsole = k := hOn
      subst hCur
      rw [Op.run, consoleEcho_eq h, output_cellBehind]
  | bksp =>
      have hCur : t.currentConsole = k := hOn
      subst hCur
      rw [Op.run, consoleBksp_eq h, setConstate_eq_put, put_cellBehind,
        output_cellBehind, backed_cellBehind]
  | clrsc =>
      have hCur : t.currentConsole = k := hOn
      subst hCur
      rw [Op.run, consoleClrsc_eq, put_cellBehind]
  | input con stop inp =>
      have hCon : con = k := hOn
      subst hCon
      refine cellBehind_of_others t (t.setInput con stop inp) ?_ rfl rfl j
      intro c hc
      exact Function.update_of_ne hc _ _
  | swap | memory => exact hOn.elim

theorem Op.on.not_switches {op : Op} {k : ConIdx} {s : Terminal}
    (h : op.on k s) : ¬ op.switches := by
  cases op with
  | swap => exact h.elim
  | putchar | echo | bksp | clrsc | input | memory => exact id

/-- An operation on console `k` is one in the other run as well. -/
theorem Op.on.beside {op : Op} {k : ConIdx} {s t : Terminal}
    (h : op.on k s) (hAlone : t.currentConsole = k) : op.on k t := by
  cases op with
  | putchar | input => exact h
  | echo | bksp | clrsc => exact hAlone
  | swap | memory => exact h.elim

/-- The step lemma: console `k` stays the same in both runs exactly if nothing
else is let in. -/
theorem SameConsole.step_iff {k : ConIdx} {behind : Nat → VgaChar}
    {s t : Terminal} (h : SameConsole k s t) (hBeside : Beside k behind s t)
    (op : Op) :
    (SameConsole k (op.run s) (consoles.follow t (directed k s op)) ↔
        Isolates k behind s op) ∧
      Beside k behind (op.run s) (consoles.follow t (directed k s op)) := by
  have hFull := hBeside.full.step op
  by_cases hOn : op.on k s
  · have hOnly : directed k s op = some op := if_pos hOn
    have hSwap := hOn.not_switches
    have hOn' := hOn.beside hBeside.displayed
    rw [hOnly]
    constructor
    · refine (h.run_on_iff hBeside.full hBeside.alone hBeside.displayed hOn).trans ?_
      simp only [hBeside.behind]
      exact ⟨fun hScroll => ⟨fun _ => hScroll, fun hYes => absurd hYes hSwap⟩,
        fun hIsolates => hIsolates.scroll hOn⟩
    · exact
        { full := hFull
          alone := hBeside.alone.step op
          displayed := by
            rw [← hBeside.displayed]
            exact Op.run_currentConsole hBeside.alone hSwap
          behind := fun j => by
            rw [← hBeside.behind j]
            exact Op.run_cellBehind hBeside.alone hOn' j }
  · have hOnly : directed k s op = none := if_neg hOn
    rw [hOnly]
    refine ⟨?_, { hBeside with full := hFull }⟩
    by_cases hSwap : op.switches
    · cases op with
      | swap newIdx =>
          obtain ⟨new, hNew⟩ := Option.isSome_iff_exists.1 hSwap
          have hRun : (Op.swap newIdx).run s = swapTo new s := by
            rw [Op.run, vtermSwapConsole_eq hBeside.full, hNew]
          rw [hRun]
          refine h.swapTo_iff.trans ?_
          exact ⟨fun hShown => ⟨fun hYes => hYes.elim, fun _ => hShown⟩,
            fun hIsolates => hIsolates.swap hSwap⟩
      | putchar | echo | bksp | clrsc | input | memory => exact hSwap.elim
    · have hSame := Op.run_other hBeside.full hOn hSwap
      exact ⟨fun _ => ⟨fun hYes => absurd hYes hOn, fun hYes => absurd hYes hSwap⟩,
        fun _ => h.of_vterms hSame⟩

/-- Console `k` displayed from the start. -/
def alone (k : ConIdx) (s : Terminal) : Terminal :=
  if k = s.currentConsole then s else swapTo k s

private theorem alone_currentConsole (s : Terminal) (k : ConIdx) :
    (alone k s).currentConsole = k := by
  unfold alone
  split
  · exact Eq.symm ‹_›
  · rfl

theorem SameConsole.alone (s : Terminal) (k : ConIdx) :
    SameConsole k s (alone k s) := by
  unfold CompE.Vterm.alone
  split
  · exact ⟨rfl, rfl⟩
  · rename_i hk
    refine ⟨by rw [swapTo_constate], ?_⟩
    funext i
    rw [swapTo_vidBuf, if_neg (fun hBoth => hk hBoth.1)]

theorem Sane.alone {s : Terminal} (h : Sane s) (k : ConIdx) :
    Sane (alone k s) := by
  unfold CompE.Vterm.alone
  split
  · exact h
  · exact h.swapTo k

theorem Beside.start {s : Terminal} (h : Sane s) (k : ConIdx) :
    Beside k ((CompE.Vterm.alone k s).cellBehind k) s (CompE.Vterm.alone k s) :=
  ⟨h, h.alone k, alone_currentConsole s k, fun _ => rfl⟩

/-! ## The cursor -/

/-- What an operation on a console does to its state. -/
def Op.moves : Op → ConsoleState → ConsoleState
  | .putchar _ c, st | .echo c, st => st.after c
  | .bksp, st => bkspMove st
  | .clrsc, st => { st with vcurX := 0, vcurY := 0 }
  | .input _ stop _, st => { st with conBkspstopCol := stop }
  | .swap _, st | .memory _, st => st

theorem Op.run_constate {s : Terminal} (h : Sane s) {op : Op} {k : ConIdx}
    (hOn : op.on k s) : (op.run s).constate k = op.moves (s.constate k) := by
  cases op with
  | putchar con c =>
      have hCon : con = k := hOn
      subst hCon
      rw [Op.run, consolePutchar_eq h, output_constate]
      rfl
  | echo c =>
      have hCur : s.currentConsole = k := hOn
      subst hCur
      rw [Op.run, consoleEcho_eq h, output_constate]
      rfl
  | bksp =>
      have hCur : s.currentConsole = k := hOn
      subst hCur
      rw [Op.run, consoleBksp_eq h, setConstate_eq_put, put_constate]
      rfl
  | clrsc =>
      have hCur : s.currentConsole = k := hOn
      subst hCur
      rw [Op.run, consoleClrsc_eq, put_constate]
      rfl
  | input con stop inp =>
      have hCon : con = k := hOn
      subst hCon
      simp only [Op.run, Terminal.setInput, Terminal.constate,
        Function.update_self]
      rfl
  | swap | memory => exact hOn.elim

/-- Nothing else moves the cursor of a console. -/
theorem Op.run_constate_other {s : Terminal} (h : Sane s) {op : Op}
    {k : ConIdx} (hOn : ¬ op.on k s) :
    (op.run s).constate k = s.constate k := by
  by_cases hSwap : op.switches
  · cases op with
    | swap newIdx =>
        obtain ⟨new, hNew⟩ := Option.isSome_iff_exists.1 hSwap
        rw [Op.run, vtermSwapConsole_eq h, hNew]
        exact swapTo_constate s new k
    | putchar | echo | bksp | clrsc | input | memory => exact hSwap.elim
  · rw [Terminal.constate, Op.run_other h hOn hSwap]
    rfl

private theorem cursor_isolation {s t : Terminal} {k : ConIdx}
    {behind : Nat → VgaChar} (h : s.constate k = t.constate k)
    (hBeside : Beside k behind s t) (ops : List Op) :
    (consoles.run s ops).constate k =
      (consoles.run t (consoles.project (directed k) s ops)).constate k := by
  refine (consoles.unwinding consoles
    (R := fun s t => s.constate k = t.constate k ∧ Sane s ∧ Sane t ∧
      t.currentConsole = k) ?_ ?_ ops s t
    ⟨h, hBeside.full, hBeside.alone, hBeside.displayed⟩
    (consoles_legal s ops) (consoles_legal t _)).2.1
  · intro s t op op' hR _ hView _
    obtain ⟨hState, hSane, hSane', hAlone⟩ := hR
    by_cases hOn : op.on k s
    · have hSame : op = op' := by
        rw [directed, if_pos hOn] at hView
        exact Option.some.inj hView
      subst hSame
      have hOn' := hOn.beside hAlone
      refine ⟨rfl, ?_, hSane.step op, hSane'.step op, ?_⟩
      · show (op.run s).constate k = (op.run t).constate k
        rw [Op.run_constate hSane hOn, Op.run_constate hSane' hOn', hState]
      · rw [← hAlone]
        exact Op.run_currentConsole hSane' hOn.not_switches
    · rw [directed, if_neg hOn] at hView
      cases hView
  · intro s t op hR _ hView
    obtain ⟨hState, hSane, hSane', hAlone⟩ := hR
    have hOn : ¬ op.on k s := by
      intro hOn
      rw [directed, if_pos hOn] at hView
      cases hView
    refine ⟨?_, hSane.step op, hSane', hAlone⟩
    exact (Op.run_constate_other hSane hOn).trans hState

/-! ## Isolation -/

/-- No operation on one console changes another. -/
def Confined (s : Terminal) (op : Op) : Prop :=
  ¬ op.switches → ∀ b, ¬ op.on b s → (op.run s).vterms b = s.vterms b

theorem Sane.confined {s : Terminal} (h : Sane s) (ops : List Op) :
    consoles.Always Confined s ops := by
  refine consoles.always_of_invariant (I := Sane) (q := fun _ _ => True) ?_
    ops s h (consoles_legal s ops)
    (consoles.always_of_forall (fun _ _ => trivial) s ops)
  intro s op hSane _ _
  exact ⟨fun hSwap b hOn => Op.run_other hSane hOn hSwap, hSane.step op⟩

/--
**Isolation.**  The cursor of console `k` is always what the operations on `k`
alone make it.  So is its buffer after every part of a run, exactly if no
operation of the run lets anything else in.
-/
theorem console_isolation (k : ConIdx) (video : Nat → VgaChar)
    (padding : ConIdx → Nat → Byte) (behind : Nat → Byte) (ops : List Op) :
    let s := bootTerminal video padding behind
    let t := alone k s
    (consoles.run s ops).constate k =
        (consoles.run t (consoles.project (directed k) s ops)).constate k ∧
      consoles.Always Confined s ops ∧
      ((∀ pre, pre <+: ops →
          SameConsole k (consoles.run s pre)
            (consoles.run t (consoles.project (directed k) s pre))) ↔
        consoles.Always (Isolates k (t.cellBehind k)) s ops) := by
  intro s t
  have hSane : Sane s := sane_boot video padding behind
  have hBeside : Beside k (t.cellBehind k) s t := Beside.start hSane k
  have hSame : SameConsole k s t := SameConsole.alone s k
  refine ⟨cursor_isolation hSame.state hBeside ops, hSane.confined ops, ?_⟩
  exact consoles.unwinding_iff consoles
    (I := Beside k (t.cellBehind k)) (R := SameConsole k)
    (fun s t op hInv hR => hR.step_iff hInv op) ops s t hBeside hSame

private theorem project_replicate (k : ConIdx) (c : Byte) :
    ∀ (n : Nat) (s : Terminal),
      consoles.project (directed k) s (List.replicate n (.putchar k c)) =
        List.replicate n (.putchar k c) := by
  intro n
  induction n with
  | zero => intro s; rfl
  | succ n ih =>
      intro s
      have hOnly : directed k s (.putchar k c) = some (.putchar k c) :=
        if_pos rfl
      rw [List.replicate_succ, Machine.project, hOnly, ih]

/-- Scrolling console 0 shows where the cursor of console 1 is. -/
theorem scroll_shows_cursor {s t : Terminal} (h : Sane s) (h' : Sane t)
    (hSame : SameConsole 0 s t) (hColumn : (s.constate 0).vcurX = 0)
    (hRow : (s.constate 0).vcurY = 1)
    (hNext : wordByte (s.constate 1).vcurX 0 ≠
      wordByte (t.constate 1).vcurX 0) :
    ¬ SameConsole 0
      (consoles.run s (List.replicate 24 (.putchar 0 newline)))
      (consoles.run t (List.replicate 24 (.putchar 0 newline))) := by
  have hSplit : List.replicate 24 (Op.putchar 0 newline) =
      List.replicate 23 (Op.putchar 0 newline) ++ [Op.putchar 0 newline] := rfl
  have hReady := h.ready 0
  have hBottom : Ready { s.constate 0 with vcurY := 1 + 23 } :=
    { hReady with row := show 1 + 23 < numRows by decide }
  have hLater : ∀ u : Terminal, ∀ st, (u.setConstate 0 st).constate 1 =
      u.constate 1 := by
    intro u st
    rw [setConstate_eq_put, Terminal.constate,
      put_vterms_of_ne _ _ _ _ _ (by decide), ← Terminal.constate]
  have hStep : ∀ u : Terminal, Sane u →
      consoles.run (u.setConstate 0 { s.constate 0 with vcurY := 1 + 23 })
          [Op.putchar 0 newline] =
        (u.setConstate 0 { s.constate 0 with vcurY := 1 + 23 }).output 0
          newline := by
    intro u hSane
    exact consolePutchar_eq (hSane.setConstate 0 hBottom) 0 newline
  rw [hSplit, consoles.run_append, consoles.run_append,
    consoles_run_newlines 23 h hColumn (by rw [hRow]; decide),
    consoles_run_newlines 23 h' (by rw [← hSame.state]; exact hColumn)
      (by rw [← hSame.state, hRow]; decide),
    ← hSame.state, hRow, hStep s h, hStep t h',
    (SameConsole.setConstate.2 hSame.buffer).output_iff]
  intro hBehind
  have hScrolls : ConsoleState.scrollsOn
      ((s.setConstate 0 { s.constate 0 with vcurY := 1 + 23 }).constate 0)
      newline := by
    rw [setConstate_eq_put, put_constate]
    show 1 + 23 + 1 ≥ numRows
    decide
  have hStyle := congrArg VgaChar.style (hBehind hScrolls 9 (by decide))
  rw [cellBehind_cursor, cellBehind_cursor, hLater, hLater] at hStyle
  exact hNext hStyle

/-- A character on console 1 ends up in the buffer of console 0 when that is
scrolled.  A switch away puts the screen there. -/
theorem Booted.not_isolated {s : Terminal} (h : Booted s) :
    ¬ SameConsole 0
        (consoles.run s
          (.putchar 1 0x61 :: List.replicate 24 (.putchar 0 newline)))
        (consoles.run (alone 0 s) (consoles.project (directed 0) s
          (.putchar 1 0x61 :: List.replicate 24 (.putchar 0 newline)))) ∧
      ¬ SameConsole 0 (consoles.run s [.swap 1])
        (consoles.run (alone 0 s)
          (consoles.project (directed 0) s [.swap 1])) := by
  have hAlone : alone 0 s = s := if_pos h.displayed.symm
  rw [hAlone]
  constructor
  · have hNone : directed 0 s (.putchar 1 0x61) = none :=
      if_neg (show ¬ (1 : ConIdx) = 0 by decide)
    have hStep : consoles.step s (.putchar 1 0x61) = s.output 1 0x61 :=
      consolePutchar_eq h.sane 1 0x61
    have hSame : SameConsole 0 (s.output 1 0x61) s :=
      SameConsole.of_vterms ⟨rfl, rfl⟩ (output_vterms_of_ne s 1 0x61 (by decide))
    rw [Machine.project, hNone, project_replicate, Machine.run, hStep]
    refine scroll_shows_cursor (h.sane.output 1 0x61) h.sane hSame ?_ ?_ ?_
    · rw [hSame.state, h.state]
      rfl
    · rw [hSame.state, h.state]
    · rw [output_constate, h.states 1 (by decide)]
      decide
  · have hNone : directed 0 s (.swap 1) = none := if_neg id
    have hStep : consoles.step s (.swap 1) = swapTo 1 s :=
      vtermSwapConsole_eq h.sane 1
    rw [Machine.project, hNone, Machine.run, hStep, Machine.project,
      Machine.run, Machine.run]
    intro hSame
    have hCell := congrFun hSame.buffer 100
    rw [swapTo_vidBuf, if_pos ⟨h.displayed.symm, by decide⟩,
      h.screen 100 (by decide) (by decide), h.buffer 100 (by decide)] at hCell
    revert hCell
    decide

theorem console_isolation_broken :
    let s := bootTerminal (fun _ => ⟨0, 0⟩) (fun _ _ => 0) fun _ => 0
    let scrolling := .putchar 1 0x61 :: List.replicate 24 (.putchar 0 newline)
    ¬ SameConsole 0 (consoles.run s scrolling)
        (consoles.run (alone 0 s)
          (consoles.project (directed 0) s scrolling)) ∧
      ¬ SameConsole 0 (consoles.run s [.swap 1])
        (consoles.run (alone 0 s)
          (consoles.project (directed 0) s [.swap 1])) :=
  (booted _ _ _).not_isolated

end CompE.Vterm
