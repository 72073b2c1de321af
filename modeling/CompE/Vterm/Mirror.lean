import CompE.Vterm.Operations

/-!
# The buffer of the displayed console and the screen

`vid_buf` is meant to be a perfect analog of the video memory.  A character
goes to both, and a switch copies one to the other, so these keep them equal.
Three things do not:

* `console_scroll` moves the buffer up by two rows and the screen by one
  (`Mirrors.rolled_iff`: they agree afterwards only if it makes no difference);
* `clear` blanks the screen alone;
* so does `vterm_new`, in place of the buffer of the new console.  After
  initialisation the two differ already, until the first switch copies the
  screen to the buffer.

`screen_mirror` says that there is nothing else.
-/

namespace CompE.Vterm

open CompE.Library
open CompE.Kernel (Byte)

/-- The buffer of the displayed console is what is on the screen. -/
def Mirrors (s : Terminal) : Prop :=
  ∀ i < numRows * numCols,
    (s.vterms s.currentConsole).vidBuf i = s.video i

/-- Switching away and back displays what was on the screen. -/
def Redisplays (s : Terminal) : Prop :=
  ∀ newIdx, ∀ i < numRows * numCols,
    (vtermSwapConsole s.currentConsole.val (vtermSwapConsole newIdx s)).video i =
      s.video i

/-- What is expected of every operation. -/
def MirrorStep (s : Terminal) (op : Op) : Prop :=
  Mirrors (op.run s) ∧ Redisplays (op.run s)

/-- Scrolling by one row or by two makes no difference: all rows but the first
are alike, and so is what lies behind the buffer. -/
def Terminal.SameRows (s : Terminal) (t : ConIdx) : Prop :=
  ∀ i, numCols ≤ i → i < numRows * numCols →
    s.cell t (i + numCols) = s.cell t i

/-- The operations that keep buffer and screen equal. -/
def Undisturbed (s : Terminal) : Op → Prop
  | .putchar con c =>
      con = s.currentConsole → (s.constate con).scrollsOn c →
        (s.stored con c).SameRows con
  | .echo c =>
      (s.constate s.currentConsole).scrollsOn c →
        (s.stored s.currentConsole c).SameRows s.currentConsole
  | .bksp =>
      (s.backed.constate s.currentConsole).scrollsOn space →
        (s.backed.stored s.currentConsole space).SameRows s.currentConsole
  | .clrsc =>
      ∀ i < numRows * numCols,
        (s.vterms s.currentConsole).vidBuf i = { codept := space, style := 0x7 }
  | .swap _ | .input .. | .memory _ => True

/-! ## Switching away and back -/

private theorem swapTo_back (s : Terminal) (c : ConIdx) (i : Nat)
    (hi : i < numRows * numCols) :
    (swapTo s.currentConsole (swapTo c s)).video i = s.video i := by
  rw [swapTo_video _ _ i hi, swapTo_vidBuf, swapTo_currentConsole]
  by_cases hCur : s.currentConsole = c
  · rw [if_pos ⟨hCur, hi⟩, swapTo_video s c i hi, swapTo_vidBuf,
      if_pos ⟨hCur.symm, hi⟩]
  · rw [if_neg (fun hBoth => hCur hBoth.1), swapTo_vidBuf, if_pos ⟨rfl, hi⟩]

theorem Sane.redisplays {s : Terminal} (h : Sane s) : Redisplays s := by
  intro newIdx i hi
  rw [vtermSwapConsole_eq h]
  cases validIdx newIdx with
  | none =>
      rw [vtermSwapConsole_eq h, validIdx_val]
      show (CompE.Vterm.swapTo s.currentConsole s).video i = s.video i
      rw [swapTo_video s _ i hi, swapTo_vidBuf, if_pos ⟨rfl, hi⟩]
  | some c =>
      rw [vtermSwapConsole_eq (h.swapTo c), validIdx_val]
      exact swapTo_back s c i hi

/-! ## Output -/

private theorem mirrors_put_iff (s : Terminal) (st : ConsoleState)
    (buf screen : Nat → VgaChar) :
    Mirrors (s.put s.currentConsole st buf screen) ↔
      ∀ i < numRows * numCols, buf i = screen i := by
  simp [Mirrors]

private theorem mirrors_setConstate_iff (s : Terminal) (t : ConIdx)
    (st : ConsoleState) : Mirrors (s.setConstate t st) ↔ Mirrors s := by
  have hBuf : ((s.setConstate t st).vterms s.currentConsole).vidBuf =
      (s.vterms s.currentConsole).vidBuf :=
    update_same s.vterms t Console.vidBuf (by rfl) s.currentConsole
  unfold Mirrors
  rw [show (s.setConstate t st).currentConsole = s.currentConsole from rfl,
    hBuf]
  rfl

theorem Mirrors.stored {s : Terminal} (h : Mirrors s) (t : ConIdx) (c : Byte) :
    Mirrors (s.stored t c) := by
  unfold Terminal.stored
  split
  · exact h
  · by_cases hCur : t = s.currentConsole
    · subst hCur
      rw [if_pos rfl, mirrors_put_iff]
      intro i hi
      by_cases hCursor : i = (s.constate s.currentConsole).cursor
      · subst hCursor
        rw [Function.update_self, Function.update_self]
      · rw [Function.update_of_ne hCursor, Function.update_of_ne hCursor]
        exact h i hi
    · rw [if_neg hCur]
      intro i hi
      rw [put_currentConsole, put_vterms_of_ne _ _ _ _ _ (Ne.symm hCur)]
      exact h i hi

/-- Scrolling the displayed console. -/
theorem Mirrors.rolled_iff {s : Terminal} (h : Mirrors s) :
    Mirrors (s.rolled s.currentConsole) ↔ s.SameRows s.currentConsole := by
  rw [Terminal.rolled, if_pos rfl, mirrors_put_iff]
  have hCell : ∀ i < numRows * numCols,
      s.cell s.currentConsole i = s.video i := by
    intro i hi
    rw [Terminal.cell, if_pos hi, h i hi]
  constructor
  · intro hRolled i hLow hi
    have hRow : i - numCols < lastRow := by
      simp only [lastRow, numCols, numRows] at *
      omega
    have hAt := hRolled (i - numCols) (by omega)
    have hKept : ¬ (lastRow ≤ i - numCols ∧ i - numCols < lastRow + numCols) := by
      omega
    have hTwo : i - numCols + lineMemLen = i + numCols := by
      simp only [lineMemLen]
      omega
    have hOne : i - numCols + numCols = i := by omega
    simp only [Terminal.rolledBuf, Terminal.rolledScreen, filled, if_neg hKept,
      if_pos hRow, hTwo, hOne] at hAt
    rw [hAt, hCell i hi]
  · intro hSame i hi
    by_cases hRow : i < lastRow
    · have hKept : ¬ (lastRow ≤ i ∧ i < lastRow + numCols) := by omega
      have hBound : i + numCols < numRows * numCols := by
        simp only [lastRow, numCols, numRows] at *
        omega
      have hTwo : i + lineMemLen = i + numCols + numCols := by
        simp only [lineMemLen]
        omega
      simp only [Terminal.rolledBuf, Terminal.rolledScreen, filled,
        if_neg hKept, if_pos hRow, hTwo]
      rw [hSame (i + numCols) (by omega) hBound, hCell _ hBound]
    · have hLast : lastRow ≤ i ∧ i < lastRow + numCols := by
        simp only [lastRow, numCols, numRows] at *
        omega
      simp only [Terminal.rolledBuf, Terminal.rolledScreen, filled, if_pos hLast]

/-- A character keeps buffer and screen equal unless it scrolls the displayed
console to some effect. -/
theorem Mirrors.output_iff {s : Terminal} (h : Mirrors s) (t : ConIdx)
    (c : Byte) :
    Mirrors (s.output t c) ↔
      (t = s.currentConsole → (s.constate t).scrollsOn c →
        (s.stored t c).SameRows t) := by
  have hStored := h.stored t c
  unfold Terminal.output
  rw [mirrors_setConstate_iff]
  by_cases hScrolls : (s.constate t).scrollsOn c
  · rw [if_pos hScrolls]
    by_cases hCur : t = s.currentConsole
    · have hRolled := hStored.rolled_iff
      rw [stored_currentConsole, ← hCur] at hRolled
      rw [hRolled]
      exact ⟨fun hSame _ _ => hSame, fun hAll => hAll hCur hScrolls⟩
    · refine ⟨fun _ hEq => absurd hEq hCur, fun _ => ?_⟩
      rw [Terminal.rolled, stored_currentConsole, if_neg hCur]
      intro i hi
      rw [put_currentConsole, put_vterms_of_ne _ _ _ _ _ (by
        rw [stored_currentConsole]; exact Ne.symm hCur)]
      exact hStored i hi
  · rw [if_neg hScrolls]
    exact ⟨fun _ _ hYes => absurd hYes hScrolls, fun _ => hStored⟩

/-! ## One operation -/

theorem Mirrors.backed {s : Terminal} (h : Mirrors s) : Mirrors s.backed :=
  (mirrors_setConstate_iff s _ _).2 h

private theorem mirrors_clrsc_iff (s : Terminal) :
    Mirrors (consoleClrsc s) ↔ Undisturbed s .clrsc := by
  rw [consoleClrsc_eq, mirrors_put_iff]
  refine forall₂_congr fun i hi => ?_
  rw [clear]
  simp only [if_pos hi]

/-- After a switch the new console's buffer is on the screen. -/
theorem mirrors_swapTo (s : Terminal) (new : ConIdx) :
    Mirrors (swapTo new s) := by
  intro i hi
  rw [swapTo_currentConsole, swapTo_video s new i hi]

/-- The step lemma: what keeps buffer and screen equal. -/
theorem Mirrors.step_iff {s : Terminal} (h : Mirrors s) (hSane : Sane s)
    (op : Op) : Mirrors (op.run s) ↔ Undisturbed s op := by
  cases op with
  | putchar con c =>
      rw [Op.run, consolePutchar_eq hSane]
      exact h.output_iff con c
  | echo c =>
      rw [Op.run, consoleEcho_eq hSane, h.output_iff]
      exact forall_prop_of_true rfl
  | bksp =>
      rw [Op.run, consoleBksp_eq hSane, mirrors_setConstate_iff,
        h.backed.output_iff]
      exact forall_prop_of_true rfl
  | clrsc => exact mirrors_clrsc_iff s
  | swap newIdx =>
      refine ⟨fun _ => trivial, fun _ => ?_⟩
      rw [Op.run, vtermSwapConsole_eq hSane]
      split
      · exact mirrors_swapTo s _
      · exact h
  | input con stop inp =>
      refine ⟨fun _ => trivial, fun _ i hi => ?_⟩
      have hBuf : ((s.setInput con stop inp).vterms s.currentConsole).vidBuf =
          (s.vterms s.currentConsole).vidBuf :=
        update_same s.vterms con Console.vidBuf (by rfl) s.currentConsole
      exact (congrFun hBuf i).trans (h i hi)
  | memory behind => exact ⟨fun _ => trivial, fun _ => h⟩

/-! ## Runs -/

/-- Once they are equal, buffer and screen stay equal as long as no operation
disturbs them. -/
theorem mirror_run {s : Terminal} (h : Sane s) (hMirror : Mirrors s)
    (ops : List Op) :
    consoles.Always MirrorStep s ops ↔ consoles.Always Undisturbed s ops := by
  refine consoles.always_iff_of_invariant
    (I := fun s => Sane s ∧ Mirrors s) ?_ ?_ ops s ⟨h, hMirror⟩
      (consoles_legal s ops)
  · intro s op hInv _ hKeeps
    have hSane : Sane (op.run s) := hInv.1.step op
    have hNext : Mirrors (op.run s) := (hInv.2.step_iff hInv.1 op).2 hKeeps
    exact ⟨⟨hNext, hSane.redisplays⟩, hSane, hNext⟩
  · intro s op hInv _ hStep
    exact (hInv.2.step_iff hInv.1 op).1 hStep.1

/-! ## The first operation -/

/-- A cell of the first console that is not on the screen. -/
structure Torn (s : Terminal) : Prop where
  displayed : s.currentConsole = 0
  buffer : (s.vterms 0).vidBuf 100 = { codept := 0, style := 0 }
  screen : s.video 100 = { codept := space, style := 0x7 }

theorem Torn.not_mirrors {s : Terminal} (h : Torn s) : ¬ Mirrors s := by
  intro hMirror
  have hCell := hMirror 100 (by decide)
  rw [h.displayed, h.buffer, h.screen] at hCell
  revert hCell
  decide

theorem Torn.output {s : Terminal} (h : Torn s) {t : ConIdx} {c : Byte}
    (hBottom : ¬ (s.constate t).atBottom) (hCursor : (s.constate t).cursor ≠ 100) :
    Torn (s.output t c) := by
  have hScrolls : ¬ (s.constate t).scrollsOn c := by
    unfold ConsoleState.scrollsOn
    split
    · exact hBottom
    · exact fun hFull => hBottom hFull.2
  refine ⟨by rw [output_currentConsole, h.displayed], ?_, ?_⟩
  · by_cases ht : (0 : ConIdx) = t
    · subst ht
      rw [output_vidBuf_of_ne _ _ _ hScrolls hCursor.symm, h.buffer]
    · rw [output_vterms_of_ne _ _ _ ht, h.buffer]
  · rw [output_video_of_ne _ _ _ hScrolls hCursor.symm, h.screen]

theorem Torn.setConstate {s : Terminal} (h : Torn s) (t : ConIdx)
    (st : ConsoleState) : Torn (s.setConstate t st) where
  displayed := h.displayed
  buffer := by
    rw [← h.buffer]
    exact congrFun
      (update_same s.vterms t Console.vidBuf (by rfl) 0) 100
  screen := h.screen

theorem Booted.torn {s : Terminal} (h : Booted s) : Torn s :=
  ⟨h.displayed, h.buffer 100 (by decide), h.screen 100 (by decide) (by decide)⟩

/-- No other first operation makes buffer and screen equal. -/
theorem Booted.step_torn {s : Terminal} (h : Booted s) {op : Op}
    (hOp : ¬ op.switches) : Torn (op.run s) := by
  have hTorn := h.torn
  have hStates : ∀ t, ¬ (s.constate t).atBottom ∧ (s.constate t).cursor ≠ 100 := by
    intro t
    by_cases ht : t = 0
    · subst ht
      rw [h.state]
      decide
    · rw [h.states t ht]
      decide
  cases op with
  | putchar con c =>
      rw [Op.run, consolePutchar_eq h.sane]
      exact hTorn.output (hStates con).1 (hStates con).2
  | echo c =>
      rw [Op.run, consoleEcho_eq h.sane]
      exact hTorn.output (hStates _).1 (hStates _).2
  | bksp =>
      have hBacked : ¬ (s.backed.constate s.currentConsole).atBottom ∧
          (s.backed.constate s.currentConsole).cursor ≠ 100 := by
        rw [backed_constate, h.displayed, h.state]
        decide
      rw [Op.run, consoleBksp_eq h.sane]
      exact ((hTorn.setConstate _ _).output hBacked.1 hBacked.2).setConstate _ _
  | clrsc =>
      rw [Op.run, consoleClrsc_eq, h.displayed]
      exact ⟨h.displayed, by rw [put_vidBuf]; exact hTorn.buffer, rfl⟩
  | swap newIdx =>
      rw [Op.run, vtermSwapConsole_eq h.sane]
      cases hIdx : validIdx newIdx with
      | none => exact hTorn
      | some new => exact absurd (by rw [Op.switches, hIdx]; rfl) hOp
  | input con stop inp =>
      exact ⟨h.displayed, by
        rw [← hTorn.buffer]
        exact congrFun
          (update_same s.vterms con Console.vidBuf (by rfl) 0) 100, hTorn.screen⟩
  | memory behind => exact ⟨h.displayed, hTorn.buffer, hTorn.screen⟩

theorem Sane.mirrors_of_switches {s : Terminal} (h : Sane s) {op : Op}
    (hOp : op.switches) : Mirrors (op.run s) := by
  cases op with
  | swap newIdx =>
      obtain ⟨new, hNew⟩ := Option.isSome_iff_exists.1 hOp
      rw [Op.run, vtermSwapConsole_eq h, hNew]
      exact mirrors_swapTo s new
  | putchar | echo | bksp | clrsc | input | memory => exact hOp.elim

/-- The runs after initialisation that keep buffer and screen equal: a switch
comes first, and nothing disturbs them after it. -/
def KeepsMirror (s : Terminal) : List Op → Prop
  | [] => True
  | op :: ops => op.switches ∧ consoles.Always Undisturbed (op.run s) ops

/-- The buffer of the displayed console is what is on the screen after every
operation of exactly these runs. -/
theorem screen_mirror (video : Nat → VgaChar) (padding : ConIdx → Nat → Byte)
    (behind : Nat → Byte) (ops : List Op) :
    consoles.Always MirrorStep (bootTerminal video padding behind) ops ↔
      KeepsMirror (bootTerminal video padding behind) ops := by
  have hBooted := booted video padding behind
  generalize bootTerminal video padding behind = s at hBooted
  cases ops with
  | nil => exact Iff.rfl
  | cons op ops =>
      have hSane := hBooted.sane.step op
      constructor
      · rintro ⟨hFirst, hRest⟩
        have hOp : op.switches := by
          by_contra hNot
          exact (hBooted.step_torn hNot).not_mirrors hFirst.1
        exact ⟨hOp, (mirror_run hSane hFirst.1 ops).1 hRest⟩
      · rintro ⟨hOp, hRest⟩
        have hMirror := hBooted.sane.mirrors_of_switches hOp
        exact ⟨⟨hMirror, hSane.redisplays⟩,
          (mirror_run hSane hMirror ops).2 hRest⟩

/-- A newline on the last row scrolls the bytes behind the buffer into the
last row but one, but nothing into the screen. -/
theorem scroll_torn {s : Terminal} (h : Sane s) (hMirror : Mirrors s)
    (hCur : s.currentConsole = 0) (hBottom : (s.constate 0).atBottom)
    (hColumn : (s.constate 1).vcurX = 0)
    (hRow : s.video 1929 = { codept := space, style := 0x7 }) :
    ¬ Mirrors (consolePutchar 0 newline s) := by
  rw [consolePutchar_eq h, hMirror.output_iff]
  intro hAll
  have hSame := hAll hCur.symm hBottom 1929 (by decide) (by decide)
  have hBehind : s.cell 0 (1929 + numCols) = s.cellBehind 0 9 := rfl
  have hHere : s.cell 0 1929 = s.video 1929 := by
    rw [Terminal.cell, if_pos (by decide), ← hMirror 1929 (by decide), hCur]
  have hStored : s.stored 0 newline = s := if_pos rfl
  rw [hStored, hBehind, hHere, hRow] at hSame
  have hStyle := congrArg VgaChar.style hSame
  rw [cellBehind_cursor, hColumn] at hStyle
  revert hStyle
  decide

/-- The first character after initialisation leaves the blank screen and the
zeros in the buffer as they are.  After a switch they are equal, until 24
newlines scroll. -/
theorem screen_mirror_broken :
    ¬ consoles.Always MirrorStep
        (bootTerminal (fun _ => ⟨0, 0⟩) (fun _ _ => 0) fun _ => 0)
        [.putchar 0 0x61] ∧
    ¬ consoles.Always MirrorStep
        (bootTerminal (fun _ => ⟨0, 0⟩) (fun _ _ => 0) fun _ => 0)
        (.swap 0 :: List.replicate 24 (.putchar 0 newline)) := by
  have hBooted := booted (fun _ => ⟨0, 0⟩) (fun _ _ => 0) fun _ => 0
  generalize bootTerminal (fun _ => ⟨0, 0⟩) (fun _ _ => 0) (fun _ => 0) = s
    at hBooted
  refine ⟨fun hAlways => ?_, fun hAlways => ?_⟩
  · have hOutput : ¬ (Op.putchar 0 0x61).switches := id
    exact (hBooted.step_torn hOutput).not_mirrors hAlways.1.1
  · have hSwap : consoles.step s (.swap 0) = swapTo 0 s :=
      vtermSwapConsole_eq hBooted.sane 0
    have hSane := hBooted.sane.swapTo 0
    have hState : (swapTo 0 s).constate 0 = { newConstate with vcurY := 1 } := by
      rw [swapTo_constate, hBooted.state]
    have hRun := consoles_run_newlines 23 hSane (t := 0) (by rw [hState]; rfl)
      (by rw [hState]; decide)
    have hSplit : List.replicate 24 (Op.putchar 0 newline) =
        List.replicate 23 (Op.putchar 0 newline) ++ [Op.putchar 0 newline] := rfl
    have hRest := hAlways.2
    rw [hSwap, hSplit, consoles.always_append, hRun, hState] at hRest
    refine scroll_torn (hSane.setConstate 0 ?_)
      ((mirrors_setConstate_iff _ _ _).2 (mirrors_swapTo s 0)) rfl ?_ ?_ ?_
      hRest.2.1.1
    · exact ⟨rfl, rfl, rfl, show 0 < numCols by decide,
        show 1 + 23 < numRows by decide⟩
    · rw [setConstate_eq_put, put_constate]
      decide
    · rw [setConstate_eq_put, Terminal.constate, put_vterms_of_ne _ _ _ _ _ (by decide),
        ← Terminal.constate, swapTo_constate, hBooted.states 1 (by decide)]
      rfl
    · rw [setConstate_eq_put, put_video, swapTo_video _ _ _ (by decide),
        swapTo_vidBuf, if_pos ⟨hBooted.displayed.symm, by decide⟩]
      exact hBooted.screen 1929 (by decide) (by decide)

end CompE.Vterm
