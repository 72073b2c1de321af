import CompE.Library.Machine
import CompE.Vterm.Output

/-!
# The operations on the consoles

What a run of the driver is made of: output by processes, echoes, backspaces
and clears from the keyboard, switches.  A process is running in each of them,
so `cur_pcb` is no null pointer.

A key with `ctrl` or `alt` is several echoes, and Enter is the echo of a
newline.  Reading a line changes a console as well, though not what is on it
(`input`); and what lies behind `vterms` belongs to the rest of the kernel
(`memory`).
-/

namespace CompE.Vterm

open CompE.Library
open CompE.Kernel (Byte)

/-! ## Backspace and clear -/

theorem Ready.bkspMove {st : ConsoleState} (h : Ready st) :
    Ready (bkspMove st) := by
  have hColumn := h.column
  have hRow := h.row
  unfold CompE.Vterm.bkspMove
  split
  · split
    · exact { h with
        column := show 0 < numCols by decide, row := show 0 < numRows by decide }
    · refine { h with column := show numCols - 1 < numCols by decide, row := ?_ }
      simp only
      split <;> omega
  · split
    · exact { h with column := by simp only; omega }
    · exact h

theorem setConstate_setConstate (s : Terminal) (t : ConIdx)
    (st st' : ConsoleState) :
    (s.setConstate t st).setConstate t st' = s.setConstate t st' := by
  simp [setConstate_eq_put]

theorem Sane.setConstate {s : Terminal} (h : Sane s) (t : ConIdx)
    {st : ConsoleState} (hReady : Ready st) : Sane (s.setConstate t st) := by
  rw [setConstate_eq_put]
  exact h.put t hReady _ _

/-- The terminals with the cursor where a backspace moves it. -/
def Terminal.backed (s : Terminal) : Terminal :=
  s.setConstate s.currentConsole (bkspMove (s.constate s.currentConsole))

theorem Sane.backed {s : Terminal} (h : Sane s) : Sane s.backed :=
  h.setConstate _ (h.ready _).bkspMove

@[simp] theorem backed_currentConsole (s : Terminal) :
    s.backed.currentConsole = s.currentConsole := rfl

@[simp] theorem backed_constate (s : Terminal) :
    s.backed.constate s.currentConsole =
      bkspMove (s.constate s.currentConsole) := by
  simp [Terminal.backed, setConstate_eq_put]

@[simp] theorem backed_vidBuf (s : Terminal) (c : ConIdx) :
    (s.backed.vterms c).vidBuf = (s.vterms c).vidBuf := by
  by_cases hc : c = s.currentConsole
  · subst hc
    simp [Terminal.backed, Terminal.setConstate]
  · simp [Terminal.backed, Terminal.setConstate, hc]

@[simp] theorem backed_cellBehind (s : Terminal) (j : Nat) :
    s.backed.cellBehind s.currentConsole j =
      s.cellBehind s.currentConsole j := by
  rw [Terminal.backed, setConstate_eq_put, put_cellBehind]

/-- A backspace writes a blank where the cursor goes, and goes there again. -/
theorem consoleBksp_eq {s : Terminal} (h : Sane s) :
    consoleBksp s =
      (s.backed.output s.currentConsole space).setConstate s.currentConsole
        (bkspMove (s.constate s.currentConsole)) := by
  simp only [consoleBksp, setConstate_setConstate]
  rw [← Terminal.backed, consoleEcho_eq h.backed, backed_currentConsole]

theorem consoleClrsc_eq (s : Terminal) :
    consoleClrsc s =
      s.put s.currentConsole
        { s.constate s.currentConsole with vcurX := 0, vcurY := 0 }
        (s.vterms s.currentConsole).vidBuf (clear s).video := by
  simp only [consoleClrsc, setConstate_eq_put]
  rfl

theorem Ready.home {st : ConsoleState} (h : Ready st) :
    Ready { st with vcurX := 0, vcurY := 0 } :=
  { h with column := show 0 < numCols by decide
           row := show 0 < numRows by decide }

/-! ## Switch -/

section Swap

variable (s : Terminal) (new : ConIdx)

@[simp] theorem swapTo_currentConsole :
    (swapTo new s).currentConsole = new := rfl

/-- The screen is saved in the buffer of the console that was displayed. -/
theorem swapTo_vterms (c : ConIdx) :
    (swapTo new s).vterms c =
      { s.vterms c with
        current := if c = new then true
          else if c = s.currentConsole then false else (s.vterms c).current
        vidBuf := fun i =>
          if c = s.currentConsole ∧ i < numRows * numCols then s.video i
          else (s.vterms c).vidBuf i } := by
  simp only [swapTo]
  by_cases hNew : c = new
  · subst hNew
    by_cases hCur : c = s.currentConsole
    · subst hCur; simp
    · simp [hCur]
  · by_cases hCur : c = s.currentConsole
    · subst hCur; simp [hNew]
    · simp [hNew, hCur]

@[simp] theorem swapTo_constate (c : ConIdx) :
    (swapTo new s).constate c = s.constate c := by
  simp only [Terminal.constate, swapTo_vterms]

theorem swapTo_vidBuf (c : ConIdx) (i : Nat) :
    ((swapTo new s).vterms c).vidBuf i =
      if c = s.currentConsole ∧ i < numRows * numCols then s.video i
      else (s.vterms c).vidBuf i := by
  simp only [swapTo_vterms]

/-- The screen is then the buffer of the new console. -/
theorem swapTo_video (i : Nat) (hi : i < numRows * numCols) :
    (swapTo new s).video i = ((swapTo new s).vterms new).vidBuf i := by
  simp [swapTo, hi]

end Swap

theorem Sane.swapTo {s : Terminal} (h : Sane s) (new : ConIdx) :
    Sane (swapTo new s) where
  present c := by rw [swapTo_vterms]; exact h.present c
  id c := by rw [swapTo_vterms]; exact h.id c
  current c := by
    simp only [swapTo_vterms, swapTo_currentConsole, h.current c]
    by_cases hNew : c = new
    · simp [hNew]
    · simp [hNew]
  ready c := by rw [swapTo_constate]; exact h.ready c

/-- The index of a console that a switch can go to. -/
def validIdx (newIdx : Int) : Option ConIdx :=
  if h : 0 ≤ newIdx ∧ newIdx < 3 then some ⟨newIdx.toNat, conIdx_lt h⟩ else none

theorem validIdx_val (c : ConIdx) : validIdx (c.val : Int) = some c := by
  unfold validIdx
  rw [dif_pos (by omega)]
  simp

theorem vtermSwapConsole_eq {s : Terminal} (h : Sane s) (newIdx : Int) :
    vtermSwapConsole newIdx s =
      match validIdx newIdx with
      | some new => swapTo new s
      | none => s := by
  unfold vtermSwapConsole validIdx
  by_cases hRange : 0 ≤ newIdx ∧ newIdx < 3
  · simp only [dif_pos hRange, h.present, if_true]
  · simp only [dif_neg hRange]

/-! ## Operations -/

inductive Op where
  | putchar (con : ConIdx) (c : Byte)
  | echo (c : Byte)
  | bksp
  | clrsc
  | swap (newIdx : Int)
  | input (con : ConIdx) (stop : Byte) (inp : BufferedInput)
  | memory (behind : Nat → Byte)

/-- Whether an operation is a switch to some console. -/
def Op.switches : Op → Prop
  | .swap newIdx => (validIdx newIdx).isSome
  | _ => False

/-- A read of a line, or a key that goes into it. -/
def Terminal.setInput (s : Terminal) (con : ConIdx) (stop : Byte)
    (inp : BufferedInput) : Terminal :=
  { s with
    vterms := Function.update s.vterms con
      { s.vterms con with
        constate := { s.constate con with conBkspstopCol := stop }
        currentInput := inp } }

def Op.run : Op → Terminal → Terminal
  | .putchar con c, s => consolePutchar con c s
  | .echo c, s => consoleEcho c s
  | .bksp, s => consoleBksp s
  | .clrsc, s => consoleClrsc s
  | .swap newIdx, s => vtermSwapConsole newIdx s
  | .input con stop inp, s => s.setInput con stop inp
  | .memory behind, s => { s with behind := behind }

/-- The driver.  Every operation can come at any time. -/
def consoles : Machine Terminal Op Unit where
  step s op := op.run s
  emit _ _ := []
  legal _ _ := True

theorem consoles_legal (s : Terminal) (ops : List Op) : consoles.Legal s ops :=
  consoles.always_of_forall (fun _ _ => trivial) s ops

theorem Sane.setInput {s : Terminal} (h : Sane s) (con : ConIdx) (stop : Byte)
    (inp : BufferedInput) : Sane (s.setInput con stop inp) where
  present c :=
    (update_same s.vterms con Console.present (by rfl) c).trans (h.present c)
  id c := (update_same s.vterms con Console.id (by rfl) c).trans (h.id c)
  current c :=
    (update_same s.vterms con Console.current (by rfl) c).trans (h.current c)
  ready c := by
    have hReady := h.ready c
    by_cases hc : c = con
    · subst hc
      simp only [Terminal.setInput, Terminal.constate, Function.update_self]
      exact { hReady with }
    · simpa [Terminal.setInput, Terminal.constate, hc] using hReady

/-- Every operation keeps the consoles in order. -/
theorem Sane.step {s : Terminal} (h : Sane s) (op : Op) : Sane (op.run s) := by
  cases op with
  | putchar con c =>
      rw [Op.run, consolePutchar_eq h]
      exact h.output con c
  | echo c =>
      rw [Op.run, consoleEcho_eq h]
      exact h.output _ c
  | bksp =>
      rw [Op.run, consoleBksp_eq h]
      exact (h.backed.output _ space).setConstate _ (h.ready _).bkspMove
  | clrsc =>
      rw [Op.run, consoleClrsc_eq]
      exact h.put _ (h.ready _).home _ _
  | swap newIdx =>
      rw [Op.run, vtermSwapConsole_eq h]
      split
      · exact h.swapTo _
      · exact h
  | input con stop inp => exact h.setInput con stop inp
  | memory behind => exact { h with }

/-- Newlines above the last row only move the cursor down. -/
theorem consoles_run_newlines {t : ConIdx} :
    ∀ (n : Nat) {s : Terminal}, Sane s → (s.constate t).vcurX = 0 →
      (s.constate t).vcurY + n < numRows →
      consoles.run s (List.replicate n (.putchar t newline)) =
        s.setConstate t
          { s.constate t with vcurY := (s.constate t).vcurY + n } := by
  intro n
  induction n with
  | zero =>
      intro s _ _ _
      rw [setConstate_eq_put]
      exact (put_self s t).symm
  | succ n ih =>
      intro s h hColumn hRow
      have hBottom : ¬ (s.constate t).atBottom := by
        simp only [ConsoleState.atBottom]
        omega
      have hNext : (s.constate t).nextRow =
          { s.constate t with vcurY := (s.constate t).vcurY + 1 } := by
        rw [ConsoleState.nextRow, if_neg hBottom, ← hColumn]
      have hStep : consoles.step s (.putchar t newline) =
          s.setConstate t
            { s.constate t with vcurY := (s.constate t).vcurY + 1 } := by
        show consolePutchar t newline s = _
        rw [consolePutchar_eq h, output_newline s t hBottom, hNext]
      have hState : (s.setConstate t
          { s.constate t with vcurY := (s.constate t).vcurY + 1 }).constate t =
          { s.constate t with vcurY := (s.constate t).vcurY + 1 } := by
        rw [setConstate_eq_put, put_constate]
      rw [List.replicate_succ, Machine.run, hStep,
        ih (h.setConstate t (by rw [← hNext]; exact (h.ready t).nextRow))
          (by rw [hState]; exact hColumn) (by rw [hState]; simp only; omega),
        setConstate_setConstate, hState]
      simp only [Nat.add_assoc, Nat.add_comm 1 n]

/-- The column of the next console's cursor is behind the buffer. -/
theorem cellBehind_cursor (s : Terminal) :
    (s.cellBehind 0 9).style = wordByte (s.constate 1).vcurX 0 := by
  have hNext : ¬ vidBufOffset + 2 * (numRows * numCols) + (2 * 9 + 1) < consoleSize := by
    decide
  simp only [Terminal.cellBehind, Terminal.byteBehind, if_neg hNext]
  rfl

/-! ## After initialisation -/

private theorem consolePuts_nil (s : Terminal) : consolePuts [] s = s := rfl

private theorem consolePuts_cons (c : Byte) (str : List Byte) (s : Terminal) :
    consolePuts (c :: str) s = consolePuts str (consolePutchar 0 c s) := rfl

theorem Sane.consolePuts {str : List Byte} :
    ∀ {s : Terminal}, Sane s → Sane (consolePuts str s) := by
  induction str with
  | nil => intro s h; exact h
  | cons c str ih =>
      intro s h
      have hOutput : Sane (consolePutchar 0 c s) := by
        rw [consolePutchar_eq h]
        exact h.output 0 c
      exact ih hOutput

/-- The terminals before the message of `console_init`. -/
def freshTerminal (video : Nat → VgaChar) (padding : ConIdx → Nat → Byte)
    (behind : Nat → Byte) : Terminal where
  vterms c :=
    { zeroConsole with
      present := true
      id := c.val
      current := decide (c = 0)
      constate := newConstate }
  currentConsole := 0
  video := fun i =>
    if i < numRows * numCols then { codept := space, style := 0x7 } else video i
  padding := padding
  behind := behind

section Boot

variable (video : Nat → VgaChar) (padding : ConIdx → Nat → Byte)
  (behind : Nat → Byte)

private theorem vtermNew_eq {s : Terminal} {idx : ConIdx}
    (h : s.vterms idx = zeroConsole) :
    vtermNew idx s =
      { s with
        vterms := Function.update s.vterms idx
          { zeroConsole with
            id := idx.val, constate := newConstate, present := true }
        video := fun i =>
          if i < numRows * numCols then newConstate.charstyle
          else s.video i } := by
  simp [vtermNew, h, zeroConsole]

theorem bootTerminal_eq :
    bootTerminal video padding behind =
      consolePuts initMessage (freshTerminal video padding behind) := by
  have hFresh :
      (let s1 := clear (vtermNew 2 (vtermNew 1 (vtermInit
        { vterms := fun _ => zeroConsole, currentConsole := 0, video := video
          padding := padding, behind := behind })))
      s1.setConstate 0
        { newConstate with
          charstyle := { newConstate.charstyle with
            codept := (s1.constate 0).charstyle.codept } }) =
      freshTerminal video padding behind := by
    simp only [vtermInit]
    rw [vtermNew_eq (by rfl), vtermNew_eq (by rfl), vtermNew_eq (by rfl)]
    simp only [clear, Terminal.setConstate, Terminal.constate, freshTerminal]
    congr 1
    · funext c
      have hCases : c = 0 ∨ c = 1 ∨ c = 2 := by
        revert c
        decide
      rcases hCases with rfl | rfl | rfl
      · simp [newConstate]
      · simp
        rfl
      · simp
        rfl
    · funext i
      split
      · rfl
      · rfl
  unfold bootTerminal consoleInit
  exact congrArg (consolePuts initMessage) hFresh

theorem sane_fresh : Sane (freshTerminal video padding behind) where
  present _ := rfl
  id _ := rfl
  current _ := rfl
  ready _ := ⟨rfl, rfl, rfl, show 0 < numCols by decide,
    show 0 < numRows by decide⟩

theorem sane_boot : Sane (bootTerminal video padding behind) := by
  rw [bootTerminal_eq]
  exact (sane_fresh video padding behind).consolePuts

end Boot

/-- What printing `n` characters in the first row leaves. -/
structure Printed (s s' : Terminal) (n : Nat) : Prop where
  sane : Sane s'
  displayed : s'.currentConsole = s.currentConsole
  state : s'.constate 0 =
    { s.constate 0 with vcurX := (s.constate 0).vcurX + n }
  buffer : ∀ i, numCols ≤ i → (s'.vterms 0).vidBuf i = (s.vterms 0).vidBuf i
  screen : ∀ i, numCols ≤ i → s'.video i = s.video i
  others : ∀ c, c ≠ 0 → s'.vterms c = s.vterms c

/-- The step lemma: one more character. -/
theorem Printed.putchar {s s' : Terminal} {n : Nat} (h : Printed s s' n)
    {c : Byte} (hChar : c ≠ newline) (hRow : (s.constate 0).vcurY = 0)
    (hFits : (s.constate 0).vcurX + n + 1 < numCols) :
    Printed s (consolePutchar 0 c s') (n + 1) := by
  have hState := h.state
  have hColumn : (s'.constate 0).vcurX + 1 < numCols := by rw [hState]; exact hFits
  have hScrolls : ¬ (s'.constate 0).scrollsOn c := by
    rw [ConsoleState.scrollsOn, if_neg hChar]
    exact fun hFull => hFull.1 hColumn
  have hCursor : ∀ i, numCols ≤ i → i ≠ (s'.constate 0).cursor := by
    intro i hi hEq
    have hTop : (s'.constate 0).vcurY = 0 := by rw [hState]; exact hRow
    rw [ConsoleState.cursor, hTop, Nat.zero_mul] at hEq
    omega
  rw [consolePutchar_eq h.sane]
  exact
    { sane := h.sane.output 0 c
      displayed := by rw [output_currentConsole, h.displayed]
      state := by
        rw [output_constate, ConsoleState.after, if_neg hChar,
          ConsoleState.nextColumn, if_pos hColumn, hState]
        rfl
      buffer := fun i hi => by
        rw [output_vidBuf_of_ne _ _ _ hScrolls (hCursor i hi), h.buffer i hi]
      screen := fun i hi => by
        rw [output_video_of_ne _ _ _ hScrolls (hCursor i hi), h.screen i hi]
      others := fun b hb => by rw [output_vterms_of_ne _ _ _ hb, h.others b hb] }

theorem Printed.puts {s : Terminal} {str : List Byte} :
    ∀ {s' : Terminal} {n : Nat}, Printed s s' n →
      (∀ c ∈ str, c ≠ newline) → (s.constate 0).vcurY = 0 →
      (s.constate 0).vcurX + n + str.length < numCols →
      Printed s (consolePuts str s') (n + str.length) := by
  induction str with
  | nil => intro s' n h _ _ _; exact h
  | cons c str ih =>
      intro s' n h hChars hRow hFits
      simp only [List.length_cons] at hFits ⊢
      have hHere := h.putchar (hChars c (List.mem_cons_self ..)) hRow (by omega)
      have hRest := ih hHere (fun d hd => hChars d (List.mem_cons_of_mem _ hd))
        hRow (by omega)
      rwa [Nat.add_right_comm, Nat.add_assoc] at hRest

private theorem consolePuts_append (str str' : List Byte) (s : Terminal) :
    consolePuts (str ++ str') s = consolePuts str' (consolePuts str s) :=
  List.foldl_append ..

/-- The terminals after initialisation.  The screen is blank from the second
row on, the buffers hold zeros there. -/
structure Booted (s : Terminal) : Prop where
  sane : Sane s
  displayed : s.currentConsole = 0
  state : s.constate 0 = { newConstate with vcurY := 1 }
  states : ∀ c, c ≠ 0 → s.constate c = newConstate
  buffer : ∀ i, numCols ≤ i →
    (s.vterms 0).vidBuf i = { codept := 0, style := 0 }
  screen : ∀ i, numCols ≤ i → i < numRows * numCols →
    s.video i = { codept := space, style := 0x7 }

theorem booted (video : Nat → VgaChar) (padding : ConIdx → Nat → Byte)
    (behind : Nat → Byte) : Booted (bootTerminal video padding behind) := by
  rw [bootTerminal_eq]
  generalize hFresh : freshTerminal video padding behind = s
  have hSane : Sane s := by rw [← hFresh]; exact sane_fresh video padding behind
  have hDisplayed : s.currentConsole = 0 := by rw [← hFresh]; rfl
  have hState : s.constate 0 = newConstate := by rw [← hFresh]; rfl
  have hStart : Printed s s 0 :=
    ⟨hSane, rfl, rfl, fun _ _ => rfl, fun _ _ => rfl, fun _ _ => rfl⟩
  have hMessage : initMessage = initMessage.dropLast ++ [newline] := by decide
  have hChars : ∀ c ∈ initMessage.dropLast, c ≠ newline := by decide
  have hPrinted := hStart.puts hChars (by rw [hState]; rfl)
    (by rw [hState]; decide)
  rw [hMessage, consolePuts_append]
  generalize consolePuts initMessage.dropLast s = s' at hPrinted
  have hColumn : s'.constate 0 = { newConstate with vcurX := 27 } := by
    rw [hPrinted.state, hState]
    rfl
  have hBottom : ¬ (s'.constate 0).atBottom := by
    rw [hColumn]
    decide
  have hNewline : consolePuts [newline] s' =
      s'.setConstate 0 { newConstate with vcurY := 1 } := by
    rw [consolePuts_cons, consolePuts_nil, consolePutchar_eq hPrinted.sane,
      output_newline _ _ hBottom, hColumn]
    rfl
  rw [hNewline]
  exact
    { sane := hPrinted.sane.setConstate 0
        ⟨rfl, rfl, rfl, show 0 < numCols by decide, show 1 < numRows by decide⟩
      displayed := by
        rw [setConstate_eq_put, put_currentConsole, hPrinted.displayed,
          hDisplayed]
      state := by simp [setConstate_eq_put]
      states := fun c hc => by
        rw [setConstate_eq_put, Terminal.constate, put_vterms_of_ne _ _ _ _ _ hc,
          hPrinted.others c hc, ← hFresh]
        rfl
      buffer := fun i hi => by
        rw [setConstate_eq_put, put_vidBuf, hPrinted.buffer i hi, ← hFresh]
        rfl
      screen := fun i hi hEnd => by
        rw [setConstate_eq_put, put_video, hPrinted.screen i hi, ← hFresh]
        exact if_pos hEnd }

end CompE.Vterm
