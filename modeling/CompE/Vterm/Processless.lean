import CompE.Vterm.Operations

/-!
# Output before the first process

`cur_pcb` is `NULL` until a process runs.  `console_putchar` and its helpers
then work on the first console, but for the first line of `console_scroll`, which
takes the console of `cur_pcb` without a look at the pointer.  Here `none` as a
process is the `NULL` pointer, and `none` as a result that it has been followed.

A character that is written without a process also goes to the screen, whichever
console is displayed.
-/

namespace CompE.Vterm

open CompE.Kernel (Byte)

/-! ## The functions of a process that may be missing -/

/-- `(cur_pcb)? &vterms[cur_pcb->con] : &vterms[0]` -/
def outOf (proc : Option ConIdx) : ConIdx := proc.getD 0

/-- `!cur_pcb || cur_pcb->con == current_console->id` -/
def Terminal.writesThrough (s : Terminal) (proc : Option ConIdx) : Bool :=
  match proc with
  | none => true
  | some con => con.val == (s.vterms s.currentConsole).id

/-- `console_setcursorpos` -/
def setcursorpos (con : ConIdx) (x y : Nat) (s : Terminal) : Terminal :=
  if x < numCols ∧ y < numRows then
    s.setConstate con { s.constate con with vcurX := x, vcurY := y }
  else s

/-- `console_scroll` of one line, for a process on console `con`. -/
def scrollLine (con : ConIdx) (s : Terminal) : Terminal :=
  let old := s.constate con
  let s1 := setcursorpos con 0 (numRows - 1) (moveUp con s)
  let s2 := s1.setConstate con
    { s1.constate con with vcurAutoincEn := true, conScroll := false }
  let s3 := (putcharUnscrolled con false space)^[numCols] s2
  let s4 := setcursorpos con old.vcurX old.vcurY s3
  s4.setConstate con { s4.constate con with conScroll := true }

/-- `console_scroll`, with `force_current` false.  Its first line follows
`cur_pcb`. -/
def consoleScrollOf (proc : Option ConIdx) (s : Terminal) : Option Terminal :=
  match proc with
  | none => none
  | some con => some (if (s.constate con).conScroll then scrollLine con s else s)

/-- `num_chars` of `console_inccur`, an `int`. -/
def ConInc.rounds (inc : ConInc) (constate : ConsoleState) : Nat :=
  match inc with
  | .char => 1
  | .line => 1 + numCols
  | .linereturn => (1 + ((numCols : Int) - constate.vcurX - 1)).toNat
  | .screen => 1 + numCols * numRows

/-- `console_inccur`, with `force_current` false. -/
def consoleInccurOf (proc : Option ConIdx) (inc : ConInc) (s : Terminal) :
    Option Terminal :=
  let constate := s.constate (outOf proc)
  let r := (inccurStep fun s => s.bind (consoleScrollOf proc))^[inc.rounds constate]
    (constate, some s)
  r.2.map fun s => s.setConstate (outOf proc) r.1

/-- The character at the cursor, in the buffer and on the screen. -/
def storeCharOf (proc : Option ConIdx) (c : Byte) (s : Terminal) : Terminal :=
  let constate := s.constate (outOf proc)
  let outchar := constate.styled c
  { s with
    vterms := Function.update s.vterms (outOf proc)
      { s.vterms (outOf proc) with
        vidBuf :=
          Function.update (s.vterms (outOf proc)).vidBuf constate.cursor outchar }
    video :=
      if s.writesThrough proc then
        Function.update s.video constate.cursor outchar
      else s.video }

/-- `console_putchar`. -/
def consolePutcharOf (proc : Option ConIdx) (c : Byte) (s : Terminal) :
    Option Terminal :=
  if c = newline then consoleInccurOf proc .linereturn s
  else if (s.constate (outOf proc)).vcurAutoincEn then
    consoleInccurOf proc .char (storeCharOf proc c s)
  else some (storeCharOf proc c s)

/-- A string, character by character. -/
def consolePutsOf (proc : Option ConIdx) : List Byte → Terminal → Option Terminal
  | [], s => some s
  | c :: str, s => (consolePutcharOf proc c s).bind (consolePutsOf proc str)

/-! ## The rounds of the cursor -/

section Rounds

variable {α β : Type} {f : α → α} {g : β → β} {R : α → β → Prop}

/-- A round does the same to the cursor whatever scrolling is. -/
theorem inccurStep_related (hScroll : ∀ a b, R a b → R (f a) (g b))
    (st : ConsoleState) {a : α} {b : β} (h : R a b) :
    (inccurStep f (st, a)).1 = (inccurStep g (st, b)).1 ∧
      R (inccurStep f (st, a)).2 (inccurStep g (st, b)).2 := by
  simp only [inccurStep]
  split
  · split
    · split
      · refine ⟨rfl, ?_⟩
        show R (if st.conScroll then f a else a) (if st.conScroll then g b else b)
        split
        · exact hScroll a b h
        · exact h
      · exact ⟨rfl, h⟩
    · split <;> exact ⟨rfl, h⟩
  · exact ⟨rfl, h⟩

private theorem inccurSteps_related (hScroll : ∀ a b, R a b → R (f a) (g b)) (n : Nat)
    (st : ConsoleState) {a : α} {b : β} (h : R a b) :
    ((inccurStep f)^[n] (st, a)).1 = ((inccurStep g)^[n] (st, b)).1 ∧
      R ((inccurStep f)^[n] (st, a)).2 ((inccurStep g)^[n] (st, b)).2 := by
  induction n with
  | zero => exact ⟨rfl, h⟩
  | succ n ih =>
      rw [Function.iterate_succ_apply', Function.iterate_succ_apply']
      generalize (inccurStep f)^[n] (st, a) = x at ih ⊢
      generalize (inccurStep g)^[n] (st, b) = y at ih ⊢
      obtain ⟨stX, a'⟩ := x
      obtain ⟨stY, b'⟩ := y
      obtain ⟨hSt, hR⟩ := ih
      subst hSt
      exact inccurStep_related hScroll stX hR

end Rounds

/-- The cursor after its rounds, and whether they scroll. -/
def ConsoleState.advanced (st : ConsoleState) (inc : ConInc) :
    ConsoleState × Bool :=
  (inccurStep fun _ => true)^[inc.rounds st] (st, false)

/-- The cursor after a character, and whether it scrolls. -/
def ConsoleState.passed (st : ConsoleState) (c : Byte) : ConsoleState × Bool :=
  if c = newline then st.advanced .linereturn
  else if st.vcurAutoincEn then st.advanced .char
  else (st, false)

/-- The cell that a character is printed to. -/
def ConsoleState.printed (st : ConsoleState) (c : Byte) : List (Nat × VgaChar) :=
  if c = newline then [] else [(st.cursor, st.styled c)]

/-- A character of the string scrolls. -/
def ConsoleState.scrollsIn (st : ConsoleState) : List Byte → Bool
  | [] => false
  | c :: str => (st.passed c).2 || (st.passed c).1.scrollsIn str

/-- The cursor after a string. -/
def ConsoleState.afterAll (st : ConsoleState) : List Byte → ConsoleState
  | [] => st
  | c :: str => (st.passed c).1.afterAll str

/-- The cells that a string is printed to. -/
def ConsoleState.prints (st : ConsoleState) : List Byte → List (Nat × VgaChar)
  | [] => []
  | c :: str => st.printed c ++ (st.passed c).1.prints str

/-- Characters in their cells, the last one on top. -/
def overlay (writes : List (Nat × VgaChar)) (cells : Nat → VgaChar) :
    Nat → VgaChar :=
  writes.foldl (fun cells w => Function.update cells w.1 w.2) cells

private theorem overlay_append (ws vs : List (Nat × VgaChar)) (cells : Nat → VgaChar) :
    overlay (ws ++ vs) cells = overlay vs (overlay ws cells) :=
  List.foldl_append

section Inccur

variable {proc : Option ConIdx} {inc : ConInc} {s : Terminal}

/-- Without scrolling only the cursor moves. -/
theorem consoleInccurOf_quiet
    (h : ((s.constate (outOf proc)).advanced inc).2 = false) :
    consoleInccurOf proc inc s =
      some (s.setConstate (outOf proc)
        ((s.constate (outOf proc)).advanced inc).1) := by
  obtain ⟨hCursor, hSame⟩ := inccurSteps_related
    (f := fun _ : Bool => true) (g := fun s => s.bind (consoleScrollOf proc))
    (R := fun b o => b = false → o = some s)
    (fun _ _ _ hFalse => absurd hFalse Bool.noConfusion)
    (inc.rounds (s.constate (outOf proc))) (s.constate (outOf proc))
    (a := false) (fun _ => rfl)
  simp only [consoleInccurOf]
  rw [← hCursor, hSame h]
  rfl

/-- Scrolling without a process follows the pointer. -/
theorem consoleInccurOf_none
    (h : ((s.constate (outOf none)).advanced inc).2 = true) :
    consoleInccurOf none inc s = none := by
  obtain ⟨_, hNone⟩ := inccurSteps_related
    (f := fun _ : Bool => true) (g := fun s => s.bind (consoleScrollOf none))
    (R := fun b o => b = true → o = none)
    (fun _ o _ _ => by cases o <;> rfl)
    (inc.rounds (s.constate (outOf none))) (s.constate (outOf none))
    (a := false) (b := some s) (fun hTrue => absurd hTrue Bool.noConfusion)
  simp only [consoleInccurOf]
  rw [hNone h]
  rfl

end Inccur

/-! ## Strings -/

private theorem storeCharOf_eq (proc : Option ConIdx) {c : Byte} (hChar : c ≠ newline)
    (s : Terminal) :
    storeCharOf proc c s =
      s.put (outOf proc) (s.constate (outOf proc))
        (overlay ((s.constate (outOf proc)).printed c)
          (s.vterms (outOf proc)).vidBuf)
        (if s.writesThrough proc then
          overlay ((s.constate (outOf proc)).printed c) s.video else s.video) := by
  rw [ConsoleState.printed, if_neg hChar]
  rfl

/-- The terminals after a string that does not scroll. -/
def Terminal.printedOn (s : Terminal) (proc : Option ConIdx) (str : List Byte) :
    Terminal :=
  s.put (outOf proc) ((s.constate (outOf proc)).afterAll str)
    (overlay ((s.constate (outOf proc)).prints str)
      (s.vterms (outOf proc)).vidBuf)
    (if s.writesThrough proc then
      overlay ((s.constate (outOf proc)).prints str) s.video else s.video)

@[simp] theorem put_writesThrough (s : Terminal) (t : ConIdx) (st : ConsoleState)
    (buf screen : Nat → VgaChar) (proc : Option ConIdx) :
    (s.put t st buf screen).writesThrough proc = s.writesThrough proc := by
  cases proc with
  | none => rfl
  | some con => simp [Terminal.writesThrough]

section Strings

variable {proc : Option ConIdx} {s : Terminal}

/-- Without scrolling a character goes to its cell. -/
theorem consolePutcharOf_quiet {c : Byte}
    (h : ((s.constate (outOf proc)).passed c).2 = false) :
    consolePutcharOf proc c s =
      some (s.put (outOf proc) ((s.constate (outOf proc)).passed c).1
        (overlay ((s.constate (outOf proc)).printed c)
          (s.vterms (outOf proc)).vidBuf)
        (if s.writesThrough proc then
          overlay ((s.constate (outOf proc)).printed c) s.video else s.video)) := by
  by_cases hChar : c = newline
  · simp only [ConsoleState.passed, if_pos hChar] at h
    simp only [consolePutcharOf, ConsoleState.passed, ConsoleState.printed,
      if_pos hChar, consoleInccurOf_quiet h, setConstate_eq_put]
    exact congrArg some (congrArg _ (ite_self _).symm)
  · have hStored := storeCharOf_eq proc hChar s
    have hConstate : (storeCharOf proc c s).constate (outOf proc) =
        s.constate (outOf proc) := by
      rw [hStored, put_constate]
    simp only [consolePutcharOf, if_neg hChar]
    by_cases hAutoinc : (s.constate (outOf proc)).vcurAutoincEn = true
    · simp only [ConsoleState.passed, if_neg hChar, if_pos hAutoinc] at h ⊢
      rw [consoleInccurOf_quiet (by rw [hConstate]; exact h), hConstate, hStored,
        put_setConstate]
    · simp only [ConsoleState.passed, if_neg hChar, if_neg hAutoinc]
      rw [hStored]

variable (proc) in
private theorem consolePutsOf_quiet {str : List Byte} :
    ∀ {s : Terminal}, (s.constate (outOf proc)).scrollsIn str = false →
      consolePutsOf proc str s = some (s.printedOn proc str) := by
  induction str with
  | nil =>
      intro s _
      simp only [consolePutsOf, Terminal.printedOn, ConsoleState.afterAll,
        ConsoleState.prints, overlay, List.foldl_nil, ite_self, put_self]
  | cons c str ih =>
      intro s h
      obtain ⟨hHere, hRest⟩ := Bool.or_eq_false_iff.1 h
      rw [consolePutsOf, consolePutcharOf_quiet hHere, Option.bind_some,
        ih (by rw [put_constate]; exact hRest)]
      simp only [Terminal.printedOn, put_constate, put_vidBuf, put_video, put_put,
        put_writesThrough, ConsoleState.afterAll, ConsoleState.prints,
        overlay_append]
      cases s.writesThrough proc <;> rfl

end Strings

/-- Without a process a scrolling character follows the pointer. -/
theorem consolePutcharOf_none {c : Byte} {s : Terminal}
    (h : ((s.constate (outOf none)).passed c).2 = true) :
    consolePutcharOf none c s = none := by
  by_cases hChar : c = newline
  · simp only [ConsoleState.passed, if_pos hChar] at h
    rw [consolePutcharOf, if_pos hChar, consoleInccurOf_none h]
  · have hConstate : (storeCharOf none c s).constate (outOf none) =
        s.constate (outOf none) := by
      rw [storeCharOf_eq none hChar, put_constate]
    simp only [ConsoleState.passed, if_neg hChar] at h
    by_cases hAutoinc : (s.constate (outOf none)).vcurAutoincEn = true
    · rw [if_pos hAutoinc] at h
      rw [consolePutcharOf, if_neg hChar, if_pos hAutoinc,
        consoleInccurOf_none (by rw [hConstate]; exact h)]
    · rw [if_neg hAutoinc] at h
      exact absurd h Bool.false_ne_true

private theorem consolePutsOf_none {str : List Byte} :
    ∀ {s : Terminal}, (s.constate (outOf none)).scrollsIn str = true →
      consolePutsOf none str s = none := by
  induction str with
  | nil => intro s h; exact absurd h Bool.false_ne_true
  | cons c str ih =>
      intro s h
      rw [consolePutsOf]
      cases hHere : ((s.constate (outOf none)).passed c).2 with
      | true => rw [consolePutcharOf_none hHere, Option.bind_none]
      | false =>
          rw [ConsoleState.scrollsIn, hHere, Bool.false_or] at h
          rw [consolePutcharOf_quiet hHere, Option.bind_some,
            ih (by rw [put_constate]; exact h)]

/-! ## The first console -/

/-- Terminals that differ in the screen only. -/
theorem printedOn_eq_iff (s : Terminal) (str : List Byte) :
    s.printedOn none str = s.printedOn (some 0) str ↔
      (s.vterms s.currentConsole).id = 0 ∨
        overlay ((s.constate 0).prints str) s.video = s.video := by
  have hThrough : s.writesThrough (some 0) = true ↔
      (s.vterms s.currentConsole).id = 0 := by
    rw [Terminal.writesThrough, beq_iff_eq]
    exact eq_comm
  by_cases hId : (s.vterms s.currentConsole).id = 0
  · refine iff_of_true ?_ (.inl hId)
    simp only [Terminal.printedOn, if_pos (hThrough.2 hId)]
    rfl
  · have hNot : ¬ s.writesThrough (some 0) = true := fun h => hId (hThrough.1 h)
    simp only [Terminal.printedOn, if_neg hNot, hId, false_or]
    constructor
    · exact fun h => congrArg Terminal.video h
    · intro h
      exact congrArg (Terminal.put s 0 _ _) h

/--
**Output without a process.**  A string that is printed without a process ends
as with a process on the first console, and the missing process is not followed,
exactly if no character scrolls and the first console is displayed, or the
screen shows already what is printed.
-/
theorem processless_iff (s : Terminal) (str : List Byte) :
    (∃ s', consolePutsOf none str s = some s' ∧
        consolePutsOf (some 0) str s = some s') ↔
      (s.constate 0).scrollsIn str = false ∧
        ((s.vterms s.currentConsole).id = 0 ∨
          overlay ((s.constate 0).prints str) s.video = s.video) := by
  cases hScrolls : (s.constate 0).scrollsIn str with
  | true =>
      refine iff_of_false ?_ (fun h => absurd h.1 Bool.noConfusion)
      rintro ⟨s', hNone, _⟩
      rw [consolePutsOf_none hScrolls] at hNone
      cases hNone
  | false =>
      rw [consolePutsOf_quiet none hScrolls,
        consolePutsOf_quiet (some 0) hScrolls, ← printedOn_eq_iff]
      constructor
      · rintro ⟨s', hNone, hSome⟩
        exact ⟨rfl, Option.some.inj (hNone.trans hSome.symm)⟩
      · rintro ⟨_, hSame⟩
        exact ⟨_, rfl, congrArg some hSame.symm⟩

/-- A letter in the last cell of the first console. -/
theorem last_cell_follows_null : ¬ ∀ (s : Terminal) (str : List Byte),
    ∃ s', consolePutsOf none str s = some s' ∧
      consolePutsOf (some 0) str s = some s' := by
  intro h
  obtain ⟨s', hNone, _⟩ := h
    { vterms := fun _ =>
        { zeroConsole with
          constate := { newConstate with vcurX := 79, vcurY := 24 } }
      currentConsole := 0
      video := fun _ => { codept := 0, style := 0 }
      padding := fun _ _ => 0
      behind := fun _ => 0 } [0x61]
  rw [consolePutsOf_none (by rfl)] at hNone
  cases hNone

/-! ## With a process -/

/-- The cursor is on the screen. -/
def ConsoleState.OnScreen (st : ConsoleState) : Prop :=
  st.vcurX < numCols ∧ st.vcurY < numRows

private theorem setcursorpos_eq {x y : Nat} (h : x < numCols ∧ y < numRows) (con : ConIdx)
    (s : Terminal) :
    setcursorpos con x y s =
      s.setConstate con { s.constate con with vcurX := x, vcurY := y } :=
  if_pos h

@[simp] theorem Terminal.setConstate_constate (s : Terminal) (t : ConIdx)
    (st : ConsoleState) : (s.setConstate t st).constate t = st := by
  rw [setConstate_eq_put, put_constate]

private theorem scrollLine_eq {con : ConIdx} {s : Terminal}
    (h : (s.constate con).OnScreen) :
    scrollLine con s = scrollLineWith putcharUnscrolled con false s := by
  simp only [scrollLine, scrollLineWith, Terminal.out]
  rw [setcursorpos_eq h, setcursorpos_eq (by decide)]
  simp only [Terminal.setConstate_constate, setConstate_setConstate]
  rfl

/-- A round keeps the cursor on the screen. -/
theorem ConsoleState.OnScreen.inccurStep {α : Type} {scroll : α → α}
    {x : ConsoleState × α} (h : x.1.OnScreen) :
    (inccurStep scroll x).1.OnScreen := by
  obtain ⟨st, a⟩ := x
  simp only [CompE.Vterm.inccurStep]
  split
  · split
    · split
      · exact ⟨show 0 < numCols by decide, show numRows - 1 < numRows by decide⟩
      · exact h
    · rename_i hRow
      split
      · exact ⟨show 0 < numCols by decide, Nat.not_le.1 hRow⟩
      · exact h
  · rename_i hColumn
    exact ⟨Nat.not_le.1 hColumn, h.2⟩

theorem ConsoleState.OnScreen.inccurSteps {α : Type} {scroll : α → α} (n : Nat)
    {x : ConsoleState × α} (h : x.1.OnScreen) :
    ((CompE.Vterm.inccurStep scroll)^[n] x).1.OnScreen := by
  induction n with
  | zero => exact h
  | succ n ih =>
      rw [Function.iterate_succ_apply']
      exact ih.inccurStep

private theorem rounds_eq {st : ConsoleState} (h : st.OnScreen) (inc : ConInc) :
    inc.rounds st = inc.numChars st := by
  have hColumn := h.1
  cases inc with
  | linereturn =>
      simp only [ConInc.rounds, ConInc.numChars]
      omega
  | char | line | screen => rfl

section Attached

variable {con : ConIdx} {s : Terminal}

private theorem consoleScrollOf_some (h : (s.constate con).OnScreen) :
    consoleScrollOf (some con) s =
        some (scrollWith putcharUnscrolled 1 con false s) ∧
      ((scrollWith putcharUnscrolled 1 con false s).constate con).OnScreen := by
  have hOut : s.out con false = con := rfl
  have hLine : ((scrollLineWith putcharUnscrolled con false s).constate con).OnScreen := by
    simp only [scrollLineWith, hOut, Terminal.setConstate_constate]
    exact ⟨h.1, h.2⟩
  rw [consoleScrollOf, scrollWith, hOut, Function.iterate_one, scrollLine_eq h]
  refine ⟨rfl, ?_⟩
  split
  · exact hLine
  · exact h

private theorem consoleInccurOf_some (h : (s.constate con).OnScreen) (inc : ConInc) :
    consoleInccurOf (some con) inc s = some (consoleInccur inc con false s) ∧
      ((consoleInccur inc con false s).constate con).OnScreen := by
  obtain ⟨hCursor, hSame, _⟩ := inccurSteps_related
    (f := fun s => s.bind (consoleScrollOf (some con)))
    (g := scrollWith putcharUnscrolled 1 con false)
    (R := fun o t => o = some t ∧ (t.constate con).OnScreen)
    (fun o t hBoth => by
      obtain ⟨rfl, hOn⟩ := hBoth
      exact consoleScrollOf_some hOn)
    (inc.numChars (s.constate con)) (s.constate con)
    (a := some s) ⟨rfl, h⟩
  have hOut : outOf (some con) = con := rfl
  have hOut' : ∀ t : Terminal, t.out con false = con := fun _ => rfl
  simp only [consoleInccurOf, consoleInccur, inccurWith, hOut, hOut', rounds_eq h]
  rw [hCursor, hSame]
  refine ⟨rfl, ?_⟩
  rw [Terminal.setConstate_constate]
  exact ConsoleState.OnScreen.inccurSteps _ h

/-- With a process on a console it is `console_putchar` of that console. -/
theorem consolePutcharOf_some (h : (s.constate con).OnScreen) (c : Byte) :
    consolePutcharOf (some con) c s = some (consolePutchar con c s) ∧
      ((consolePutchar con c s).constate con).OnScreen := by
  have hOut : outOf (some con) = con := rfl
  have hOut' : s.out con false = con := rfl
  have hStored : storeCharOf (some con) c s = storeChar con false c s := rfl
  have hConstate : (storeChar con false c s).constate con = s.constate con := by
    simp [storeChar, Terminal.constate, hOut']
  simp only [consolePutcharOf, consolePutchar, putcharWith, hOut, hOut', hStored]
  split
  · exact consoleInccurOf_some h _
  · split
    · exact consoleInccurOf_some (by rw [hConstate]; exact h) _
    · refine ⟨rfl, ?_⟩
      rw [hConstate]
      exact h

private theorem consolePutsOf_some (str : List Byte) :
    ∀ {s : Terminal}, (s.constate con).OnScreen →
      consolePutsOf (some con) str s =
        some (str.foldl (fun s c => consolePutchar con c s) s) := by
  induction str with
  | nil => intro s _; rfl
  | cons c str ih =>
      intro s h
      obtain ⟨hHere, hNext⟩ := consolePutcharOf_some h c
      rw [consolePutsOf, hHere, Option.bind_some, ih hNext, List.foldl_cons]

end Attached

/-- As long as nothing scrolls, the messages of the start are printed as
`console_puts` prints them on the first console, if that is displayed. -/
theorem consolePutsOf_boot {s : Terminal} {str : List Byte}
    (h : (s.constate 0).OnScreen) (hShown : (s.vterms s.currentConsole).id = 0)
    (hScrolls : (s.constate 0).scrollsIn str = false) :
    consolePutsOf none str s = some (consolePuts str s) := by
  have hProc := consolePutsOf_some str h
  rw [consolePutsOf_quiet (some 0) hScrolls] at hProc
  rw [consolePutsOf_quiet none hScrolls,
    (printedOn_eq_iff s str).2 (.inl hShown), hProc]
  rfl

/-- The message of `console_init` does not scroll. -/
example : newConstate.scrollsIn initMessage = false := by decide

end CompE.Vterm
