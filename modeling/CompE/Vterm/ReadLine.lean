import CompE.Kernel.Directory
import CompE.Library.Trace
import CompE.Vterm.LineInput

/-!
# The line that a read returns

A read of `n` bytes, two to 128, gives the text typed since it began.  A
backspace takes the last character back, and does nothing on an empty line.
Enter ends the line, and so does a character with `n - 2` of them held, which
is lost.  `LineSpec` says so of a list of keys; `read_line` says that
`console_readline_w` returns this line and a newline.

A key counts when its handler is done.  In between anything else happens:
other processes print and read, the user looks at another console and comes
back to type.  `typeLine` is one run that types a given line.
-/

namespace CompE.Vterm

open CompE.Library
open CompE.Kernel (Byte Buffer CString charAt cstringOf)

/-! ## Lines -/

/-- A key that matters to a line. -/
inductive LineKey where
  | char (c : Byte)
  | back
  | enter
  deriving DecidableEq, Repr

/-- The text held after another key. -/
def edit (text : CString) : LineKey → CString
  | .char c => text ++ [c]
  | .back => text.dropLast
  | .enter => text

/-- Whether a key ends a line of at most `n` bytes. -/
def LineKey.endsLine (n : Nat) (text : CString) : LineKey → Prop
  | .char _ => text.length + 2 = n
  | .back => False
  | .enter => True

instance (n : Nat) (text : CString) (key : LineKey) :
    Decidable (key.endsLine n text) := by
  cases key <;> unfold LineKey.endsLine <;> infer_instance

/-- The text held after the keys of a list. -/
def typedText (text : CString) (keys : List LineKey) : CString :=
  keys.foldl edit text

/-- No key of the list ends the line. -/
def Unfinished (n : Nat) (text : CString) : List LineKey → Prop
  | [] => True
  | key :: keys => ¬ key.endsLine n text ∧ Unfinished n (edit text key) keys

/-- A line, and whether it has ended. -/
structure LineSpec where
  text : CString
  complete : Bool
  deriving DecidableEq, Repr

/-- What is in the buffer. -/
def LineSpec.line (t : LineSpec) : CString :=
  if t.complete then t.text ++ [newline] else t.text

/-- The keys up to the one that ends the line. -/
def lineSpec (n : Nat) : Acceptor LineSpec LineKey where
  good t _ := t.complete = false
  next t key :=
    if key.endsLine n t.text then ⟨t.text, true⟩ else ⟨edit t.text key, false⟩

private theorem lineSpec_ends {n : Nat} {t : LineSpec} {key : LineKey}
    (h : key.endsLine n t.text) : (lineSpec n).next t key = ⟨t.text, true⟩ :=
  if_pos h

private theorem lineSpec_holds {n : Nat} {t : LineSpec} {key : LineKey}
    (h : ¬ key.endsLine n t.text) :
    (lineSpec n).next t key = ⟨edit t.text key, false⟩ :=
  if_neg h

private theorem lineSpec_unfinished (n : Nat) (keys : List LineKey) :
    ∀ text, Unfinished n text keys →
      (lineSpec n).Accepts ⟨text, false⟩ keys ∧
        (lineSpec n).after ⟨text, false⟩ keys = ⟨typedText text keys, false⟩ := by
  induction keys with
  | nil => intro text _; exact ⟨trivial, rfl⟩
  | cons key keys ih =>
      intro text hKeys
      obtain ⟨hRest, hEnd⟩ := ih _ hKeys.2
      have hNext := lineSpec_holds (t := ⟨text, false⟩) hKeys.1
      simp only [Acceptor.Accepts, Acceptor.after, hNext]
      exact ⟨⟨rfl, hRest⟩, hEnd⟩

private theorem lineSpec_finished {n : Nat} {text : CString} {keys : List LineKey}
    {key : LineKey} (hKeys : Unfinished n text keys)
    (hKey : key.endsLine n (typedText text keys)) :
    (lineSpec n).Accepts ⟨text, false⟩ (keys ++ [key]) ∧
      (lineSpec n).after ⟨text, false⟩ (keys ++ [key]) =
        ⟨typedText text keys, true⟩ := by
  obtain ⟨hAccepts, hAfter⟩ := lineSpec_unfinished n keys text hKeys
  rw [Acceptor.accepts_append, Acceptor.after_append, hAfter]
  exact ⟨⟨hAccepts, rfl, trivial⟩, lineSpec_ends hKey⟩

/-! ## Typing -/

/-- The memory that the handler stores into. -/
abbrev Memory := BitVec 32 → Byte

def Store.apply (mem : Memory) (w : Store) : Memory :=
  Function.update mem (w.buffer + w.index) w.char

/-- The key that the handler has in its hands. -/
def Handler.lineKey (h : Handler) : Option LineKey :=
  match h.kind with
  | .printable => some (.char h.charPressed)
  | .bksp => some .back
  | .enter => some .enter
  | .capslock | .other => none

/-- The key that a step is done with. -/
def InputEvent.lineKey (i : InputEvent) (s : InputState) : Option LineKey :=
  match i, s.handler with
  | .finish, some h => h.lineKey
  | _, _ => none

/-- The read on a console waits for keys. -/
def InputState.polling (s : InputState) (con : ConIdx) : Prop :=
  ∃ r, s.reads con = some r ∧ r.polls

/-- The next look at `complete` ends the read. -/
def InputState.returning (s : InputState) (con : ConIdx) : Prop :=
  ∃ r, s.reads con = some r ∧ r.stage = .bkspstop ∧
    (s.term.currentInput con).complete = true

/-- All keys are typed on this console, while its read waits for them. -/
def TypedOn (con : ConIdx) (s : InputState) (i : InputEvent) : Prop :=
  match i with
  | .key _ => s.term.currentConsole = con ∧ s.polling con
  | .advance c => c = con → ¬ s.returning con
  | _ => True

/-- The machine with the memory, up to the return of the read. -/
def typing (con : ConIdx) : Machine (InputState × Memory) InputEvent LineKey where
  step s i := (lineInput.step s.1 i, (lineInput.emit s.1 i).foldl Store.apply s.2)
  emit s i := (i.lineKey s.1).toList
  legal s i := TypedOn con s.1 i

/-- The end of `console_getinput`: the terminator, and the value returned. -/
def lineRead (kbuf : BitVec 32) (inp : BufferedInput) (mem : Memory) :
    Kernel.Line where
  kbuf := fun i =>
    Function.update mem (inp.buffer + (inp.bufferLength - 1)) 0
      (kbuf + BitVec.ofNat 32 i)
  next := inp.next.toNat

/-! ## Every event keeps the consoles in order -/

private theorem readAdvance_sane {s : InputState} (h : Sane s.term) (c : ConIdx) :
    Sane (readAdvance c s).term := by
  have hStop : ∀ stop, Sane (s.term.setBkspstop c stop) :=
    fun stop => h.setConstate c { h.ready c with }
  unfold readAdvance
  simp only
  split
  · exact h
  · split
    · exact h.setCurrentInput c _
    · exact h.setCurrentInput c _
    · exact h.setCurrentInput c _
    · exact h.setCurrentInput c _
    · exact hStop _
    · split
      · exact hStop _
      · exact h

private theorem consoleReadline_term (con : ConIdx) (cbuf n : BitVec 32) (s : InputState) :
    (consoleReadline con cbuf n s).term = s.term := by
  unfold consoleReadline
  split
  · rfl
  · split
    · rfl
    · rfl

private theorem consoleReadlineW_term (con : ConIdx) (fd : Int) (kbuf nbytes : BitVec 32)
    (s : InputState) : (consoleReadlineW con fd kbuf nbytes s).term = s.term := by
  unfold consoleReadlineW
  simp only
  split
  · rfl
  · exact consoleReadline_term _ _ _ _

theorem InputEvent.run_sane {s : InputState} (h : Sane s.term) (i : InputEvent) :
    Sane (i.run s).term := by
  cases i with
  | key raw => exact (inputhandlerEcho_echoed h raw).sane
  | finish =>
      simp only [InputEvent.run, inputhandlerFinish]
      split
      · exact h
      · exact h.setCurrentInput _ _
  | modifiers ctrl alt sft => exact h
  | swap newIdx => exact h.step (.swap newIdx)
  | putchar con c => exact h.step (.putchar con c)
  | readline con cbuf n =>
      rw [InputEvent.run, consoleReadline_term]
      exact h
  | readlineW con fd kbuf nbytes =>
      rw [InputEvent.run, consoleReadlineW_term]
      exact h
  | advance con => exact readAdvance_sane h con

private theorem lineInput_sane {s : InputState} (h : Sane s.term) (is : List InputEvent) :
    Sane (lineInput.run s is).term := by
  refine lineInput.run_invariant (I := fun s => Sane s.term) ?_ is s h
    (lineInput_legal s is)
  intro s i h _
  simp only [lineInput]
  split
  · exact i.run_sane h
  · exact h

/-! ## Strings in memory -/

/-- The string is in memory from this address on. -/
def Spells (mem : Memory) (cbuf : BitVec 32) (text : CString) : Prop :=
  ∀ (i : Nat) (h : i < text.length), mem (cbuf + BitVec.ofNat 32 i) = text[i]

theorem place_ne (cbuf : BitVec 32) {i j : Nat} (hi : i < 2 ^ 32)
    (hj : j < 2 ^ 32) (h : i ≠ j) :
    cbuf + BitVec.ofNat 32 i ≠ cbuf + BitVec.ofNat 32 j := by
  intro hEq
  bv_omega

section Spells

variable {mem : Memory} {cbuf : BitVec 32} {text : CString} (h : Spells mem cbuf text)

include h

theorem Spells.behind {j : Nat} (hj : text.length ≤ j) (hSmall : j < 2 ^ 32) (c : Byte) :
    Spells (Function.update mem (cbuf + BitVec.ofNat 32 j) c) cbuf text := by
  intro i hi
  rw [Function.update_of_ne (place_ne cbuf (by omega) hSmall (by omega))]
  exact h i hi

theorem Spells.append (hSmall : text.length < 2 ^ 32) (c : Byte) :
    Spells (Function.update mem (cbuf + BitVec.ofNat 32 text.length) c) cbuf
      (text ++ [c]) := by
  intro i hi
  rw [List.length_append, List.length_singleton] at hi
  by_cases hLast : i = text.length
  · subst hLast
    rw [Function.update_self, List.getElem_concat_length rfl]
  · have hBefore : i < text.length := by omega
    rw [List.getElem_append_left hBefore]
    exact h.behind (Nat.le_refl _) hSmall c i hBefore

theorem Spells.dropLast : Spells mem cbuf text.dropLast := by
  intro i hi
  rw [List.length_dropLast] at hi
  rw [List.getElem_dropLast]
  exact h i (by omega)

end Spells

/-! ## A key in the buffer -/

/-- The line so far, in the buffer of a read. -/
structure Held (r : Read) (inp : BufferedInput) (mem : Memory) (t : LineSpec) :
    Prop where
  buffer : inp.buffer = r.cbuf
  length : inp.bufferLength = r.n
  room : t.text.length + 2 ≤ r.n.toNat
  complete : inp.complete = t.complete
  next : inp.next = BitVec.ofNat 32 t.text.length
  chars : ∀ c ∈ t.text, c ≠ 0
  spells : Spells mem r.cbuf t.line

namespace Held

variable {r : Read} {inp : BufferedInput} {mem : Memory} {t : LineSpec}
  (h : Held r inp mem t)

include h

private theorem next_toNat : inp.next.toNat = t.text.length := by
  have hRoom := h.room
  rw [h.next, BitVec.toNat_ofNat]
  exact Nat.mod_eq_of_lt (by omega)

theorem next_succ : inp.next + 1 = BitVec.ofNat 32 (t.text.length + 1) := by
  rw [h.next, BitVec.ofNat_add]
  rfl

theorem long : inp.bufferLength > 1 := by
  have hRoom := h.room
  rw [h.length]
  bv_omega

/-- The line is full when two bytes are left. -/
theorem full_iff :
    inp.next = inp.bufferLength - 2 ↔ t.text.length + 2 = r.n.toNat := by
  have hRoom := h.room
  have hNext := h.next_toNat
  rw [h.length]
  constructor
  · intro hEq
    rw [hEq] at hNext
    bv_omega
  · intro hEq
    bv_omega

private theorem spells_text (hOpen : t.complete = false) : Spells mem r.cbuf t.text := by
  have hSpells := h.spells
  rw [LineSpec.line, hOpen] at hSpells
  exact hSpells

/-- The newline is stored behind the text, the terminator behind the newline;
the handler stores them in either order. -/
theorem finished (hOpen : t.complete = false) {mem' : Memory}
    (hMem : ∀ i, i < t.text.length + 1 →
      mem' (r.cbuf + BitVec.ofNat 32 i) =
        Function.update mem (r.cbuf + BitVec.ofNat 32 t.text.length) newline
          (r.cbuf + BitVec.ofNat 32 i)) :
    Held r { inp with complete := true } mem' ⟨t.text, true⟩ where
  buffer := h.buffer
  length := h.length
  room := h.room
  complete := rfl
  next := h.next
  chars := h.chars
  spells := by
    have hRoom := h.room
    intro i hi
    have hLine : i < t.text.length + 1 := by
      rw [LineSpec.line, if_pos rfl, List.length_append] at hi
      exact hi
    rw [hMem i hLine]
    exact (h.spells_text hOpen).append (by omega) newline i hi

theorem printable (hOpen : t.complete = false) {c : Byte} (hChar : c ≠ 0) :
    Held r (storePrintable inp c).2 ((storePrintable inp c).1.foldl Store.apply mem)
      ((lineSpec r.n.toNat).next t (.char c)) := by
  have hRoom := h.room
  have hSmall := r.n.isLt
  have hIncomplete : ¬ inp.complete = true := by
    rw [h.complete, hOpen]
    decide
  unfold storePrintable
  rw [if_neg hIncomplete]
  by_cases hFull : t.text.length + 2 = r.n.toNat
  · have hEnds : (LineKey.char c).endsLine r.n.toNat t.text := hFull
    rw [if_pos (h.full_iff.2 hFull), if_pos h.long, lineSpec_ends hEnds]
    refine h.finished hOpen fun i hi => ?_
    simp only [List.foldl_cons, List.foldl_nil, Store.apply]
    rw [h.buffer, h.next_succ, h.next]
    by_cases hLast : i = t.text.length
    · rw [hLast, Function.update_self, Function.update_self]
    · rw [Function.update_of_ne (place_ne _ (by omega) (by omega) hLast),
        Function.update_of_ne (place_ne _ (by omega) (by omega) (by omega)),
        Function.update_of_ne (place_ne _ (by omega) (by omega) hLast)]
  · have hHolds : ¬ (LineKey.char c).endsLine r.n.toNat t.text := hFull
    rw [if_neg fun hEq => hFull (h.full_iff.1 hEq), lineSpec_holds hHolds, edit]
    exact
      { buffer := h.buffer
        length := h.length
        room := by simp only [List.length_append, List.length_singleton]; omega
        complete := h.complete.trans hOpen
        next := by
          simp only [h.next_succ, List.length_append, List.length_singleton]
        chars := fun d hd => by
          rcases List.mem_append.1 hd with hText | hLast
          · exact h.chars d hText
          · rw [List.mem_singleton.1 hLast]
            exact hChar
        spells := by
          simp only [List.foldl_cons, List.foldl_nil, Store.apply, h.buffer, h.next]
          exact (h.spells_text hOpen).append (by omega) c }

theorem enter (hOpen : t.complete = false) :
    Held r (storeEnter inp).2 ((storeEnter inp).1.foldl Store.apply mem)
      ((lineSpec r.n.toNat).next t .enter) := by
  have hRoom := h.room
  have hSmall := r.n.isLt
  have hBelow : inp.next ≠ inp.bufferLength := by
    intro hEq
    have hNat := h.next_toNat
    rw [hEq, h.length] at hNat
    omega
  have hEnds : LineKey.enter.endsLine r.n.toNat t.text := trivial
  unfold storeEnter
  rw [if_neg hBelow, if_pos h.long, lineSpec_ends hEnds]
  refine h.finished hOpen fun i hi => ?_
  simp only [List.foldl_cons, List.foldl_nil, Store.apply]
  rw [h.buffer, h.next_succ, h.next]
  rw [Function.update_of_ne (place_ne _ (by omega) (by omega) (by omega))]

theorem back (hOpen : t.complete = false) :
    Held r
      (if !inp.complete && inp.next > 0 then { inp with next := inp.next - 1 }
        else inp)
      mem ((lineSpec r.n.toNat).next t .back) := by
  have hRoom := h.room
  have hLength := h.next_toNat
  have hHolds : ¬ LineKey.back.endsLine r.n.toNat t.text := id
  rw [h.complete, hOpen, lineSpec_holds hHolds, edit]
  by_cases hSome : 0 < t.text.length
  · have hPositive : inp.next > 0 := by bv_omega
    rw [if_pos (by simpa using hPositive)]
    exact
      { buffer := h.buffer
        length := h.length
        room := by simp only [List.length_dropLast]; omega
        complete := rfl
        next := by
          simp only [List.length_dropLast]
          bv_omega
        chars := fun c hc => h.chars c ((List.dropLast_subset _) hc)
        spells := (h.spells_text hOpen).dropLast }
  · have hEmpty : t.text = [] := List.eq_nil_of_length_eq_zero (by omega)
    have hZero : ¬ inp.next > 0 := by bv_omega
    rw [if_neg (by simpa using hZero), hEmpty]
    exact
      { buffer := h.buffer
        length := h.length
        room := by simp only [List.dropLast_nil, List.length_nil]; omega
        complete := h.complete.trans hOpen
        next := by rw [h.next, hEmpty]; rfl
        chars := fun c hc => absurd hc List.not_mem_nil
        spells := fun i hi => absurd hi (Nat.not_lt_zero i) }

/-- The second half of the handler is one step of the line. -/
theorem store {handler : Handler} (hCopy : handler.currentInput = inp)
    (hChar : handler.kind = .printable → handler.charPressed ≠ 0)
    (hAccepts : (lineSpec r.n.toNat).Accepts t handler.lineKey.toList) :
    Held r handler.store.2 (handler.store.1.foldl Store.apply mem)
      ((lineSpec r.n.toNat).after t handler.lineKey.toList) := by
  subst hCopy
  unfold Handler.lineKey at hAccepts ⊢
  unfold Handler.store
  cases hKind : handler.kind with
  | printable =>
      rw [hKind] at hAccepts
      exact h.printable hAccepts.1 (hChar hKind)
  | enter =>
      rw [hKind] at hAccepts
      exact h.enter hAccepts.1
  | bksp =>
      rw [hKind] at hAccepts
      exact h.back hAccepts.1
  | capslock | other => exact h

end Held

/-! ## A read that waits -/

/-- A read has stored its fields up to its stage, and then the line is in its
buffer. -/
structure Waiting (con : ConIdx) (r : Read) (s : InputState) (mem : Memory)
    (t : LineSpec) : Prop where
  sane : Sane s.term
  read : s.reads con = some r
  two : 2 ≤ r.n.toNat
  buffer : r.stage ≠ .called → (s.term.currentInput con).buffer = r.cbuf
  length : r.stage ≠ .called → r.stage ≠ .buffer →
    (s.term.currentInput con).bufferLength = r.n
  next : r.stage = .next → (s.term.currentInput con).next = 0
  early : ¬ r.polls → t = ⟨[], false⟩
  held : r.polls → Held r (s.term.currentInput con) mem t
  handler : ∀ h, s.handler = some h →
    r.polls ∧ s.term.currentConsole = con ∧
      h.currentInput = s.term.currentInput con ∧
      (h.kind = .printable → h.charPressed ≠ 0)

namespace Waiting

variable {con : ConIdx} {r : Read} {s : InputState} {mem : Memory} {t : LineSpec}
  (h : Waiting con r s mem t)

include h

/-- What happens elsewhere. -/
theorem frame {s' : InputState} (hSane : Sane s'.term)
    (hRead : s'.reads con = s.reads con)
    (hInput : s'.term.currentInput con = s.term.currentInput con)
    (hHandler : s'.handler = s.handler)
    (hDisplayed : s'.handler = none ∨ s'.term.currentConsole = s.term.currentConsole) :
    Waiting con r s' mem t where
  sane := hSane
  read := hRead.trans h.read
  two := h.two
  buffer := by rw [hInput]; exact h.buffer
  length := by rw [hInput]; exact h.length
  next := by rw [hInput]; exact h.next
  early := h.early
  held := by rw [hInput]; exact h.held
  handler := fun handler hSome => by
    rcases hDisplayed with hNone | hDisplayed
    · rw [hNone] at hSome
      cases hSome
    · rw [hInput, hDisplayed]
      exact h.handler handler (hHandler.symm.trans hSome)

theorem echoed {s' : InputState} (hTerm : Echoed s.term s'.term)
    (hReads : s'.reads = s.reads) (hHandler : s'.handler = s.handler) :
    Waiting con r s' mem t :=
  h.frame hTerm.sane (by rw [hReads]) (hTerm.inputs con) hHandler
    (Or.inr hTerm.displayed)

/-- The first half of the handler changes neither the line nor the buffer. -/
theorem key (hIdle : s.handler = none) (raw : Byte)
    (hTyped : s.term.currentConsole = con ∧ s.polling con) :
    Waiting con r (inputhandlerEcho raw s) mem t := by
  obtain ⟨hDisplayed, r', hRead', hPolls'⟩ := hTyped
  have hPolls : r.polls := by
    rw [h.read, Option.some.injEq] at hRead'
    rw [hRead']
    exact hPolls'
  have hTerm := inputhandlerEcho_echoed h.sane raw
  have hReads := inputhandlerEcho_reads raw s
  have hHandler : ∀ handler, (inputhandlerEcho raw s).handler = some handler →
      handler.currentInput = s.term.currentInput con ∧
        (handler.kind = .printable → handler.charPressed ≠ 0) := by
    intro handler hSome
    unfold inputhandlerEcho at hSome
    simp only [hDisplayed] at hSome
    split at hSome
    · split at hSome
      · rw [hIdle] at hSome
        cases hSome
      · rename_i hChar
        cases hSome
        exact ⟨rfl, fun _ => hChar⟩
    · rw [hIdle] at hSome
      cases hSome
    · rename_i hKind
      cases hSome
      exact ⟨rfl, fun hPrintable => by simp only [hKind] at hPrintable; cases hPrintable⟩
    · rename_i hKind
      cases hSome
      exact ⟨rfl, fun hPrintable => by simp only [hKind] at hPrintable; cases hPrintable⟩
    · rw [hIdle] at hSome
      cases hSome
  exact
    { sane := hTerm.sane
      read := by rw [hReads]; exact h.read
      two := h.two
      buffer := by rw [hTerm.inputs]; exact h.buffer
      length := by rw [hTerm.inputs]; exact h.length
      next := by rw [hTerm.inputs]; exact h.next
      early := h.early
      held := by rw [hTerm.inputs]; exact h.held
      handler := fun handler hSome => by
        rw [hTerm.inputs, hTerm.displayed]
        exact ⟨hPolls, hDisplayed, hHandler handler hSome⟩ }

/-- The second half is the key's step of the line. -/
theorem finish {handler : Handler} (hHandler : s.handler = some handler)
    (hAccepts : (lineSpec r.n.toNat).Accepts t handler.lineKey.toList) :
    Waiting con r (inputhandlerFinish s) (handler.store.1.foldl Store.apply mem)
      ((lineSpec r.n.toNat).after t handler.lineKey.toList) := by
  obtain ⟨hPolls, hDisplayed, hCopy, hChar⟩ := h.handler handler hHandler
  have hHeld := (h.held hPolls).store hCopy hChar hAccepts
  have hInput : (inputhandlerFinish s).term.currentInput con = handler.store.2 := by
    simp only [inputhandlerFinish, hHandler, hDisplayed,
      setCurrentInput_currentInput, if_true]
  have hStage : r.stage ≠ .next := by
    rcases hPolls with hStage | hStage
    · rw [hStage]; decide
    · rw [hStage]; decide
  exact
    { sane := InputEvent.finish.run_sane h.sane
      read := by simp only [inputhandlerFinish, hHandler]; exact h.read
      two := h.two
      buffer := fun _ => by rw [hInput]; exact hHeld.buffer
      length := fun _ _ => by rw [hInput]; exact hHeld.length
      next := fun hNext => absurd hNext hStage
      early := fun hEarly => absurd hPolls hEarly
      held := fun _ => by rw [hInput]; exact hHeld
      handler := fun handler' hSome => by
        simp only [inputhandlerFinish, hHandler] at hSome
        cases hSome }

private theorem polls_of_complete (hComplete : t.complete = true) : r.polls := by
  apply Decidable.byContradiction
  intro hEarly
  rw [h.early hEarly] at hComplete
  cases hComplete

/-- While the fields are stored no key is typed. -/
theorem fill (hEarly : ¬ r.polls) {stage : Stage} {inp : BufferedInput}
    (hBuffer : inp.buffer = r.cbuf)
    (hLength : stage ≠ .buffer → inp.bufferLength = r.n)
    (hNext : stage = .next ∨ stage = .complete → inp.next = 0)
    (hComplete : stage = .complete → inp.complete = false)
    (hStage : stage ≠ .bkspstop) :
    Waiting con { r with stage := stage } (s.filled con r stage inp) mem t := by
  have hInput : (s.filled con r stage inp).term.currentInput con = inp := by
    simp only [InputState.filled, setCurrentInput_currentInput, if_true]
  have hLine := h.early hEarly
  exact
    { sane := h.sane.setCurrentInput con inp
      read := by simp only [InputState.filled, Function.update_self]
      two := h.two
      buffer := fun _ => by rw [hInput]; exact hBuffer
      length := fun _ hSome => by rw [hInput]; exact hLength hSome
      next := fun hSome => by rw [hInput]; exact hNext (Or.inl hSome)
      early := fun _ => hLine
      held := fun hPolls => by
        have hSome : stage = .complete := hPolls.resolve_right hStage
        rw [hInput, hLine]
        exact
          { buffer := hBuffer
            length := hLength (by rw [hSome]; decide)
            room := by rw [List.length_nil]; exact h.two
            complete := hComplete hSome
            next := hNext (Or.inr hSome)
            chars := fun c hc => absurd hc List.not_mem_nil
            spells := fun i hi => absurd hi (Nat.not_lt_zero i) }
      handler := fun handler hSome => absurd (h.handler handler hSome).1 hEarly }

/-- The last field is the stop column of the console. -/
theorem stop (hPolls : r.polls) (stop : Byte) :
    Waiting con { r with stage := .bkspstop }
      { s with
        term := s.term.setBkspstop con stop
        reads := Function.update s.reads con (some { r with stage := .bkspstop }) }
      mem t := by
  have hTerm : Echoed s.term (s.term.setBkspstop con stop) :=
    h.sane.echoed.setConstate { h.sane.ready con with }
  have hHeld := h.held hPolls
  exact
    { sane := hTerm.sane
      read := Function.update_self _ _ _
      two := h.two
      buffer := fun _ => by rw [hTerm.inputs]; exact hHeld.buffer
      length := fun _ _ => by rw [hTerm.inputs]; exact hHeld.length
      next := fun hNext => by cases hNext
      early := fun hEarly => absurd (Or.inr rfl) hEarly
      held := fun _ => by
        rw [hTerm.inputs]
        exact
          { buffer := hHeld.buffer
            length := hHeld.length
            room := hHeld.room
            complete := hHeld.complete
            next := hHeld.next
            chars := hHeld.chars
            spells := hHeld.spells }
      handler := fun handler hSome => by
        rw [hTerm.inputs, hTerm.displayed]
        exact ⟨Or.inr rfl, (h.handler handler hSome).2⟩ }

/-- The read goes on by one store, or looks at `complete` in vain. -/
theorem advance (hTyped : ¬ s.returning con) :
    ∃ stage, Waiting con { r with stage := stage } (readAdvance con s) mem t := by
  have hRead := h.read
  cases hStage : r.stage with
  | called =>
      have hEarly : ¬ r.polls := by rw [Read.polls, hStage]; decide
      refine ⟨.buffer, ?_⟩
      simp only [readAdvance, hRead, hStage]
      exact h.fill hEarly rfl (fun hNot => absurd rfl hNot)
        (fun hSome => by rcases hSome with hSome | hSome <;> cases hSome)
        (fun hSome => by cases hSome) (by decide)
  | buffer =>
      have hEarly : ¬ r.polls := by rw [Read.polls, hStage]; decide
      refine ⟨.length, ?_⟩
      simp only [readAdvance, hRead, hStage]
      exact h.fill hEarly (h.buffer (by rw [hStage]; decide)) (fun _ => rfl)
        (fun hSome => by rcases hSome with hSome | hSome <;> cases hSome)
        (fun hSome => by cases hSome) (by decide)
  | length =>
      have hEarly : ¬ r.polls := by rw [Read.polls, hStage]; decide
      refine ⟨.next, ?_⟩
      simp only [readAdvance, hRead, hStage]
      exact h.fill hEarly (h.buffer (by rw [hStage]; decide))
        (fun _ => h.length (by rw [hStage]; decide) (by rw [hStage]; decide))
        (fun _ => rfl) (fun hSome => by cases hSome) (by decide)
  | next =>
      have hEarly : ¬ r.polls := by rw [Read.polls, hStage]; decide
      refine ⟨.complete, ?_⟩
      simp only [readAdvance, hRead, hStage]
      exact h.fill hEarly (h.buffer (by rw [hStage]; decide))
        (fun _ => h.length (by rw [hStage]; decide) (by rw [hStage]; decide))
        (fun _ => h.next hStage) (fun _ => rfl) (by decide)
  | complete =>
      refine ⟨.bkspstop, ?_⟩
      simp only [readAdvance, hRead, hStage]
      exact h.stop (Or.inl hStage) _
  | bkspstop =>
      have hOpen : ¬ (s.term.currentInput con).complete = true := fun hComplete =>
        hTyped ⟨r, hRead, hStage, hComplete⟩
      refine ⟨.bkspstop, ?_⟩
      simp only [readAdvance, hRead, hStage, if_neg hOpen]
      rw [← hStage]
      exact h

end Waiting

/-! ## Reads on other consoles -/

private theorem readAdvance_other {con c : ConIdx} (h : con ≠ c) (s : InputState) :
    (readAdvance c s).reads con = s.reads con ∧
      (readAdvance c s).term.currentInput con = s.term.currentInput con ∧
      (readAdvance c s).handler = s.handler ∧
      (readAdvance c s).term.currentConsole = s.term.currentConsole := by
  have hStop : ∀ stop, (s.term.setBkspstop c stop).currentInput con =
      s.term.currentInput con := by
    intro stop
    simp [Terminal.setBkspstop, Terminal.setConstate, Terminal.currentInput, h]
  have hFilled : ∀ r stage inp,
      (s.filled c r stage inp).reads con = s.reads con ∧
        (s.filled c r stage inp).term.currentInput con = s.term.currentInput con := by
    intro r stage inp
    simp [InputState.filled, setCurrentInput_currentInput, h]
  unfold readAdvance
  simp only
  split
  · exact ⟨rfl, rfl, rfl, rfl⟩
  · split
    · exact ⟨(hFilled _ _ _).1, (hFilled _ _ _).2, rfl, rfl⟩
    · exact ⟨(hFilled _ _ _).1, (hFilled _ _ _).2, rfl, rfl⟩
    · exact ⟨(hFilled _ _ _).1, (hFilled _ _ _).2, rfl, rfl⟩
    · exact ⟨(hFilled _ _ _).1, (hFilled _ _ _).2, rfl, rfl⟩
    · exact ⟨Function.update_of_ne h _ _, hStop _, rfl, rfl⟩
    · split
      · exact ⟨Function.update_of_ne h _ _, hStop _, rfl, rfl⟩
      · exact ⟨rfl, rfl, rfl, rfl⟩

private theorem consoleReadline_other {con c : ConIdx} (h : con ≠ c) (cbuf n : BitVec 32)
    (s : InputState) :
    (consoleReadline c cbuf n s).reads con = s.reads con ∧
      (consoleReadline c cbuf n s).handler = s.handler := by
  unfold consoleReadline
  split
  · exact ⟨rfl, rfl⟩
  · split
    · exact ⟨rfl, rfl⟩
    · exact ⟨Function.update_of_ne h _ _, rfl⟩

private theorem consoleReadlineW_other {con c : ConIdx} (h : con ≠ c) (fd : Int)
    (kbuf nbytes : BitVec 32) (s : InputState) :
    (consoleReadlineW c fd kbuf nbytes s).reads con = s.reads con ∧
      (consoleReadlineW c fd kbuf nbytes s).handler = s.handler := by
  unfold consoleReadlineW
  simp only
  split
  · exact ⟨rfl, rfl⟩
  · exact consoleReadline_other h _ _ s

/-! ## Steps and runs -/

section Runs

variable {con : ConIdx} {kbuf n : BitVec 32} {s : InputState} {mem : Memory}
  {t : LineSpec}

/-- The step lemma, for the events that are possible. -/
theorem Waiting.run {r : Read} (h : Waiting con r s mem t) {i : InputEvent}
    (hPossible : i.possible s) (hTyped : TypedOn con s i)
    (hAccepts : (lineSpec r.n.toNat).Accepts t (i.lineKey s).toList) :
    ∃ stage, Waiting con { r with stage := stage } (i.run s)
      ((i.stores s).foldl Store.apply mem)
      ((lineSpec r.n.toNat).after t (i.lineKey s).toList) := by
  have hBusy : ∀ c, s.reads c = none → con ≠ c := by
    intro c hFree hEq
    rw [← hEq, h.read] at hFree
    cases hFree
  cases i with
  | key raw => exact ⟨r.stage, h.key hPossible raw hTyped⟩
  | finish =>
      refine ⟨r.stage, ?_⟩
      cases hHandler : s.handler with
      | none =>
          simp only [InputEvent.run, inputhandlerFinish, InputEvent.stores,
            InputEvent.lineKey, hHandler]
          exact h
      | some handler =>
          simp only [InputEvent.lineKey, hHandler] at hAccepts
          simp only [InputEvent.run, InputEvent.stores, InputEvent.lineKey, hHandler]
          exact h.finish hHandler hAccepts
  | modifiers ctrl alt sft => exact ⟨r.stage, h.echoed h.sane.echoed rfl rfl⟩
  | swap newIdx =>
      exact ⟨r.stage, h.frame (h.sane.step (.swap newIdx)) rfl
        (swap_currentInput h.sane newIdx con) rfl (Or.inl hPossible)⟩
  | putchar c char =>
      have hOutput : Echoed s.term (consolePutchar c char s.term) := by
        rw [consolePutchar_eq h.sane]
        exact h.sane.echoed.output c char
      exact ⟨r.stage, h.echoed hOutput rfl rfl⟩
  | readline c cbuf m =>
      obtain ⟨hRead, hHandler⟩ := consoleReadline_other (hBusy c hPossible) cbuf m s
      have hTerm := consoleReadline_term c cbuf m s
      refine ⟨r.stage, h.frame ?_ hRead ?_ hHandler (Or.inr ?_)⟩
      all_goals rw [InputEvent.run, hTerm]
      exact h.sane
  | readlineW c fd buf m =>
      obtain ⟨hRead, hHandler⟩ :=
        consoleReadlineW_other (hBusy c hPossible) fd buf m s
      have hTerm := consoleReadlineW_term c fd buf m s
      refine ⟨r.stage, h.frame ?_ hRead ?_ hHandler (Or.inr ?_)⟩
      all_goals rw [InputEvent.run, hTerm]
      exact h.sane
  | advance c =>
      by_cases hc : c = con
      · subst hc
        exact h.advance (hTyped rfl)
      · obtain ⟨hRead, hInput, hHandler, hDisplayed⟩ :=
          readAdvance_other (fun hEq => hc hEq.symm) s
        exact ⟨r.stage, h.frame (readAdvance_sane h.sane c) hRead hInput hHandler
          (Or.inr hDisplayed)⟩

/-- What cannot happen does nothing. -/
theorem impossible_silent {i : InputEvent} (h : ¬ i.possible s) :
    i.stores s = [] ∧ i.lineKey s = none := by
  cases i with
  | finish => exact absurd trivial h
  | key | modifiers | swap | putchar | readline | readlineW | advance => exact ⟨rfl, rfl⟩

/-- The read waits, with this line in its buffer. -/
def WaitingFor (con : ConIdx) (kbuf n : BitVec 32) (s : InputState × Memory)
    (t : LineSpec) : Prop :=
  ∃ stage, Waiting con ⟨kbuf, n, stage⟩ s.1 s.2 t

/-- The run lemma. -/
theorem WaitingFor.run {s : InputState × Memory} (h : WaitingFor con kbuf n s t)
    {is : List InputEvent} (hLegal : (typing con).Legal s is)
    (hAccepts : (lineSpec n.toNat).Accepts t ((typing con).events s is)) :
    WaitingFor con kbuf n ((typing con).run s is)
      ((lineSpec n.toNat).after t ((typing con).events s is)) := by
  refine (typing con).follows (lineSpec n.toNat) (R := WaitingFor con kbuf n) ?_
    is s t h hLegal hAccepts
  rintro s t i ⟨stage, hWaiting⟩ hTyped hHere
  by_cases hPossible : i.possible s.1
  · obtain ⟨stage', hNext⟩ := hWaiting.run hPossible hTyped hHere
    refine ⟨stage', ?_⟩
    simp only [typing, lineInput, if_pos hPossible]
    exact hNext
  · obtain ⟨hStores, hKey⟩ := impossible_silent hPossible
    refine ⟨stage, ?_⟩
    simp only [typing, lineInput, if_neg hPossible, hStores, hKey]
    exact hWaiting

/-- The call of `console_readline_w`. -/
theorem readlineW_called (hFree : s.reads con = none) (hKbuf : kbuf ≠ 0)
    (hTwo : 2 ≤ n.toNat) (hMax : n.toNat ≤ 128) :
    lineInput.step s (.readlineW con 0 kbuf n) =
      { s with reads := Function.update s.reads con (some ⟨kbuf, n, .called⟩) } := by
  have hPossible : (InputEvent.readlineW con 0 kbuf n).possible s := hFree
  have hSome : n ≠ 0 := by
    intro hEq
    rw [hEq] at hTwo
    revert hTwo
    decide
  have hLength : (if n.toInt ≥ 128 then 128 else n) = n := by
    split
    · rename_i hLarge
      have hEq : n.toNat = 128 := by
        have hInt := (toNat_of_pos (n := n) (by omega)).1
        omega
      exact BitVec.eq_of_toNat_eq hEq.symm
    · rfl
  simp only [lineInput, if_pos hPossible, InputEvent.run, consoleReadlineW, hLength,
    ne_eq, not_true_eq_false, if_false, consoleReadline, if_neg hKbuf, if_neg hSome]

theorem WaitingFor.start (h : Sane s.term) (hIdle : s.handler = none)
    (hFree : s.reads con = none) (hKbuf : kbuf ≠ 0) (hTwo : 2 ≤ n.toNat)
    (hMax : n.toNat ≤ 128) (mem : Memory) :
    WaitingFor con kbuf n (lineInput.step s (.readlineW con 0 kbuf n), mem)
      ⟨[], false⟩ := by
  have hEarly : ¬ Read.polls ⟨kbuf, n, .called⟩ := by
    rintro (hStage | hStage)
    · cases hStage
    · cases hStage
  rw [readlineW_called hFree hKbuf hTwo hMax]
  refine ⟨.called, ?_⟩
  exact
    { sane := h
      read := Function.update_self _ _ _
      two := hTwo
      buffer := fun hNot => absurd rfl hNot
      length := fun hNot _ => absurd rfl hNot
      next := fun hNext => by cases hNext
      early := fun _ => rfl
      held := fun hPolls => absurd hPolls hEarly
      handler := fun handler hHandler => by
        rw [hIdle] at hHandler
        cases hHandler }

end Runs

/-! ## The line returned -/

/-- The read ends at its next looks at `complete`, and `console_readline_w`
then returns this line in `buf`, and its length. -/
structure ReturnsLine (con : ConIdx) (kbuf n : BitVec 32) (buf : Buffer)
    (s : InputState × Memory) (line : CString) : Prop where
  ends : (lineInput.run s.1 [.advance con, .advance con]).reads con = none
  result : Kernel.consoleReadlineW 0 buf n
      (lineRead kbuf (s.1.term.currentInput con) s.2) =
    ((line.length : Int), fun i => if i < line.length then charAt line i else buf i)

private theorem charAt_of_lt {str : CString} {i : Nat} (h : i < str.length) :
    charAt str i = str[i] := by
  rw [charAt, List.getD_eq_getElem?_getD, List.getElem?_eq_getElem h]
  rfl

/-- The two zeros, the handler's and that of `console_getinput`, lie behind the
newline. -/
theorem Held.lineRead {r : Read} {inp : BufferedInput} {mem : Memory} {text : CString}
    (h : Held r inp mem ⟨text, true⟩) :
    (lineRead r.cbuf inp mem).next = text.length ∧
      cstringOf (lineRead r.cbuf inp mem).kbuf (text.length + 1) =
        text ++ [newline] := by
  have hRoom : text.length + 2 ≤ r.n.toNat := h.room
  have hSmall := r.n.isLt
  refine ⟨h.next_toNat, ?_⟩
  have hPlace : inp.buffer + (inp.bufferLength - 1) =
      r.cbuf + BitVec.ofNat 32 (r.n.toNat - 1) := by
    rw [h.buffer, h.length]
    congr 1
    bv_omega
  have hLine : (text ++ [newline]).length = text.length + 1 := List.length_append
  have hBehind : (text ++ [newline]).length ≤ r.n.toNat - 1 := by omega
  have hSpells : Spells mem r.cbuf (text ++ [newline]) := h.spells
  have hKept := hSpells.behind hBehind (by omega) 0
  have hKbuf : ∀ i, i < text.length + 1 →
      (CompE.Vterm.lineRead r.cbuf inp mem).kbuf i = charAt (text ++ [newline]) i := by
    intro i hi
    rw [charAt_of_lt (by omega)]
    simp only [CompE.Vterm.lineRead, hPlace]
    exact hKept i (by omega)
  have hChars : ∀ c ∈ text ++ [newline], decide (c ≠ 0#8) = true := by
    intro c hc
    rw [decide_eq_true_eq]
    rcases List.mem_append.1 hc with hText | hLast
    · exact h.chars c hText
    · rw [List.mem_singleton.1 hLast]
      decide
  rw [Kernel.cstringOf_congr hKbuf]
  exact Kernel.cstringOf_of_string (by omega) hChars

/-- Two more looks at `complete` are enough. -/
theorem advance_returns {con : ConIdx} {r : Read} {s : InputState}
    (hRead : s.reads con = some r) (hPolls : r.polls)
    (hComplete : (s.term.currentInput con).complete = true) :
    (lineInput.run s [.advance con, .advance con]).reads con = none := by
  have hPossible : ∀ s, (InputEvent.advance con).possible s := fun _ => trivial
  have hLook : ∀ {s : InputState} {r : Read}, s.reads con = some r →
      r.stage = .bkspstop → (s.term.currentInput con).complete = true →
      (readAdvance con s).reads con = none := by
    intro s r hRead hStage hComplete
    simp only [readAdvance, hRead, hStage, hComplete, if_true, Function.update_self]
  have hIdle : ∀ {s : InputState}, s.reads con = none →
      (readAdvance con s).reads con = none := by
    intro s hNone
    simp only [readAdvance, hNone]
  simp only [Machine.run, lineInput, if_pos (hPossible _), InputEvent.run]
  rcases hPolls with hStage | hStage
  · refine hLook (r := { r with stage := .bkspstop }) ?_ rfl ?_
    · simp only [readAdvance, hRead, hStage, Function.update_self]
    · simp only [readAdvance, hRead, hStage]
      simp only [Terminal.setBkspstop, Terminal.setConstate, Terminal.currentInput,
        Function.update_self]
      exact hComplete
  · exact hIdle (hLook hRead hStage hComplete)

namespace WaitingFor

variable {con : ConIdx} {kbuf n : BitVec 32} {s : InputState × Memory}
  {text : CString}

/-- A line that has ended is what the read returns. -/
theorem returnsLine (h : WaitingFor con kbuf n s ⟨text, true⟩) (buf : Buffer) :
    ReturnsLine con kbuf n buf s (text ++ [newline]) := by
  obtain ⟨stage, hWaiting⟩ := h
  have hPolls := hWaiting.polls_of_complete rfl
  have hHeld := hWaiting.held hPolls
  refine ⟨advance_returns hWaiting.read hPolls hHeld.complete, ?_⟩
  have hLine := hHeld.lineRead
  simp only at hLine
  generalize lineRead kbuf (s.1.term.currentInput con) s.2 = line at hLine ⊢
  have hCopy : Kernel.strncpy buf line.kbuf (text.length + 1) =
      fun i => if i < text.length + 1 then charAt (text ++ [newline]) i else buf i := by
    funext i
    rw [Kernel.strncpy, hLine.2]
  have hTwo : 2 ≤ n.toNat := hWaiting.two
  have hSome : n ≠ 0 := by
    intro hEq
    rw [hEq] at hTwo
    revert hTwo
    decide
  simp only [Kernel.consoleReadlineW, ne_eq, not_true_eq_false, if_false, if_neg hSome,
    hLine.1, hCopy, List.length_append, List.length_singleton]
  rfl

/-- It fits the read. -/
theorem room (h : WaitingFor con kbuf n s ⟨text, true⟩) :
    (text ++ [newline]).length ≤ n.toNat := by
  obtain ⟨stage, hWaiting⟩ := h
  have hRoom : text.length + 2 ≤ n.toNat :=
    (hWaiting.held (hWaiting.polls_of_complete rfl)).room
  rw [List.length_append, List.length_singleton]
  omega

/-- A line that has not ended keeps the read waiting. -/
theorem not_returning (h : WaitingFor con kbuf n s ⟨text, false⟩) :
    ¬ s.1.returning con := by
  obtain ⟨stage, hWaiting⟩ := h
  rintro ⟨r, hRead, hStage, hComplete⟩
  have hSame : (⟨kbuf, n, stage⟩ : Read) = r :=
    Option.some.inj (hWaiting.read.symm.trans hRead)
  have hPolls : Read.polls ⟨kbuf, n, stage⟩ := by
    rw [hSame]
    exact Or.inr hStage
  rw [(hWaiting.held hPolls).complete] at hComplete
  cases hComplete

end WaitingFor

/-- A key that is pressed while the read waits is a key of the line. -/
theorem typing_press {con : ConIdx} {s : InputState} (mem : Memory) {raw : Byte}
    {kind : KeyKind} {c : Byte} (hIdle : s.handler = none)
    (hDisplayed : s.term.currentConsole = con) (hPolling : s.polling con)
    (hKey : decodeKey s.kbd.mod raw = (kind, c))
    (hKind : kind = .printable ∧ c ≠ 0 ∨ kind = .bksp ∨ kind = .enter) :
    (typing con).Legal (s, mem) [.key raw, .finish] ∧
      (typing con).events (s, mem) [.key raw, .finish] =
        (Handler.lineKey ⟨kind, c, s.term.currentInput con⟩).toList := by
  have hPossible : (InputEvent.key raw).possible s := hIdle
  refine ⟨⟨⟨hDisplayed, hPolling⟩, trivial, trivial⟩, ?_⟩
  have hHandler : (inputhandlerEcho raw s).handler =
      some ⟨kind, c, s.term.currentInput con⟩ := by
    rcases hKind with ⟨rfl, hChar⟩ | rfl | rfl
    · simp only [inputhandlerEcho, hKey, if_neg hChar, hDisplayed]
    · simp only [inputhandlerEcho, hKey, hDisplayed]
    · simp only [inputhandlerEcho, hKey, hDisplayed]
  simp only [Machine.events, typing, Option.toList_none, List.nil_append,
    List.append_nil, lineInput, if_pos hPossible, InputEvent.run, InputEvent.lineKey,
    hHandler]

/-! ## A line typed -/

/-- The key of a character, and whether it is pressed with a Shift key. -/
def usKey (c : Byte) : Bool × Byte :=
  let shift : KbdModState := { ctrl := false, alt := false, sft := true, capslock := false }
  if decodeKey { shift with sft := false } c = (.printable, c) then (false, c)
  else
    let raws := (List.range 256).map (BitVec.ofNat 8)
    (true, (raws.find? fun raw => decodeKey shift raw = (.printable, c)).getD 0)

/-- The characters that have a key. -/
def LineKey.Typeable : LineKey → Prop
  | .char c => 0x20 ≤ c ∧ c ≤ 0x7E
  | .back | .enter => True

/-- What the keyboard does for a key, its modifiers first. -/
def LineKey.press : LineKey → List InputEvent
  | .char c => [.modifiers false false (usKey c).1, .key (usKey c).2, .finish]
  | .back => [.key 0x08, .finish]
  | .enter => [.key newline, .finish]

/-- The user goes to the console, the read runs until it polls, Caps Lock is
taken off, and the keys are typed. -/
def typeLine (con : ConIdx) (capslock : Bool) (keys : List LineKey) :
    List InputEvent :=
  (InputEvent.swap con.val :: List.replicate 5 (.advance con)) ++
    ((if capslock then [.key 0x1A] else []) ++ keys.flatMap LineKey.press)

private theorem usKey_table :
    (List.range 95).all (fun i =>
      decodeKey
          { ctrl := false, alt := false, sft := (usKey (BitVec.ofNat 8 (0x20 + i))).1,
            capslock := false }
          (usKey (BitVec.ofNat 8 (0x20 + i))).2 =
        (.printable, BitVec.ofNat 8 (0x20 + i))) = true := by
  decide +kernel

private theorem decodeKey_usKey {c : Byte} (h : 0x20 ≤ c ∧ c ≤ 0x7E) :
    decodeKey { ctrl := false, alt := false, sft := (usKey c).1, capslock := false }
      (usKey c).2 = (.printable, c) := by
  have hRange : c.toNat - 0x20 < 95 := by bv_omega
  have hChar : BitVec.ofNat 8 (0x20 + (c.toNat - 0x20)) = c := by bv_omega
  have hEntry := List.all_eq_true.mp usKey_table _ (List.mem_range.mpr hRange)
  rw [hChar, decide_eq_true_eq] at hEntry
  exact hEntry

/-- The stage behind the next store of a read. -/
def Stage.after : Stage → Stage
  | .called => .buffer
  | .buffer => .length
  | .length => .next
  | .next => .complete
  | .complete | .bkspstop => .bkspstop

private theorem readAdvance_stage {con : ConIdx} {s : InputState} {r : Read}
    (hRead : s.reads con = some r) (hStage : r.stage ≠ .bkspstop) :
    (readAdvance con s).reads con = some { r with stage := r.stage.after } ∧
      (readAdvance con s).term.currentConsole = s.term.currentConsole ∧
      (readAdvance con s).handler = s.handler ∧ (readAdvance con s).kbd = s.kbd := by
  unfold readAdvance
  simp only [hRead]
  cases hAt : r.stage with
  | called | buffer | length | next | complete =>
      exact ⟨Function.update_self _ _ _, rfl, rfl, rfl⟩
  | bkspstop => exact absurd hAt hStage

private theorem inputhandlerFinish_frame (s : InputState) :
    (inputhandlerFinish s).handler = none ∧ (inputhandlerFinish s).reads = s.reads ∧
      (inputhandlerFinish s).term.currentConsole = s.term.currentConsole ∧
      (inputhandlerFinish s).kbd = s.kbd := by
  unfold inputhandlerFinish
  split
  · rename_i hNone
    exact ⟨hNone, rfl, rfl, rfl⟩
  · exact ⟨rfl, rfl, rfl, rfl⟩

private theorem inputhandlerEcho_mod {raw : Byte} {s : InputState}
    (h : (decodeKey s.kbd.mod raw).1 ≠ .capslock) :
    (inputhandlerEcho raw s).kbd.mod = s.kbd.mod := by
  unfold inputhandlerEcho
  simp only
  split
  · split
    · rfl
    · rfl
  · rename_i hCapslock
    exact absurd hCapslock h
  · rfl
  · rfl
  · rfl

/-- The user looks at the console, with no key in the handler, and a process
reads from it. -/
structure Attended (con : ConIdx) (r : Read) (capslock : Bool) (s : InputState) :
    Prop where
  sane : Sane s.term
  idle : s.handler = none
  displayed : s.term.currentConsole = con
  read : s.reads con = some r
  capslock : s.kbd.mod.capslock = capslock

/-- A legal run with these keys, which ends in `P`. -/
def Types (con : ConIdx) (P : InputState → Prop) (s : InputState × Memory)
    (is : List InputEvent) (keys : List LineKey) : Prop :=
  (typing con).Legal s is ∧ (typing con).events s is = keys ∧
    P ((typing con).run s is).1

theorem Types.append {con : ConIdx} {P Q : InputState → Prop} {s : InputState × Memory}
    {is js : List InputEvent} {keys others : List LineKey} (h : Types con P s is keys)
    (hNext : ∀ s', P s'.1 → Types con Q s' js others) :
    Types con Q s (is ++ js) (keys ++ others) := by
  obtain ⟨hLegal, hEvents, hEnd⟩ := h
  obtain ⟨hNextLegal, hNextEvents, hNextEnd⟩ := hNext _ hEnd
  refine ⟨?_, ?_, ?_⟩
  · rw [Machine.legal_append]
    exact ⟨hLegal, hNextLegal⟩
  · rw [Machine.events_append, hEvents, hNextEvents]
  · rw [Machine.run_append]
    exact hNextEnd

/-- The user goes to the console of a read that was called. -/
theorem attended_swap {con : ConIdx} {r : Read} {s : InputState}
    (hSane : Sane s.term) (hIdle : s.handler = none) (hRead : s.reads con = some r)
    (mem : Memory) :
    Types con (Attended con r s.kbd.mod.capslock) (s, mem) [.swap con.val] [] := by
  have hPossible : (InputEvent.swap con.val).possible s := hIdle
  have hStep : lineInput.step s (.swap con.val) =
      InputEvent.run (.swap con.val) s := if_pos hPossible
  refine ⟨⟨trivial, trivial⟩, rfl, ?_⟩
  show Attended con r _ (lineInput.step s (.swap con.val))
  rw [hStep]
  exact
    { sane := (InputEvent.swap con.val).run_sane hSane
      idle := hIdle
      displayed := by
        show (vtermSwapConsole con.val s.term).currentConsole = con
        rw [vtermSwapConsole_eq hSane, validIdx_val]
        rfl
      read := hRead
      capslock := rfl }

/-- The read goes on to its next stage. -/
theorem attended_advance {con : ConIdx} {cbuf n : BitVec 32} {stage : Stage}
    {capslock : Bool} (hStage : stage ≠ .bkspstop) {s : InputState × Memory}
    (h : Attended con ⟨cbuf, n, stage⟩ capslock s.1) :
    Types con (Attended con ⟨cbuf, n, stage.after⟩ capslock) s [.advance con] [] := by
  obtain ⟨hRead, hDisplayed, hHandler, hKbd⟩ := readAdvance_stage h.read hStage
  have hLegal : ¬ s.1.returning con := by
    rintro ⟨r, hRead', hStage', _⟩
    have hSame : Read.mk cbuf n stage = r := Option.some.inj (h.read.symm.trans hRead')
    rw [← hSame] at hStage'
    exact hStage hStage'
  refine ⟨⟨fun _ => hLegal, trivial⟩, rfl, ?_⟩
  exact
    { sane := readAdvance_sane h.sane con
      idle := hHandler.trans h.idle
      displayed := hDisplayed.trans h.displayed
      read := hRead
      capslock := (congrArg (fun kbd => kbd.mod.capslock) hKbd).trans h.capslock }

/-- It runs until it polls. -/
theorem attended_polls {con : ConIdx} {cbuf n : BitVec 32} {capslock : Bool}
    {s : InputState × Memory} (h : Attended con ⟨cbuf, n, .called⟩ capslock s.1) :
    Types con (Attended con ⟨cbuf, n, .bkspstop⟩ capslock) s
      (List.replicate 5 (.advance con)) [] := by
  have hBuffer := attended_advance (by decide) h
  have hLength := hBuffer.append fun _ => attended_advance (by decide)
  have hNext := hLength.append fun _ => attended_advance (by decide)
  have hComplete := hNext.append fun _ => attended_advance (by decide)
  exact hComplete.append fun _ => attended_advance (by decide)

namespace Attended

variable {con : ConIdx} {r : Read} {capslock : Bool} {s : InputState}
  (h : Attended con r capslock s)

include h

theorem modifiers (ctrl alt sft : Bool) :
    Attended con r capslock (lineInput.step s (.modifiers ctrl alt sft)) ∧
      (lineInput.step s (.modifiers ctrl alt sft)).kbd.mod =
        { ctrl := ctrl, alt := alt, sft := sft, capslock := capslock } := by
  have hPossible : (InputEvent.modifiers ctrl alt sft).possible s := h.idle
  have hStep : lineInput.step s (.modifiers ctrl alt sft) =
      InputEvent.run (.modifiers ctrl alt sft) s := if_pos hPossible
  rw [hStep]
  refine ⟨{ h with }, ?_⟩
  show KbdModState.mk ctrl alt sft s.kbd.mod.capslock = _
  rw [h.capslock]

/-- A key is typed, with its modifiers as they are. -/
theorem press (hPolls : r.polls) (raw : Byte) {kind : KeyKind} {c : Byte}
    (hKey : decodeKey s.kbd.mod raw = (kind, c))
    (hKind : kind = .printable ∧ c ≠ 0 ∨ kind = .bksp ∨ kind = .enter)
    (mem : Memory) :
    Types con (Attended con r capslock) (s, mem) [.key raw, .finish]
      (Handler.lineKey ⟨kind, c, s.term.currentInput con⟩).toList := by
  obtain ⟨hLegal, hEvents⟩ :=
    typing_press mem h.idle h.displayed ⟨r, h.read, hPolls⟩ hKey hKind
  refine ⟨hLegal, hEvents, ?_⟩
  have hPossible : (InputEvent.key raw).possible s := h.idle
  have hRun : lineInput.run s [.key raw, .finish] =
      inputhandlerFinish (inputhandlerEcho raw s) := by
    simp only [Machine.run, lineInput, if_pos hPossible]
    rfl
  have hOther : (decodeKey s.kbd.mod raw).1 ≠ .capslock := by
    rw [hKey]
    rintro rfl
    rcases hKind with ⟨hKind, _⟩ | hKind | hKind
    · cases hKind
    · cases hKind
    · cases hKind
  have hEchoed := inputhandlerEcho_echoed h.sane raw
  obtain ⟨hIdle, hReads, hDisplayed, hKbd⟩ :=
    inputhandlerFinish_frame (inputhandlerEcho raw s)
  show Attended con r capslock (lineInput.run s [.key raw, .finish])
  rw [hRun]
  exact
    { sane := InputEvent.finish.run_sane hEchoed.sane
      idle := hIdle
      displayed := hDisplayed.trans (hEchoed.displayed.trans h.displayed)
      read := by rw [hReads, inputhandlerEcho_reads]; exact h.read
      capslock := by rw [hKbd, inputhandlerEcho_mod hOther]; exact h.capslock }

end Attended

/-- Caps Lock is taken off. -/
theorem attended_capslockOff {con : ConIdx} {r : Read} (hPolls : r.polls)
    {capslock : Bool} {s : InputState × Memory} (h : Attended con r capslock s.1) :
    Types con (Attended con r false) s (if capslock then [.key 0x1A] else []) [] := by
  cases capslock with
  | false => exact ⟨trivial, rfl, h⟩
  | true =>
      have hPossible : (InputEvent.key 0x1A).possible s.1 := h.idle
      have hStep : lineInput.step s.1 (.key 0x1A) = inputhandlerEcho 0x1A s.1 :=
        if_pos hPossible
      refine ⟨⟨⟨h.displayed, r, h.read, hPolls⟩, trivial⟩, rfl, ?_⟩
      show Attended con r false (lineInput.step s.1 (.key 0x1A))
      rw [hStep]
      exact
        { sane := h.sane
          idle := h.idle
          displayed := h.displayed
          read := h.read
          capslock := by
            show (!s.1.kbd.mod.capslock) = false
            rw [h.capslock]
            rfl }

/-- A key of the line is typed. -/
theorem attended_key {con : ConIdx} {r : Read} (hPolls : r.polls) {key : LineKey}
    (hKey : key.Typeable) {s : InputState × Memory} (h : Attended con r false s.1) :
    Types con (Attended con r false) s key.press [key] := by
  cases key with
  | char c =>
      have hChar : c ≠ 0 := by
        rintro rfl
        exact absurd hKey.1 (by decide)
      obtain ⟨hNext, hMod⟩ := h.modifiers false false (usKey c).1
      have hDecode := decodeKey_usKey hKey
      rw [← hMod] at hDecode
      obtain ⟨hLegal, hRest⟩ := hNext.press hPolls (usKey c).2 hDecode (Or.inl ⟨rfl, hChar⟩) s.2
      exact ⟨⟨trivial, hLegal⟩, hRest⟩
  | back => exact h.press hPolls 0x08 rfl (Or.inr (Or.inl rfl)) s.2
  | enter => exact h.press hPolls newline rfl (Or.inr (Or.inr rfl)) s.2

private theorem attended_keys {con : ConIdx} {r : Read} (hPolls : r.polls)
    (keys : List LineKey) : (∀ key ∈ keys, key.Typeable) →
      ∀ s : InputState × Memory, Attended con r false s.1 →
        Types con (Attended con r false) s (keys.flatMap LineKey.press) keys := by
  induction keys with
  | nil => exact fun _ _ h => ⟨trivial, rfl, h⟩
  | cons key keys ih =>
      intro hKeys s h
      have hHere := attended_key hPolls (hKeys key List.mem_cons_self) h
      have hRest := ih fun key hKey => hKeys key (List.mem_cons_of_mem _ hKey)
      rw [List.flatMap_cons]
      exact hHere.append hRest

/-- A line can be typed to a read that was called. -/
theorem typeLine_types {con : ConIdx} {cbuf n : BitVec 32} {s : InputState}
    (hSane : Sane s.term) (hIdle : s.handler = none)
    (hRead : s.reads con = some ⟨cbuf, n, .called⟩) (mem : Memory)
    {keys : List LineKey} (hKeys : ∀ key ∈ keys, key.Typeable) :
    Types con (Attended con ⟨cbuf, n, .bkspstop⟩ false) (s, mem)
      (typeLine con s.kbd.mod.capslock keys) keys := by
  have hPolls : Read.polls ⟨cbuf, n, .bkspstop⟩ := Or.inr rfl
  have hSwap := attended_swap hSane hIdle hRead mem
  have hPolling := hSwap.append fun _ => attended_polls
  refine hPolling.append fun s' h => ?_
  exact (attended_capslockOff hPolls h).append (attended_keys hPolls keys hKeys)

/-- Of a read of `n` bytes, two to 128, on a console where all keys are then
typed: it does not end before a key ends the line; after that key it returns
the text that was held, a newline behind it, and their length.  And every such
line can be typed: the user goes to the console, and the read comes as far as
to wait for the keys. -/
theorem read_line (video : Nat → VgaChar) (padding : ConIdx → Nat → Byte)
    (behind : Nat → Byte) (history : List InputEvent) (con : ConIdx)
    (kbuf n : BitVec 32) (mem : Memory) (buf : Buffer)
    (hIdle : (lineInput.run (bootInput video padding behind) history).handler = none)
    (hFree : (lineInput.run (bootInput video padding behind) history).reads con = none)
    (hKbuf : kbuf ≠ 0) (hTwo : 2 ≤ n.toNat) (hMax : n.toNat ≤ 128) :
    let start := (lineInput.step
      (lineInput.run (bootInput video padding behind) history)
      (.readlineW con 0 kbuf n), mem)
    (∀ is, (typing con).Legal start is →
      Unfinished n.toNat [] ((typing con).events start is) →
      ¬ ((typing con).run start is).1.returning con) ∧
    (∀ is keys key, (typing con).Legal start is →
      (typing con).events start is = keys ++ [key] →
      Unfinished n.toNat [] keys → key.endsLine n.toNat (typedText [] keys) →
      ReturnsLine con kbuf n buf ((typing con).run start is)
          (typedText [] keys ++ [newline]) ∧
        (typedText [] keys ++ [newline]).length ≤ n.toNat) ∧
    (∀ keys key, (∀ k ∈ keys ++ [key], k.Typeable) → Unfinished n.toNat [] keys →
      key.endsLine n.toNat (typedText [] keys) →
      let is := typeLine con start.1.kbd.mod.capslock (keys ++ [key])
      (typing con).Legal start is ∧ (typing con).events start is = keys ++ [key] ∧
        ReturnsLine con kbuf n buf ((typing con).run start is)
          (typedText [] keys ++ [newline])) := by
  intro start
  have hSane := lineInput_sane (s := bootInput video padding behind)
    (sane_boot video padding behind) history
  have hStart : WaitingFor con kbuf n start ⟨[], false⟩ :=
    WaitingFor.start hSane hIdle hFree hKbuf hTwo hMax mem
  have hReturns : ∀ is keys key, (typing con).Legal start is →
      (typing con).events start is = keys ++ [key] →
      Unfinished n.toNat [] keys → key.endsLine n.toNat (typedText [] keys) →
      ReturnsLine con kbuf n buf ((typing con).run start is)
          (typedText [] keys ++ [newline]) ∧
        (typedText [] keys ++ [newline]).length ≤ n.toNat := by
    intro is keys key hLegal hEvents hKeys hKey
    obtain ⟨hAccepts, hAfter⟩ := lineSpec_finished hKeys hKey
    have hEnd := hStart.run hLegal (by rw [hEvents]; exact hAccepts)
    rw [hEvents, hAfter] at hEnd
    exact ⟨hEnd.returnsLine buf, hEnd.room⟩
  refine ⟨?_, hReturns, ?_⟩
  · intro is hLegal hKeys
    obtain ⟨hAccepts, hAfter⟩ := lineSpec_unfinished n.toNat _ [] hKeys
    have hEnd := hStart.run hLegal hAccepts
    rw [hAfter] at hEnd
    exact hEnd.not_returning
  · intro keys key hTypeable hKeys hKey is
    have hCalled := readlineW_called hFree hKbuf hTwo hMax
    have hSaneStart : Sane start.1.term := by
      rw [show start.1 = _ from hCalled]
      exact hSane
    have hIdleStart : start.1.handler = none := by
      rw [show start.1 = _ from hCalled]
      exact hIdle
    have hRead : start.1.reads con = some ⟨kbuf, n, .called⟩ := by
      rw [show start.1 = _ from hCalled]
      exact Function.update_self _ _ _
    obtain ⟨hLegal, hEvents, _⟩ :=
      typeLine_types hSaneStart hIdleStart hRead mem hTypeable
    exact ⟨hLegal, hEvents, (hReturns is keys key hLegal hEvents hKeys hKey).1⟩

/-- `Ab` with the `b` taken back and a `7` behind it, in a read of four bytes:
the next character ends the line. -/
theorem read_line_full :
    let start := (lineInput.step
      (bootInput (fun _ => ⟨0, 0⟩) (fun _ _ => 0) fun _ => 0)
      (.readlineW 0 0 0x1000 4), fun _ => 0)
    let is := typeLine 0 false [.char 0x41, .char 0x62, .back, .char 0x37, .char 0x21]
    (typing 0).Legal start is ∧
      (typing 0).events start is =
        [.char 0x41, .char 0x62, .back, .char 0x37, .char 0x21] ∧
      ReturnsLine 0 0x1000 4 (fun _ => 0) ((typing 0).run start is)
        [0x41, 0x37, newline] := by
  have hRead := read_line (fun _ => ⟨0, 0⟩) (fun _ _ => 0) (fun _ => 0) [] 0
    0x1000 4 (fun _ => 0) (fun _ => 0) rfl rfl (by decide) (by decide) (by decide)
  exact hRead.2.2 [.char 0x41, .char 0x62, .back, .char 0x37] (.char 0x21)
    (by simp [LineKey.Typeable]) (by simp [Unfinished, LineKey.endsLine, edit])
    (by decide)

end CompE.Vterm
