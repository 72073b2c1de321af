import CompE.Library.Machine
import Mathlib.Logic.Function.Basic

/-!
# Characters on the boot screen

Until the console driver is enabled, `putc` keeps its own place on the 80x25 text
screen.  It takes the column modulo the width before it asks whether the column
has reached the width, and a line feed only counts the row up: `putc_onScreen_iff`
says for which strings every character goes where it should.
-/

namespace CompE.KernelLib

open CompE.Library

abbrev Byte := BitVec 8

def numCols : Nat := 80
def numRows : Nat := 25

/-- `ATTRIB`. -/
def attrib : Byte := 0x7

/-- The static variables of `lib.c`, and the memory from `video_mem` on. -/
structure BootScreen where
  screenX : Nat
  screenY : Nat
  video : Nat → Byte

/-- `'\n'` or `'\r'`. -/
def breaks (c : Byte) : Bool := c == 0x0A || c == 0x0D

/-- The offset of the cell that the next character goes to. -/
def BootScreen.cell (t : BootScreen) : Nat :=
  (numCols * t.screenY + t.screenX) * 2

/-- `putc`, when the console driver is not enabled.  The column is reduced before
it is divided for the row, which so stays. -/
def putc (t : BootScreen) (c : Byte) : BootScreen :=
  if breaks c then { t with screenY := t.screenY + 1, screenX := 0 }
  else
    let screenX := (t.screenX + 1) % numCols
    { screenX := screenX
      screenY := (t.screenY + screenX / numCols) % numRows
      video := Function.update (Function.update t.video t.cell c)
        (t.cell + 1) attrib }

/-- The offsets that `putc` writes to. -/
def putcWrites (t : BootScreen) (c : Byte) : List Nat :=
  if breaks c then [] else [t.cell, t.cell + 1]

/-- The boot screen over the characters put to it, with the offsets written. -/
def bootMachine : Machine BootScreen Byte Nat where
  step := putc
  emit := putcWrites
  legal := fun _ _ => True

/-- Before the first character. -/
def atBoot (video : Nat → Byte) : BootScreen := ⟨0, 0, video⟩

/-! ## Where the characters should go -/

abbrev Position := Nat × Nat

def BootScreen.position (t : BootScreen) : Position := (t.screenX, t.screenY)

/-- The start of the next line, which is the first one after the last. -/
def nextLine (p : Position) : Position := (0, (p.2 + 1) % numRows)

/-- One character on: to the next column, or to the next line after column 79 and
at a line feed. -/
def moveOn (p : Position) (c : Byte) : Position :=
  if breaks c ∨ p.1 + 1 = numCols then nextLine p else (p.1 + 1, p.2)

/-- All writes are inside the screen, and each character moves the position on. -/
structure OnScreen (video : Nat → Byte) (s : List Byte) : Prop where
  inside : ∀ place ∈ bootMachine.events (atBoot video) s,
    place < numRows * numCols * 2
  position : ∀ seen, seen <+: s →
    (bootMachine.run (atBoot video) seen).position = seen.foldl moveOn (0, 0)

/-! ## One character -/

/-- A position on the screen. -/
structure BootScreen.Inside (t : BootScreen) : Prop where
  col : t.screenX < numCols
  row : t.screenY < numRows

/-- A line feed not on the last line, or another character not in the last
column. -/
def Plain (t : BootScreen) (c : Byte) : Prop :=
  if breaks c then t.screenY + 1 < numRows else t.screenX + 1 < numCols

theorem BootScreen.Inside.putc_break {t : BootScreen} (h : t.Inside) {c : Byte}
    (hBreak : breaks c = true) :
    (putc t c).position = (0, t.screenY + 1) ∧
      ((putc t c).position = moveOn t.position c ↔ Plain t c) := by
  have hRow := h.row
  have hHere : (putc t c).position = (0, t.screenY + 1) := by
    rw [putc, if_pos hBreak]
    rfl
  refine ⟨hHere, ?_⟩
  rw [hHere, moveOn, if_pos (Or.inl hBreak), Plain, if_pos hBreak, nextLine,
    Prod.mk.injEq]
  show 0 = 0 ∧ t.screenY + 1 = (t.screenY + 1) % numRows ↔ _
  unfold numRows at hRow ⊢
  omega

theorem BootScreen.Inside.putc_char {t : BootScreen} (h : t.Inside) {c : Byte}
    (hChar : breaks c = false) :
    (putc t c).position = ((t.screenX + 1) % numCols, t.screenY) ∧
      ((putc t c).position = moveOn t.position c ↔ Plain t c) := by
  have hCol := h.col
  have hRow := h.row
  have hNot : ¬ breaks c = true := by
    rw [hChar]
    exact Bool.false_ne_true
  have hHere : (putc t c).position = ((t.screenX + 1) % numCols, t.screenY) := by
    have hStays : (t.screenY + (t.screenX + 1) % numCols / numCols) % numRows =
        t.screenY := by
      unfold numCols numRows at *
      omega
    rw [putc, if_neg hNot]
    exact congrArg (Prod.mk _) hStays
  refine ⟨hHere, ?_⟩
  rw [hHere, Plain, if_neg hNot, moveOn]
  by_cases hLast : t.screenX + 1 = numCols
  · have hEnd : t.position.1 + 1 = numCols := hLast
    rw [if_pos (Or.inr hEnd), nextLine, Prod.mk.injEq]
    show _ ∧ t.screenY = (t.screenY + 1) % numRows ↔ _
    unfold numCols numRows at *
    omega
  · have hSame : ¬ (breaks c = true ∨ t.position.1 + 1 = numCols) := by
      rintro (hBreak | hEnd)
      · exact hNot hBreak
      · exact hLast hEnd
    rw [if_neg hSame, Prod.mk.injEq]
    show (t.screenX + 1) % numCols = t.screenX + 1 ∧ t.screenY = t.screenY ↔ _
    unfold numCols at *
    omega

/-- On the screen, a character moves the position on exactly when it is plain. -/
theorem BootScreen.Inside.moves_iff {t : BootScreen} (h : t.Inside) (c : Byte) :
    (putc t c).position = moveOn t.position c ↔ Plain t c := by
  cases hBreak : breaks c with
  | false => exact (h.putc_char hBreak).2
  | true => exact (h.putc_break hBreak).2

theorem BootScreen.Inside.putc {t : BootScreen} (h : t.Inside) {c : Byte}
    (hPlain : Plain t c) : (putc t c).Inside := by
  cases hBreak : breaks c with
  | false =>
      obtain ⟨hCol, hRow⟩ := Prod.mk.inj (h.putc_char hBreak).1
      refine ⟨?_, ?_⟩
      · rw [hCol]
        exact Nat.mod_lt _ (by decide)
      · rw [hRow]
        exact h.row
  | true =>
      rw [Plain, if_pos hBreak] at hPlain
      obtain ⟨hCol, hRow⟩ := Prod.mk.inj (h.putc_break hBreak).1
      refine ⟨?_, ?_⟩
      · rw [hCol]
        decide
      · rw [hRow]
        exact hPlain

theorem BootScreen.Inside.writes {t : BootScreen} (h : t.Inside) (c : Byte) :
    ∀ place ∈ putcWrites t c, place < numRows * numCols * 2 := by
  have hCol := h.col
  have hRow := h.row
  intro place hPlace
  rw [putcWrites] at hPlace
  split at hPlace
  · exact absurd hPlace List.not_mem_nil
  · simp only [List.mem_cons, List.not_mem_nil, or_false, BootScreen.cell] at hPlace
    unfold numCols numRows at *
    omega

/-! ## Lines -/

/-- No line feed. -/
def Ordinary (line : List Byte) : Prop := ∀ c ∈ line, breaks c = false

/-- The characters up to the first line feed fit behind the first `n` columns, with
one column left. -/
def Starts (n : Nat) (s : List Byte) : Prop :=
  ∀ line, line <+: s → Ordinary line → n + line.length < numCols

/-- No 80 characters without a line feed between them. -/
def Within (s : List Byte) : Prop :=
  ∀ line, line <:+: s → Ordinary line → line.length < numCols

private theorem ordinary_nil : Ordinary [] := by
  intro c hMem
  exact absurd hMem List.not_mem_nil

theorem Starts.lt {n : Nat} {s : List Byte} (h : Starts n s) : n < numCols :=
  h [] List.nil_prefix ordinary_nil

theorem Within.starts {s : List Byte} (h : Within s) : Starts 0 s := by
  intro line hPrefix hOrdinary
  rw [Nat.zero_add]
  exact h line hPrefix.isInfix hOrdinary

private theorem within_cons (c : Byte) (s : List Byte) :
    Within (c :: s) ↔ Starts 0 (c :: s) ∧ Within s := by
  constructor
  · intro h
    refine ⟨h.starts, ?_⟩
    intro line hInfix
    exact h line (List.infix_cons_iff.mpr (Or.inr hInfix))
  · rintro ⟨hStarts, hWithin⟩ line hInfix hOrdinary
    cases List.infix_cons_iff.mp hInfix with
    | inl hPrefix =>
        have hFits := hStarts line hPrefix hOrdinary
        omega
    | inr hLater => exact hWithin line hLater hOrdinary

private theorem starts_break {c : Byte} (hBreak : breaks c = true) (n : Nat) (s : List Byte) :
    Starts n (c :: s) ↔ n < numCols := by
  constructor
  · exact Starts.lt
  · intro hLt line hPrefix hOrdinary
    cases List.prefix_cons_iff.mp hPrefix with
    | inl hNil => rw [hNil]; exact hLt
    | inr hCons =>
        obtain ⟨tail, rfl, _⟩ := hCons
        have hChar := hOrdinary c List.mem_cons_self
        rw [hBreak] at hChar
        exact absurd hChar.symm Bool.false_ne_true

private theorem starts_char {c : Byte} (hChar : breaks c = false) (n : Nat) (s : List Byte) :
    Starts n (c :: s) ↔ n < numCols ∧ Starts (n + 1) s := by
  constructor
  · intro h
    refine ⟨h.lt, ?_⟩
    intro line hPrefix hOrdinary
    have hLonger := h (c :: line) (List.cons_prefix_cons.mpr ⟨rfl, hPrefix⟩)
      (List.forall_mem_cons.mpr ⟨hChar, hOrdinary⟩)
    rw [List.length_cons] at hLonger
    omega
  · rintro ⟨hLt, h⟩ line hPrefix hOrdinary
    cases List.prefix_cons_iff.mp hPrefix with
    | inl hNil => rw [hNil]; exact hLt
    | inr hCons =>
        obtain ⟨tail, rfl, hTail⟩ := hCons
        have hFits := h tail hTail (List.forall_mem_cons.mp hOrdinary).2
        rw [List.length_cons]
        omega

theorem Starts.zero {n : Nat} {s : List Byte} (h : Starts n s) : Starts 0 s := by
  intro line hPrefix hOrdinary
  have hFits := h line hPrefix hOrdinary
  omega

/-- What is left of a string fits on the screen from column `x` of row `y` on: there
are not too many line feeds for the rows below, and no line is too long. -/
structure Fits (x y : Nat) (s : List Byte) : Prop where
  rows : y + s.countP breaks < numRows
  within : Within s
  starts : Starts x s

private theorem fits_nil {x y : Nat} (hx : x < numCols) (hy : y < numRows) : Fits x y [] where
  rows := hy
  within := by
    intro line hInfix _
    rw [List.infix_nil.mp hInfix]
    decide
  starts := by
    intro line hPrefix _
    rw [List.prefix_nil.mp hPrefix]
    exact hx

private theorem fits_break {c : Byte} (hBreak : breaks c = true) {x : Nat} (hx : x < numCols)
    (y : Nat) (s : List Byte) : Fits x y (c :: s) ↔ Fits 0 (y + 1) s := by
  constructor
  · intro h
    have hRows := h.rows
    have hWithin := ((within_cons c s).mp h.within).2
    rw [List.countP_cons_of_pos hBreak] at hRows
    exact ⟨by omega, hWithin, hWithin.starts⟩
  · intro h
    have hRows := h.rows
    refine ⟨?_, (within_cons c s).mpr ⟨?_, h.within⟩, (starts_break hBreak x s).mpr hx⟩
    · rw [List.countP_cons_of_pos hBreak]
      omega
    · exact (starts_break hBreak 0 s).mpr (by decide)

private theorem fits_char {c : Byte} (hChar : breaks c = false) (x y : Nat) (s : List Byte) :
    Fits x y (c :: s) ↔ Fits (x + 1) y s := by
  have hCount : (c :: s).countP breaks = s.countP breaks := by
    rw [List.countP_cons_of_neg]
    rw [hChar]
    exact Bool.false_ne_true
  constructor
  · intro h
    have hRows := h.rows
    rw [hCount] at hRows
    exact ⟨hRows, ((within_cons c s).mp h.within).2, ((starts_char hChar x s).mp h.starts).2⟩
  · intro h
    have hHere : Starts x (c :: s) :=
      (starts_char hChar x s).mpr ⟨Nat.lt_of_succ_lt h.starts.lt, h.starts⟩
    refine ⟨?_, (within_cons c s).mpr ⟨hHere.zero, h.within⟩, hHere⟩
    rw [hCount]
    exact h.rows

/-- From a position on the screen, all characters are plain if and only if they fit. -/
theorem always_plain_iff (s : List Byte) : ∀ t : BootScreen, t.Inside →
    (bootMachine.Always Plain t s ↔ Fits t.screenX t.screenY s) := by
  induction s with
  | nil =>
      intro t hInside
      exact ⟨fun _ => fits_nil hInside.col hInside.row, fun _ => trivial⟩
  | cons c s ih =>
      intro t hInside
      have hRest : Plain t c → (bootMachine.Always Plain (putc t c) s ↔
          Fits (putc t c).screenX (putc t c).screenY s) :=
        fun hPlain => ih (putc t c) (hInside.putc hPlain)
      rw [Machine.Always]
      cases hBreak : breaks c with
      | true =>
          obtain ⟨hX, hY⟩ := Prod.mk.inj (hInside.putc_break hBreak).1
          rw [hX, hY] at hRest
          rw [fits_break hBreak hInside.col]
          constructor
          · rintro ⟨hPlain, hAlways⟩
            exact (hRest hPlain).mp hAlways
          · intro hFits
            have hRows := hFits.rows
            have hPlain : Plain t c := by
              rw [Plain, if_pos hBreak]
              omega
            exact ⟨hPlain, (hRest hPlain).mpr hFits⟩
      | false =>
          have hNot : ¬ breaks c = true := by
            rw [hBreak]
            exact Bool.false_ne_true
          have hIff : Plain t c ↔ t.screenX + 1 < numCols := by
            rw [Plain, if_neg hNot]
          obtain ⟨hX, hY⟩ := Prod.mk.inj (hInside.putc_char hBreak).1
          rw [hX, hY] at hRest
          rw [fits_char hBreak]
          constructor
          · rintro ⟨hPlain, hAlways⟩
            have hFits := (hRest hPlain).mp hAlways
            rwa [Nat.mod_eq_of_lt (hIff.mp hPlain)] at hFits
          · intro hFits
            have hPlain := hIff.mpr hFits.starts.lt
            rw [Nat.mod_eq_of_lt hFits.starts.lt] at hRest
            exact ⟨hPlain, (hRest hPlain).mpr hFits⟩

/-! ## A string -/

/--
**Output on the boot screen.**  Every write is inside the screen and every character
moves the position on, through the lines and from the last to the first, exactly when
the string has fewer than 25 line feeds and no 80 other characters in a row.
-/
theorem putc_onScreen_iff (video : Nat → Byte) (s : List Byte) :
    OnScreen video s ↔ s.countP breaks < numRows ∧ Within s := by
  have hInside : (atBoot video).Inside :=
    ⟨(by decide : 0 < numCols), (by decide : 0 < numRows)⟩
  have hLegal : bootMachine.Legal (atBoot video) s :=
    bootMachine.always_of_forall (fun _ _ => trivial) _ s
  have hMoves : bootMachine.Always
        (fun t c => (putc t c).position = moveOn t.position c) (atBoot video) s ↔
      bootMachine.Always Plain (atBoot video) s := by
    apply bootMachine.always_iff_of_invariant (I := BootScreen.Inside) _ _ s _ hInside hLegal
    · intro t c hIn _ hPlain
      exact ⟨(hIn.moves_iff c).mpr hPlain, hIn.putc hPlain⟩
    · intro t c hIn _ hMoved
      exact (hIn.moves_iff c).mp hMoved
  have hTracks := bootMachine.tracks_iff BootScreen.position moveOn s (atBoot video)
  have hFits : bootMachine.Always Plain (atBoot video) s ↔
      s.countP breaks < numRows ∧ Within s := by
    rw [always_plain_iff s _ hInside]
    have hTop : (atBoot video).screenY + s.countP breaks = s.countP breaks :=
      Nat.zero_add _
    constructor
    · intro h
      have hRows := h.rows
      rw [hTop] at hRows
      exact ⟨hRows, h.within⟩
    · rintro ⟨hRows, hWithin⟩
      refine ⟨?_, hWithin, hWithin.starts⟩
      rw [hTop]
      exact hRows
  rw [← hFits, ← hMoves]
  constructor
  · intro hOnScreen
    exact hTracks.mp hOnScreen.position
  · intro hAlways
    refine ⟨(bootMachine.events_forall_iff s _).mpr ?_, hTracks.mpr hAlways⟩
    apply bootMachine.always_of_invariant (I := BootScreen.Inside) _ s _ hInside hLegal
      (hMoves.mp hAlways)
    intro t c hIn _ hPlain
    exact ⟨hIn.writes c, hIn.putc hPlain⟩

/-- After 25 line feeds a character is written behind the screen; after 80
characters the position is at the start of the same line. -/
theorem putc_leaves_screen :
    ¬ OnScreen (fun _ => 0) (List.replicate 25 0x0A ++ [0x61]) ∧
      ¬ OnScreen (fun _ => 0) (List.replicate 80 0x61) := by
  refine ⟨?_, ?_⟩
  · intro hOnScreen
    exact absurd (hOnScreen.inside 4000 (by decide +kernel)) (by decide)
  · intro hOnScreen
    exact absurd (hOnScreen.position _ (List.prefix_refl _)) (by decide +kernel)

end CompE.KernelLib
