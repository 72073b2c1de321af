import CompE.Vterm.Scancodes

/-!
# The modifier flags and the keys held

A flag stands for two keys, one on the left and one on the right.  The keyboard
sends a scancode when a key goes down, again while it is held, and when it goes
up.  The keys with a prefix, among them the right `Ctrl` and the right `Alt`,
come with a secondary byte, for which `interpret_scancode` has no codes; `Pause`
sends one sequence, with the scancodes of the left `Ctrl` and no release.

`Hands` are the driver and the keys that are held.  The flags say whether a key
of their kind is held as long as no event is one that the driver mistakes:
`Tracked`.
-/

namespace CompE.Vterm

open CompE.Library
open CompE.Kernel (Byte)

/-! ## Keys of the keyboard -/

/-- A key of the keyboard, by its scancode. -/
structure Key where
  prefixed : Bool
  code : BitVec 7
  deriving DecidableEq, Repr

def Key.lshift : Key := ⟨false, 0x2A⟩
def Key.rshift : Key := ⟨false, 0x36⟩
def Key.lctrl : Key := ⟨false, 0x1D⟩
def Key.rctrl : Key := ⟨true, 0x1D⟩
def Key.lalt : Key := ⟨false, 0x38⟩
def Key.ralt : Key := ⟨true, 0x38⟩
def Key.f12 : Key := ⟨false, 0x58⟩

/-- The keys of a kind. -/
def Modifier.left : Modifier → Key
  | .sft => .lshift
  | .ctrl => .lctrl
  | .alt => .lalt

def Modifier.right : Modifier → Key
  | .sft => .rshift
  | .ctrl => .rctrl
  | .alt => .ralt

/-- The second argument for `interpret_scancode`. -/
def Key.sec (k : Key) : Byte := if k.prefixed then 0xE0 else 0

def Key.press (k : Key) : Scancode := ⟨k.code.setWidth 8, k.sec⟩

def Key.release (k : Key) : Scancode := ⟨k.code.setWidth 8 ||| releasedMask, k.sec⟩

/-- What happens at the keyboard. -/
inductive KeyEvent where
  | press (k : Key)
  | release (k : Key)
  | pause
  deriving DecidableEq, Repr

/-- The calls of `interpret_scancode` for it.  `Pause` sends
`E1 1D 45 E1 9D C5`. -/
def KeyEvent.calls : KeyEvent → List Scancode
  | .press k => [k.press]
  | .release k => [k.release]
  | .pause => [⟨0xE1, 0⟩, ⟨0x1D, 0⟩, ⟨0x45, 0⟩, ⟨0xE1, 0⟩, ⟨0x9D, 0⟩, ⟨0xC5, 0⟩]

/-- The driver, and the keys held down. -/
structure Hands where
  driver : KeyboardState
  held : Key → Bool

/-- The keys held down afterwards. -/
def Hands.heldAfter (s : Hands) : KeyEvent → Key → Bool
  | .press k => Function.update s.held k true
  | .release k => Function.update s.held k false
  | .pause => s.held

/-- The keyboard: a release comes after a press. -/
def keyboard : Machine Hands KeyEvent Access where
  step s e := ⟨scancodes.run s.driver e.calls, s.heldAfter e⟩
  emit s e := scancodes.events s.driver e.calls
  legal s e := ∀ k, e = .release k → s.held k = true

/-- A key of the kind is held. -/
def holds (held : Key → Bool) (m : Modifier) : Bool :=
  held m.left || held m.right

/-- The flags are those of the keys held. -/
def KeyboardState.Shows (s : KeyboardState) (held : Key → Bool) : Prop :=
  ∀ m, s.input.kbd.mod.flag m = holds held m

/-- The flags are right after each scancode of the event. -/
def FlagsRight (s : Hands) (e : KeyEvent) : Prop :=
  scancodes.Always
    (fun d c => (interpretScancode c d).state.Shows (s.heldAfter e))
    s.driver e.calls

/-! ## The flags after a scancode -/

/-- The flag that a call sets or clears. -/
def Scancode.moves (c : Scancode) (s : KeyboardState) : Option Modifier :=
  if c.index > scancodeSet1Len then none else modifierOf (s.lookup c)

private theorem flag_inputhandler (raw : Byte) (s : InputState) (m : Modifier) :
    (consoleInputhandler raw s).kbd.mod.flag m = s.kbd.mod.flag m := by
  have hFinish : ∀ s, (inputhandlerFinish s).kbd = s.kbd := by
    intro s
    unfold inputhandlerFinish
    split <;> rfl
  rw [consoleInputhandler, hFinish]
  unfold inputhandlerEcho
  simp only
  split
  · split <;> rfl
  · cases m <;> rfl
  · rfl
  · rfl
  · rfl

private theorem keyReleased_flag (ascii : Byte) (s : KeyboardState) (m : Modifier) :
    (keyReleased ascii s).input.kbd.mod.flag m =
      if modifierOf ascii = some m then false else s.input.kbd.mod.flag m := by
  unfold keyReleased
  split
  · rename_i n hKind
    simp [KeyboardState.setModifier, setFlag_flag, hKind]
  · rename_i hKind
    simp only [hKind, reduceCtorEq, if_false]
    split <;> rfl

private theorem keyPressed_flag (ascii : Byte) (s : KeyboardState) (m : Modifier) :
    (keyPressed ascii s).1.input.kbd.mod.flag m =
      if modifierOf ascii = some m then true else s.input.kbd.mod.flag m := by
  unfold keyPressed
  split
  · rename_i n hKind
    simp [KeyboardState.setModifier, setFlag_flag, hKind]
  · rename_i hKind
    simp only [hKind, reduceCtorEq, if_false]
    split
    · exact flag_inputhandler _ _ _
    · split
      · split
        · unfold changeConsole
          split <;> rfl
        · rfl
      · split
        · exact flag_inputhandler _ _ _
        · rfl

/-- A call moves at most the flag of its code. -/
theorem interpretScancode_flag (c : Scancode) (s : KeyboardState) (m : Modifier) :
    (interpretScancode c s).state.input.kbd.mod.flag m =
      if c.moves s = some m then !decide (c.pri > releasedMask)
      else s.input.kbd.mod.flag m := by
  unfold interpretScancode Scancode.moves
  split
  · simp
  · split
    · rename_i hReleased
      rw [keyReleased_flag]
      simp [hReleased]
    · rename_i hPressed
      simp only
      rw [keyPressed_flag]
      simp [hPressed]

/-! ## Presses and releases -/

/-- The kind of which a key has a code.  What lies behind the table is taken
for the code of `F12`. -/
def Key.seen (behind : Byte) (k : Key) : Option Modifier :=
  if k = .lshift ∨ k = .rshift then some .sft
  else if k = .lctrl then some .ctrl
  else if k = .lalt then some .alt
  else if k = .f12 then modifierOf behind
  else none

private theorem press_index : ∀ code : BitVec 7,
    (code.setWidth 8 &&& ~~~releasedMask).toNat = code.toNat := by decide

private theorem release_index : ∀ code : BitVec 7,
    ((code.setWidth 8 ||| releasedMask) &&& ~~~releasedMask).toNat =
      code.toNat := by decide

private theorem press_pri : ∀ code : BitVec 7, ¬ code.setWidth 8 > releasedMask := by
  decide

private theorem release_pri : ∀ code : BitVec 7, code ≠ 0 →
    (code.setWidth 8 ||| releasedMask : Byte) > releasedMask := by decide

/-- The kinds of the codes in `scan1_normal`. -/
theorem scan1Normal_kinds : ∀ code : BitVec 7, code.toNat < scancodeSet1Len →
    modifierOf (scan1Normal.getD code.toNat 0) = Key.seen 0 ⟨false, code⟩ := by
  decide

private theorem seen_of_lt {k : Key} (h : k.code.toNat < scancodeSet1Len) (behind : Byte) :
    k.seen behind = k.seen 0 := by
  have hKey : k ≠ .f12 := fun hEq => absurd h (by rw [hEq]; decide)
  simp only [Key.seen, hKey, if_false]

private theorem seen_of_gt {k : Key} (h : k.code.toNat > scancodeSet1Len) (behind : Byte) :
    k.seen behind = none := by
  have hOther : ∀ k' : Key, k'.code.toNat ≤ scancodeSet1Len → k ≠ k' := by
    intro k' hLe hEq
    rw [hEq] at h
    exact absurd h (Nat.not_lt.2 hLe)
  simp only [Key.seen, hOther .lshift (by decide), hOther .rshift (by decide),
    hOther .lctrl (by decide), hOther .lalt (by decide), hOther .f12 (by decide),
    or_self, if_false]

private theorem seen_prefixed {k : Key} (h : k.prefixed = true) (behind : Byte) :
    k.seen behind = none := by
  have hOther : ∀ k' : Key, k'.prefixed = false → k ≠ k' := by
    intro k' hNot hEq
    rw [hEq, hNot] at h
    exact absurd h Bool.false_ne_true
  simp only [Key.seen, hOther .lshift rfl, hOther .rshift rfl, hOther .lctrl rfl,
    hOther .lalt rfl, hOther .f12 rfl, or_self, if_false]

/-- A press and a release move the flag of the key's code. -/
theorem moves_of_index {c : Scancode} {k : Key} (hSec : c.sec = k.sec)
    (hIndex : c.index = k.code.toNat) (s : KeyboardState) :
    c.moves s = k.seen s.behind := by
  unfold Scancode.moves
  rw [hIndex]
  by_cases hGt : k.code.toNat > scancodeSet1Len
  · rw [if_pos hGt, seen_of_gt hGt]
  · rw [if_neg hGt]
    cases hPrefixed : k.prefixed with
    | true =>
        have hNe : c.sec ≠ 0 := by
          rw [hSec, Key.sec, hPrefixed]
          decide
        rw [lookup_special hNe, seen_prefixed hPrefixed]
        rfl
    | false =>
        have hZero : c.sec = 0 := by
          rw [hSec, Key.sec, hPrefixed]
          rfl
        have hKey : k = ⟨false, k.code⟩ := by
          rw [← hPrefixed]
        by_cases hLt : k.code.toNat < scancodeSet1Len
        · rw [lookup_normal hZero (hIndex ▸ hLt), hIndex, scan1Normal_kinds _ hLt,
            ← hKey, seen_of_lt hLt s.behind]
        · have hF12 : k = .f12 := by
            rw [hKey]
            congr 1
            apply BitVec.eq_of_toNat_eq
            exact Nat.le_antisymm (Nat.not_lt.1 hGt) (Nat.not_lt.1 hLt)
          rw [KeyboardState.lookup, if_pos hZero, hIndex, hF12]
          rfl

private theorem press_flag (k : Key) (s : KeyboardState) (m : Modifier) :
    (interpretScancode k.press s).state.input.kbd.mod.flag m =
      if k.seen s.behind = some m then true else s.input.kbd.mod.flag m := by
  rw [interpretScancode_flag, moves_of_index (c := k.press) (k := k) rfl (press_index k.code)]
  simp [Key.press, press_pri]

private theorem release_flag (k : Key) (s : KeyboardState) (m : Modifier) :
    (interpretScancode k.release s).state.input.kbd.mod.flag m =
      if k.seen s.behind = some m then false else s.input.kbd.mod.flag m := by
  rw [interpretScancode_flag, moves_of_index (c := k.release) (k := k) rfl (release_index k.code)]
  by_cases hSeen : k.seen s.behind = some m
  · have hCode : k.code ≠ 0 := by
      intro hZero
      have hNone : k.seen s.behind = none := by
        obtain ⟨prefixed, code⟩ := k
        subst hZero
        cases prefixed <;> rfl
      rw [hNone] at hSeen
      exact absurd hSeen (by simp)
    have hPri : k.release.pri > releasedMask := release_pri k.code hCode
    simp [hSeen, hPri]
  · rw [if_neg hSeen, if_neg hSeen]

/-! ## The flags and the keys -/

/-- The event is none that the driver mistakes: a right `Ctrl` or `Alt`, which
has no code, next to no other key of its kind; a modifier key that goes up while
the other of its kind is held; `F12` with the code of a modifier; `Pause`. -/
def Tracked (s : Hands) : KeyEvent → Prop
  | .press k =>
      (k = .rctrl → holds s.held .ctrl = true) ∧
      (k = .ralt → holds s.held .alt = true) ∧
      (k = .f12 → ∀ m, modifierOf s.driver.behind = some m →
        holds s.held m = true)
  | .release k =>
      (k = .lshift → s.held .rshift = false) ∧
      (k = .rshift → s.held .lshift = false) ∧
      (k = .lctrl → s.held .rctrl = false) ∧
      (k = .lalt → s.held .ralt = false) ∧
      (k = .rctrl → s.held .lctrl = true) ∧
      (k = .ralt → s.held .lalt = true) ∧
      (k = .f12 → ∀ m, modifierOf s.driver.behind = some m →
        holds s.held m = false)
  | .pause => False

private theorem forall_modifier {p : Modifier → Prop} :
    (∀ m, p m) ↔ p .sft ∧ p .ctrl ∧ p .alt := by
  constructor
  · intro h
    exact ⟨h .sft, h .ctrl, h .alt⟩
  · rintro ⟨hSft, hCtrl, hAlt⟩ m
    cases m
    · exact hSft
    · exact hCtrl
    · exact hAlt

/-- A key is one of those that matter, or none of them. -/
theorem key_cases (k : Key) :
    (k = .lshift ∨ k = .rshift ∨ k = .lctrl ∨ k = .rctrl ∨ k = .lalt ∨
      k = .ralt ∨ k = .f12) ∨
      (∀ m : Modifier, k ≠ m.left ∧ k ≠ m.right) ∧ k ≠ .f12 := by
  rw [forall_modifier]
  simp only [Modifier.left, Modifier.right]
  grind

private theorem seen_of_ne {k : Key} (h : ∀ m : Modifier, k ≠ m.left ∧ k ≠ m.right)
    (hF12 : k ≠ .f12) (behind : Byte) : k.seen behind = none := by
  obtain ⟨hSft, hCtrl, hAlt⟩ := forall_modifier.1 h
  simp only [Modifier.left, Modifier.right] at hSft hCtrl hAlt
  simp [Key.seen, hSft, hCtrl, hAlt, hF12]

/-- The kinds of a held key, key by key. -/
theorem holds_update (held : Key → Bool) (k : Key) (on : Bool) (m : Modifier) :
    holds (Function.update held k on) m =
      ((if m.left = k then on else held m.left) ||
        (if m.right = k then on else held m.right)) := by
  simp only [holds, Function.update_apply]

private theorem holds_update_of_ne {k : Key} {m : Modifier} (held : Key → Bool)
    (h : k ≠ m.left ∧ k ≠ m.right) (on : Bool) :
    holds (Function.update held k on) m = holds held m := by
  rw [holds_update, if_neg h.1.symm, if_neg h.2.symm, holds]

private theorem tracked_of_ne {k : Key} (h : ∀ m : Modifier, k ≠ m.left ∧ k ≠ m.right)
    (hF12 : k ≠ .f12) (s : Hands) :
    Tracked s (.press k) ∧ Tracked s (.release k) := by
  obtain ⟨hSft, hCtrl, hAlt⟩ := forall_modifier.1 h
  simp only [Modifier.left, Modifier.right] at hSft hCtrl hAlt
  simp [Tracked, hSft, hCtrl, hAlt, hF12]

section Events

variable {s : Hands}

private theorem press_shows_iff (hShows : s.driver.Shows s.held) (k : Key) :
    (interpretScancode k.press s.driver).state.Shows (s.heldAfter (.press k)) ↔
      Tracked s (.press k) := by
  unfold KeyboardState.Shows
  simp only [press_flag, hShows _, Hands.heldAfter]
  obtain hKey | ⟨hNone, hF12⟩ := key_cases k
  · simp only [holds_update, Tracked]
    obtain rfl | rfl | rfl | rfl | rfl | rfl | rfl := hKey <;>
      simp [forall_modifier, Key.seen, holds, Modifier.left, Modifier.right,
        Key.lshift, Key.rshift, Key.lctrl, Key.rctrl, Key.lalt, Key.ralt, Key.f12]
  · refine iff_of_true (fun m => ?_) (tracked_of_ne hNone hF12 s).1
    rw [seen_of_ne hNone hF12, holds_update_of_ne s.held (hNone m)]
    rfl

private theorem release_shows_iff (hShows : s.driver.Shows s.held) {k : Key}
    (hHeld : s.held k = true) :
    (interpretScancode k.release s.driver).state.Shows
        (s.heldAfter (.release k)) ↔ Tracked s (.release k) := by
  unfold KeyboardState.Shows
  simp only [release_flag, hShows _, Hands.heldAfter]
  obtain hKey | ⟨hNone, hF12⟩ := key_cases k
  · simp only [holds_update, Tracked]
    obtain rfl | rfl | rfl | rfl | rfl | rfl | rfl := hKey <;>
      simp [forall_modifier, Key.seen, holds, Modifier.left, Modifier.right,
        Key.lshift, Key.rshift, Key.lctrl, Key.rctrl, Key.lalt, Key.ralt,
        Key.f12] at hHeld ⊢ <;> grind
  · refine iff_of_true (fun m => ?_) (tracked_of_ne hNone hF12 s).2
    rw [seen_of_ne hNone hF12, holds_update_of_ne s.held (hNone m)]
    rfl

/-- `Pause` sets the flag of `Ctrl`, and clears it again. -/
theorem not_flagsRight_pause : ¬ FlagsRight s .pause := by
  intro h
  have hCtrl : ∀ d c, (interpretScancode c d).state.Shows s.held →
      c.moves d = some .ctrl →
        (!decide (c.pri > releasedMask)) = holds s.held .ctrl := by
    intro d c hRight hMoves
    rw [← hRight .ctrl, interpretScancode_flag, if_pos hMoves]
  obtain ⟨_, hPress, _, _, hRelease, _⟩ := h
  have hOn := hCtrl _ _ hPress rfl
  have hOff := hCtrl _ _ hRelease rfl
  rw [← hOn] at hOff
  exact absurd hOff (by decide)

/-- One event. -/
theorem flagsRight_iff (hShows : s.driver.Shows s.held) {e : KeyEvent}
    (hLegal : keyboard.legal s e) : FlagsRight s e ↔ Tracked s e := by
  cases e with
  | press k => exact (and_iff_left trivial).trans (press_shows_iff hShows k)
  | release k =>
      exact (and_iff_left trivial).trans (release_shows_iff hShows (hLegal k rfl))
  | pause => exact iff_of_false not_flagsRight_pause id

/-- After an event with the right flags the flags are right. -/
theorem FlagsRight.shows {e : KeyEvent} (h : FlagsRight s e) :
    (keyboard.step s e).driver.Shows (keyboard.step s e).held := by
  cases e with
  | press k => exact h.1
  | release k => exact h.1
  | pause => exact absurd h not_flagsRight_pause

end Events

/--
**Modifier flags.**  Whatever keys are pressed, held and released, each flag
says after each scancode whether a key of its kind is held, exactly if every
event is one that the driver can track.
-/
theorem modifier_flags_iff (s : Hands) (es : List KeyEvent)
    (hShows : s.driver.Shows s.held) (hLegal : keyboard.Legal s es) :
    keyboard.Always FlagsRight s es ↔ keyboard.Always Tracked s es := by
  refine keyboard.always_iff_of_invariant (I := fun s => s.driver.Shows s.held)
    ?_ ?_ es s hShows hLegal
  · intro s e hInv hEvent hTracked
    have hRight := (flagsRight_iff hInv hEvent).2 hTracked
    exact ⟨hRight, hRight.shows⟩
  · intro s e hInv hEvent hRight
    exact (flagsRight_iff hInv hEvent).1 hRight

/-- The keyboard with no key held. -/
def handsOff : Hands where
  driver :=
    { altHeld with
      input := { altHeld.input with
        kbd :=
          { mod := { ctrl := false, alt := false, sft := false, capslock := false }
            charPressed := 0 } } }
  held _ := false

private theorem handsOff_shows : handsOff.driver.Shows handsOff.held := by
  intro m
  cases m <;> rfl

/-- The left `Ctrl` around the left `Shift`. -/
def ctrlShift : List KeyEvent :=
  [.press .lctrl, .press .lshift, .release .lshift, .release .lctrl]

private theorem ctrlShift_legal : keyboard.Legal handsOff ctrlShift := by
  refine ⟨?_, ?_, ?_, ?_, trivial⟩ <;> intro k hKey <;> cases hKey <;> rfl

theorem modifier_flags_iff_ctrlShift :
    keyboard.Always FlagsRight handsOff ctrlShift ↔
      keyboard.Always Tracked handsOff ctrlShift :=
  modifier_flags_iff handsOff ctrlShift handsOff_shows ctrlShift_legal

/-- The left `Shift` goes up while the right one is held. -/
theorem both_shifts_lost : ¬ ∀ (s : Hands) (es : List KeyEvent),
    s.driver.Shows s.held → keyboard.Legal s es →
      keyboard.Always FlagsRight s es := by
  intro h
  have hLegal : keyboard.Legal handsOff
      [.press .lshift, .press .rshift, .release .lshift] := by
    refine ⟨?_, ?_, ?_, trivial⟩ <;> intro k hKey <;> cases hKey
    rfl
  obtain ⟨_, _, ⟨hUp, _⟩, _⟩ := h handsOff _ handsOff_shows hLegal
  exact absurd (hUp .sft) (by decide)

end CompE.Vterm
