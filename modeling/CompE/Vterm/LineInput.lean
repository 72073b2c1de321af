import CompE.Vterm.Keyboard

/-!
# Where the keyboard handler stores

The handler is to store into the buffer of a read in progress, within its
length, and nowhere else.  It looks at `current_input`, which outlives the
read that filled it in, and at `complete`, which is false before the first
read and is not looked at for Enter.  So it stores

* through a null pointer, at a key before the first read;
* into a buffer that is gone, at Enter after a read;
* behind the buffer, at the second key of a read of one character;
* into a buffer of no length, in a read of negative length;
* with some fields old and some new, while a read fills them in.

`Handler.Harmless` has all other keys, and `line_input_safe` says that they
are.  The invariant is that `next` stays two below a length of two or more.

A read that stores to `current_input` between the handler's copy and its write
back is lost.  The results are about the runs where none does, `Unraced`.
-/

namespace CompE.Vterm

open CompE.Library
open CompE.Kernel (Byte)

/-! ## Safety -/

/-- A store in the buffer of the read in progress. -/
def Store.within (w : Store) (read : Option Read) : Prop :=
  ∃ r, read = some r ∧ w.buffer = r.cbuf ∧ (w.index.toNat : Int) < r.n.toInt

/-- The handler stores within the read in progress on the displayed console. -/
def SafeStores (s : InputState) (i : InputEvent) : Prop :=
  ∀ w ∈ i.stores s, w.within (s.reads s.term.currentConsole)

/-- The handler's copy is still what `current_input` is. -/
def Unraced (s : InputState) (i : InputEvent) : Prop :=
  i = .finish → ∀ h, s.handler = some h →
    h.currentInput = s.term.currentInput s.term.currentConsole

/-- The read has filled in what the handler looks at. -/
def Read.polls (r : Read) : Prop := r.stage = .complete ∨ r.stage = .bkspstop

instance (r : Read) : Decidable r.polls := inferInstanceAs (Decidable (_ ∨ _))

/-- An index of the buffer in `current_input` is one of the read. -/
def BufferedInput.fits (inp : BufferedInput) (r : Read) (i : BitVec 32) : Prop :=
  inp.buffer = r.cbuf ∧ (i.toNat : Int) < r.n.toInt

/-- The fields as they are, old and new, make the key store within the read. -/
def Handler.Fits (h : Handler) (r : Read) : Prop :=
  let inp := h.currentInput
  match h.kind with
  | .printable =>
      inp.complete = true ∨
        if inp.next = inp.bufferLength - 2 then
          inp.bufferLength ≤ 1 ∨
            (inp.fits r (inp.next + 1) ∧ inp.fits r inp.next)
        else inp.fits r inp.next
  | .enter =>
      inp.bufferLength ≤ 1 ∨
        if inp.next = inp.bufferLength then
          inp.fits r (inp.next - 1) ∧ inp.fits r (inp.next - 2)
        else inp.fits r inp.next ∧ inp.fits r (inp.next + 1)
  | .bksp | .capslock | .other => True

/-- A key with no read in progress. -/
def Handler.HarmlessIdle (h : Handler) : Prop :=
  match h.kind with
  | .printable => h.currentInput.complete = true
  | .enter => h.currentInput.bufferLength ≤ 1
  | .bksp | .capslock | .other => True

/-- A key during a read.  A length of two or more takes every key, a length of
one takes one character, and a negative length none. -/
def Handler.HarmlessPoll (h : Handler) (r : Read) : Prop :=
  match h.kind with
  | .printable =>
      2 ≤ r.n.toInt ∨ h.currentInput.complete = true ∨
        (r.n = 1 ∧ h.currentInput.next = 0)
  | .enter => 0 < r.n.toInt
  | .bksp | .capslock | .other => True

/-- The keys that do no harm. -/
def Handler.Harmless (h : Handler) : Option Read → Prop
  | none => h.HarmlessIdle
  | some r => if r.polls then h.HarmlessPoll r else h.Fits r

def HarmlessKey (s : InputState) (i : InputEvent) : Prop :=
  i = .finish → ∀ h, s.handler = some h →
    h.Harmless (s.reads s.term.currentConsole)

/-! ## The invariant -/

/-- How far `next` can be. -/
structure Counted (inp : BufferedInput) (n : BitVec 32) : Prop where
  room : 2 ≤ n.toInt → (inp.next.toNat : Int) + 2 ≤ n.toInt
  single : n = 1 → inp.next.toNat ≤ 1
  negative : n.toInt < 0 → inp.next = 0

/-- A read in progress has stored its fields up to its stage. -/
structure Reading (inp : BufferedInput) (r : Read) : Prop where
  nonzero : r.n ≠ 0
  buffer : r.stage ≠ .called → inp.buffer = r.cbuf
  length : r.stage ≠ .called → r.stage ≠ .buffer → inp.bufferLength = r.n
  counted : r.stage = .next ∨ r.polls → Counted inp r.n

/-- Between two reads the input is complete, or there was none yet. -/
def InputInv (inp : BufferedInput) : Option Read → Prop
  | none => inp.complete = true ∨ (inp.bufferLength = 0 ∧ inp.next = 0)
  | some r => Reading inp r

theorem Reading.inv {inp : BufferedInput} {r : Read} (h : Reading inp r) :
    InputInv inp (some r) := h

structure LineInv (s : InputState) : Prop where
  sane : Sane s.term
  input : ∀ c, InputInv (s.term.currentInput c) (s.reads c)

/-! ## Lengths -/

theorem toNat_of_pos {n : BitVec 32} (h : 0 < n.toInt) :
    (n.toNat : Int) = n.toInt ∧ n.toNat < 2 ^ 31 := by
  rw [BitVec.toInt_eq_toNat_cond] at h ⊢
  split at h
  · rename_i hSmall
    rw [if_pos hSmall]
    exact ⟨rfl, by omega⟩
  · omega

private theorem toNat_of_neg {n : BitVec 32} (h : n.toInt < 0) : 2 ^ 31 ≤ n.toNat := by
  rw [BitVec.toInt_eq_toNat_cond] at h
  split at h
  · omega
  · omega

private theorem toInt_cases {n : BitVec 32} (h : n ≠ 0) :
    2 ≤ n.toInt ∨ n = 1 ∨ n.toInt < 0 := by
  by_cases hPos : 0 < n.toInt
  · obtain ⟨hNat, _⟩ := toNat_of_pos hPos
    by_cases hTwo : 2 ≤ n.toInt
    · exact Or.inl hTwo
    · exact Or.inr (Or.inl (BitVec.eq_of_toNat_eq (by simp; omega)))
  · refine Or.inr (Or.inr ?_)
    have hZero : n.toInt ≠ 0 := fun hEq => h (BitVec.eq_of_toInt_eq hEq)
    omega

/-! ## One key -/

theorem Store.within_some (b i : BitVec 32) (c : Byte) (r : Read) :
    Store.within ⟨b, i, c⟩ (some r) ↔
      b = r.cbuf ∧ (i.toNat : Int) < r.n.toInt := by
  simp [Store.within]

private theorem within_nil (r : Option Read) :
    (∀ w ∈ ([] : List Store), w.within r) ↔ True :=
  ⟨fun _ => trivial, fun _ _ hw => absurd hw List.not_mem_nil⟩

private theorem storePrintable_within_iff (inp : BufferedInput) (c : Byte) (r : Read) :
    (∀ w ∈ (storePrintable inp c).1, w.within (some r)) ↔
      (inp.complete = true ∨
        if inp.next = inp.bufferLength - 2 then
          inp.bufferLength ≤ 1 ∨
            (inp.fits r (inp.next + 1) ∧ inp.fits r inp.next)
        else inp.fits r inp.next) := by
  unfold storePrintable
  by_cases hComplete : inp.complete = true
  · rw [if_pos hComplete, within_nil]
    exact ⟨fun _ => Or.inl hComplete, fun _ => trivial⟩
  · rw [if_neg hComplete, or_iff_right hComplete]
    by_cases hNext : inp.next = inp.bufferLength - 2
    · rw [if_pos hNext, if_pos hNext]
      by_cases hLength : inp.bufferLength ≤ 1
      · rw [if_neg (BitVec.not_lt.2 hLength), within_nil]
        exact ⟨fun _ => Or.inl hLength, fun _ => trivial⟩
      · rw [if_pos (BitVec.not_le.1 hLength), or_iff_right hLength]
        simp only [List.forall_mem_cons, within_nil, Store.within_some, and_true,
          BufferedInput.fits]
    · rw [if_neg hNext, if_neg hNext]
      simp only [List.forall_mem_cons, within_nil, Store.within_some, and_true,
        BufferedInput.fits]

private theorem storeEnter_within_iff (inp : BufferedInput) (r : Read) :
    (∀ w ∈ (storeEnter inp).1, w.within (some r)) ↔
      (inp.bufferLength ≤ 1 ∨
        if inp.next = inp.bufferLength then
          inp.fits r (inp.next - 1) ∧ inp.fits r (inp.next - 2)
        else inp.fits r inp.next ∧ inp.fits r (inp.next + 1)) := by
  unfold storeEnter
  simp only
  by_cases hLength : inp.bufferLength ≤ 1
  · rw [if_neg (BitVec.not_lt.2 hLength), if_neg (BitVec.not_lt.2 hLength),
      ite_self, within_nil]
    exact ⟨fun _ => Or.inl hLength, fun _ => trivial⟩
  · rw [if_pos (BitVec.not_le.1 hLength), if_pos (BitVec.not_le.1 hLength),
      or_iff_right hLength]
    by_cases hNext : inp.next = inp.bufferLength
    · rw [if_pos hNext, if_pos hNext]
      simp only [List.forall_mem_cons, within_nil, Store.within_some, and_true,
        BufferedInput.fits]
    · rw [if_neg hNext, if_neg hNext]
      simp only [List.forall_mem_cons, within_nil, Store.within_some, and_true,
        BufferedInput.fits]

theorem Handler.store_within_iff (h : Handler) (r : Read) :
    (∀ w ∈ h.store.1, w.within (some r)) ↔ h.Fits r := by
  cases hKind : h.kind with
  | printable =>
      simp only [Handler.store, Handler.Fits, hKind]
      exact storePrintable_within_iff h.currentInput h.charPressed r
  | enter =>
      simp only [Handler.store, Handler.Fits, hKind]
      exact storeEnter_within_iff h.currentInput r
  | bksp | capslock | other =>
      simp only [Handler.store, Handler.Fits, hKind, within_nil]

/-- With no read in progress the handler is not to store at all. -/
theorem Handler.store_idle_iff (h : Handler)
    (hInv : InputInv h.currentInput none) :
    (∀ w ∈ h.store.1, w.within none) ↔ h.HarmlessIdle := by
  have hNone : (∀ w ∈ h.store.1, w.within none) ↔ h.store.1 = [] := by
    rw [List.eq_nil_iff_forall_not_mem]
    refine forall₂_congr fun w _ => ?_
    simp [Store.within]
  rw [hNone]
  cases hKind : h.kind with
  | printable =>
      have hStart : h.currentInput.complete = true ∨
          h.currentInput.next ≠ h.currentInput.bufferLength - 2 := by
        rcases hInv with hComplete | ⟨hLength, hNext⟩
        · exact Or.inl hComplete
        · rw [hLength, hNext]
          exact Or.inr (by decide)
      simp only [Handler.store, Handler.HarmlessIdle, hKind, storePrintable]
      by_cases hComplete : h.currentInput.complete = true
      · rw [if_pos hComplete]
        exact ⟨fun _ => hComplete, fun _ => rfl⟩
      · rw [if_neg hComplete, if_neg (hStart.resolve_left hComplete)]
        exact ⟨fun hNil => absurd hNil (List.cons_ne_nil _ _),
          fun hYes => absurd hYes hComplete⟩
  | enter =>
      simp only [Handler.store, Handler.HarmlessIdle, hKind, storeEnter]
      by_cases hLength : h.currentInput.bufferLength ≤ 1
      · rw [if_neg (BitVec.not_lt.2 hLength), if_neg (BitVec.not_lt.2 hLength),
          ite_self]
        exact ⟨fun _ => hLength, fun _ => rfl⟩
      · rw [if_pos (BitVec.not_le.1 hLength), if_pos (BitVec.not_le.1 hLength)]
        refine ⟨fun hNil => ?_, fun hYes => absurd hYes hLength⟩
        split at hNil
        · cases hNil
        · cases hNil
  | bksp | capslock | other =>
      simp only [Handler.store, Handler.HarmlessIdle, hKind]

theorem toNat_add_one {i : BitVec 32} (h : i.toNat + 1 < 2 ^ 32) :
    (i + 1).toNat = i.toNat + 1 := by
  rw [BitVec.toNat_add]
  exact Nat.mod_eq_of_lt h

/-- A read of two characters or more has room for a character and the one
behind it. -/
theorem Counted.fits {inp : BufferedInput} {r : Read}
    (h : Counted inp r.n) (hBuffer : inp.buffer = r.cbuf) (hTwo : 2 ≤ r.n.toInt) :
    inp.fits r inp.next ∧ inp.fits r (inp.next + 1) := by
  have hRoom := h.room hTwo
  obtain ⟨hNat, hSmall⟩ := toNat_of_pos (n := r.n) (by omega)
  have hNext : (inp.next + 1).toNat = inp.next.toNat + 1 :=
    toNat_add_one (by omega)
  refine ⟨⟨hBuffer, by omega⟩, hBuffer, ?_⟩
  rw [hNext]
  omega

/-- A read of one character has room for one at the first place. -/
theorem Counted.fits_single {inp : BufferedInput} {r : Read}
    (h : Counted inp r.n) (hBuffer : inp.buffer = r.cbuf) (hOne : r.n = 1) :
    inp.next ≠ r.n - 2 ∧ (inp.fits r inp.next ↔ inp.next = 0) := by
  have hSingle := h.single hOne
  have hValue : r.n.toInt = 1 := by rw [hOne]; decide
  constructor
  · intro hEq
    rw [hEq, hOne] at hSingle
    revert hSingle
    decide
  · constructor
    · rintro ⟨_, hLt⟩
      exact BitVec.eq_of_toNat_eq (show inp.next.toNat = 0 by omega)
    · intro hZero
      refine ⟨hBuffer, ?_⟩
      rw [hZero, hValue]
      decide

/-- A read of a negative length has room for nothing. -/
theorem Counted.fits_negative {inp : BufferedInput} {r : Read}
    (h : Counted inp r.n) (hNeg : r.n.toInt < 0) :
    inp.next ≠ r.n - 2 ∧ inp.next ≠ r.n ∧ ¬ inp.fits r inp.next := by
  rw [h.negative hNeg]
  refine ⟨fun hEq => ?_, fun hEq => ?_, ?_⟩
  · have hValue : r.n = 2 := by bv_omega
    rw [hValue] at hNeg
    revert hNeg
    decide
  · rw [← hEq] at hNeg
    revert hNeg
    decide
  · rintro ⟨_, hLt⟩
    omega

/-- While a read polls, its invariant says which keys store within it. -/
theorem Handler.fits_poll_iff {h : Handler} {r : Read}
    (hReading : Reading h.currentInput r) (hPolls : r.polls) :
    h.Fits r ↔ h.HarmlessPoll r := by
  have hNotCalled : r.stage ≠ .called ∧ r.stage ≠ .buffer := by
    rcases hPolls with hStage | hStage
    · rw [hStage]; decide
    · rw [hStage]; decide
  have hBuffer := hReading.buffer hNotCalled.1
  have hLength := hReading.length hNotCalled.1 hNotCalled.2
  have hCounted := hReading.counted (Or.inr hPolls)
  cases hKind : h.kind with
  | printable =>
      simp only [Handler.Fits, Handler.HarmlessPoll, hKind, hLength]
      rcases toInt_cases hReading.nonzero with hTwo | hOne | hNeg
      · obtain ⟨hHere, hNext⟩ := hCounted.fits hBuffer hTwo
        refine ⟨fun _ => Or.inl hTwo, fun _ => Or.inr ?_⟩
        split
        · exact Or.inr ⟨hNext, hHere⟩
        · exact hHere
      · obtain ⟨hNe, hFits⟩ := hCounted.fits_single hBuffer hOne
        have hShort : ¬ 2 ≤ r.n.toInt := by rw [hOne]; decide
        rw [if_neg hNe, hFits, or_iff_right hShort, and_iff_right hOne]
      · obtain ⟨hNe, _, hFits⟩ := hCounted.fits_negative hNeg
        have hShort : ¬ 2 ≤ r.n.toInt := by omega
        have hNotOne : ¬ (r.n = 1 ∧ h.currentInput.next = 0) := by
          rintro ⟨hOne, _⟩
          rw [hOne] at hNeg
          revert hNeg
          decide
        rw [if_neg hNe, or_iff_left hFits, or_iff_right hShort, or_iff_left hNotOne]
  | enter =>
      simp only [Handler.Fits, Handler.HarmlessPoll, hKind, hLength]
      rcases toInt_cases hReading.nonzero with hTwo | hOne | hNeg
      · refine ⟨fun _ => by omega, fun _ => Or.inr ?_⟩
        have hNe : h.currentInput.next ≠ r.n := by
          intro hEq
          have hRoom := hCounted.room hTwo
          obtain ⟨hNat, _⟩ := toNat_of_pos (n := r.n) (by omega)
          rw [hEq] at hRoom
          omega
        rw [if_neg hNe]
        exact hCounted.fits hBuffer hTwo
      · rw [hOne]
        exact ⟨fun _ => by decide, fun _ => Or.inl (by decide)⟩
      · obtain ⟨_, hNe, hFits⟩ := hCounted.fits_negative hNeg
        have hMany : ¬ r.n ≤ 1 := by
          rw [BitVec.not_le, BitVec.lt_def]
          exact Nat.lt_of_lt_of_le (by decide) (toNat_of_neg hNeg)
        rw [or_iff_right hMany, if_neg hNe]
        exact ⟨fun hBoth => absurd hBoth.1 hFits, fun hPos => by omega⟩
  | bksp | capslock | other =>
      simp only [Handler.Fits, Handler.HarmlessPoll, hKind]

/-! ## The invariant under one key -/

theorem Handler.store_buffer (h : Handler) :
    h.store.2.buffer = h.currentInput.buffer ∧
      h.store.2.bufferLength = h.currentInput.bufferLength := by
  unfold Handler.store storePrintable storeEnter
  split
  · split
    · exact ⟨rfl, rfl⟩
    · split
      · exact ⟨rfl, rfl⟩
      · exact ⟨rfl, rfl⟩
  · exact ⟨rfl, rfl⟩
  · simp only
    split
    · exact ⟨rfl, rfl⟩
    · exact ⟨rfl, rfl⟩
  · exact ⟨rfl, rfl⟩
  · exact ⟨rfl, rfl⟩

/-- What a key does to `next`: nothing, one back, or one on after a store. -/
theorem Handler.store_next (h : Handler) :
    h.store.2.next = h.currentInput.next ∨
      (0 < h.currentInput.next ∧ h.store.2.next = h.currentInput.next - 1) ∨
      (h.kind = .printable ∧ h.currentInput.complete = false ∧
        h.currentInput.next ≠ h.currentInput.bufferLength - 2 ∧
        h.store.2.next = h.currentInput.next + 1) := by
  cases hKind : h.kind with
  | printable =>
      simp only [Handler.store, hKind, storePrintable]
      by_cases hComplete : h.currentInput.complete = true
      · rw [if_pos hComplete]
        exact Or.inl rfl
      · rw [if_neg hComplete]
        by_cases hNext : h.currentInput.next = h.currentInput.bufferLength - 2
        · rw [if_pos hNext]
          exact Or.inl rfl
        · rw [if_neg hNext]
          exact Or.inr (Or.inr
            ⟨trivial, Bool.eq_false_iff.2 hComplete, hNext, rfl⟩)
  | bksp =>
      simp only [Handler.store, hKind]
      split
      · rename_i hBack
        rw [Bool.and_eq_true, decide_eq_true_eq] at hBack
        exact Or.inr (Or.inl ⟨hBack.2, rfl⟩)
      · exact Or.inl rfl
  | enter | capslock | other => simp only [Handler.store, hKind, storeEnter, true_or]

/-- A key that fits keeps `next` in its bounds. -/
theorem Counted.store {h : Handler} {r : Read} (hCounted : Counted h.currentInput r.n)
    (hLength : h.currentInput.bufferLength = r.n) (hFits : h.Fits r) : Counted h.store.2 r.n := by
  rcases h.store_next with hSame | ⟨hPos, hBack⟩ | ⟨hKind, hOpen, hNe, hOn⟩
  · exact ⟨by rw [hSame]; exact hCounted.room,
      by rw [hSame]; exact hCounted.single, by rw [hSame]; exact hCounted.negative⟩
  · have hLess : h.store.2.next.toNat + 1 = h.currentInput.next.toNat := by
      rw [hBack]
      bv_omega
    refine ⟨fun hTwo => ?_, fun hOne => ?_, fun hNeg => ?_⟩
    · have hRoom := hCounted.room hTwo
      omega
    · have hSingle := hCounted.single hOne
      omega
    · have hZero := hCounted.negative hNeg
      rw [hZero] at hPos
      exact absurd hPos (by decide)
  · rw [hLength] at hNe
    have hHere : h.currentInput.fits r h.currentInput.next := by
      simp only [Handler.Fits, hKind, hOpen, hLength, if_neg hNe] at hFits
      exact hFits.resolve_left (by decide)
    refine ⟨fun hTwo => ?_, fun hOne => ?_, fun hNeg => ?_⟩
    · have hRoom := hCounted.room hTwo
      obtain ⟨hNat, hSmall⟩ := toNat_of_pos (n := r.n) (by omega)
      have hStep : (h.currentInput.next + 1).toNat = h.currentInput.next.toNat + 1 :=
        toNat_add_one (by omega)
      have hStrict : h.currentInput.next.toNat + 2 ≠ r.n.toNat := by
        intro hEq
        exact hNe (by bv_omega)
      rw [hOn, hStep]
      omega
    · have hValue : r.n.toInt = 1 := by rw [hOne]; decide
      have hZero : h.currentInput.next = 0 :=
        BitVec.eq_of_toNat_eq (show h.currentInput.next.toNat = 0 by
          have hLt := hHere.2
          omega)
      rw [hOn, hZero]
      decide
    · have hLt := hHere.2
      omega

/-- A key that fits keeps what a read has stored. -/
theorem Reading.store {h : Handler} {r : Read} (hReading : Reading h.currentInput r)
    (hFits : h.Fits r) : Reading h.store.2 r where
  nonzero := hReading.nonzero
  buffer := fun hStage => by rw [h.store_buffer.1]; exact hReading.buffer hStage
  length := fun hCalled hBuffer => by
    rw [h.store_buffer.2]
    exact hReading.length hCalled hBuffer
  counted := fun hStage => by
    have hNotCalled : r.stage ≠ .called ∧ r.stage ≠ .buffer := by
      rcases hStage with hStage | hStage | hStage
      all_goals rw [hStage]; decide
    exact (hReading.counted hStage).store
      (hReading.length hNotCalled.1 hNotCalled.2) hFits

/-- A harmless key without a read leaves the input complete. -/
theorem InputInv.store_idle {h : Handler} (hInv : InputInv h.currentInput none)
    (hHarmless : h.HarmlessIdle) : InputInv h.store.2 none := by
  cases hKind : h.kind with
  | printable =>
      have hComplete : h.currentInput.complete = true := by
        simpa only [Handler.HarmlessIdle, hKind] using hHarmless
      simp only [Handler.store, hKind, storePrintable, if_pos hComplete]
      exact hInv
  | enter =>
      simp only [Handler.store, hKind, storeEnter]
      exact Or.inl rfl
  | bksp =>
      simp only [Handler.store, hKind]
      split
      · rename_i hBack
        rw [Bool.and_eq_true, decide_eq_true_eq, Bool.not_eq_true'] at hBack
        rcases hInv with hComplete | ⟨_, hZero⟩
        · rw [hBack.1] at hComplete
          cases hComplete
        · rw [hZero] at hBack
          exact absurd hBack.2 (by decide)
      · exact hInv
  | capslock | other =>
      simp only [Handler.store, hKind]
      exact hInv

/-! ## Echoes leave the inputs alone -/

/-- Terminals that differ in what is displayed. -/
structure Echoed (s s' : Terminal) : Prop where
  sane : Sane s'
  displayed : s'.currentConsole = s.currentConsole
  inputs : ∀ c, s'.currentInput c = s.currentInput c

theorem Sane.echoed {s : Terminal} (h : Sane s) : Echoed s s :=
  ⟨h, rfl, fun _ => rfl⟩

namespace Echoed

variable {s s' : Terminal} (h : Echoed s s')

include h

theorem put {t : ConIdx} {st : ConsoleState} (hReady : Ready st)
    (buf screen : Nat → VgaChar) : Echoed s (s'.put t st buf screen) where
  sane := h.sane.put t hReady buf screen
  displayed := h.displayed
  inputs c :=
    (update_same s'.vterms t Console.currentInput (by rfl) c).trans (h.inputs c)

theorem setConstate {t : ConIdx} {st : ConsoleState} (hReady : Ready st) :
    Echoed s (s'.setConstate t st) := by
  rw [setConstate_eq_put]
  exact h.put hReady _ _

theorem output (t : ConIdx) (c : Byte) : Echoed s (s'.output t c) := by
  obtain ⟨buf, screen, hPut⟩ := output_eq_put s' t c
  rw [hPut]
  exact h.put ((h.sane.ready t).after c) buf screen

theorem consoleEcho (c : Byte) : Echoed s (consoleEcho c s') := by
  rw [consoleEcho_eq h.sane]
  exact h.output _ c

theorem consoleClrsc : Echoed s (consoleClrsc s') := by
  rw [consoleClrsc_eq]
  exact h.put (h.sane.ready _).home _ _

theorem echoChar (alt : Bool) (c : Byte) : Echoed s (echoChar alt c s') := by
  unfold CompE.Vterm.echoChar
  simp only
  split
  · split
    · exact h.consoleEcho _
    · exact h
  · split
    · exact (h.consoleEcho _).consoleEcho _
    · exact h.consoleEcho _

theorem consoleEchokbd (kbdin : KbdInput) : Echoed s (consoleEchokbd kbdin s') := by
  have hStart : Echoed s (s'.setConstate s'.currentConsole
      { s'.constate s'.currentConsole with vcurAutoincEn := true }) :=
    h.setConstate { h.sane.ready s'.currentConsole with autoinc := rfl }
  have hCaret := hStart.consoleEcho 0x5E
  unfold CompE.Vterm.consoleEchokbd
  simp only
  generalize (if 0x61 ≤ kbdin.charPressed ∧ kbdin.charPressed ≤ 0x7A then
    kbdin.charPressed - 0x20 else kbdin.charPressed) = c
  split
  · split
    · exact hCaret.consoleClrsc
    · exact hCaret.echoChar _ _
  · exact hStart.echoChar _ _

theorem consoleBksp : Echoed s (consoleBksp s') := by
  rw [consoleBksp_eq h.sane]
  have hBacked : Echoed s s'.backed :=
    h.setConstate (h.sane.ready _).bkspMove
  exact (hBacked.output _ _).setConstate (h.sane.ready _).bkspMove

end Echoed

theorem swap_currentInput {s : Terminal} (h : Sane s) (newIdx : Int)
    (c : ConIdx) : (vtermSwapConsole newIdx s).currentInput c =
      s.currentInput c := by
  rw [vtermSwapConsole_eq h]
  split
  · simp only [Terminal.currentInput, swapTo_vterms]
  · rfl

/-! ## One step -/

theorem setCurrentInput_currentInput (s : Terminal) (con c : ConIdx)
    (inp : BufferedInput) :
    (s.setCurrentInput con inp).currentInput c =
      if c = con then inp else s.currentInput c := by
  by_cases hc : c = con
  · subst hc
    simp [Terminal.setCurrentInput, Terminal.currentInput]
  · simp [Terminal.setCurrentInput, Terminal.currentInput, hc]

theorem Sane.setCurrentInput {s : Terminal} (h : Sane s) (con : ConIdx)
    (inp : BufferedInput) : Sane (s.setCurrentInput con inp) where
  present c :=
    (update_same s.vterms con Console.present (by rfl) c).trans (h.present c)
  id c := (update_same s.vterms con Console.id (by rfl) c).trans (h.id c)
  current c :=
    (update_same s.vterms con Console.current (by rfl) c).trans (h.current c)
  ready c := by
    have hSame : (s.setCurrentInput con inp).constate c = s.constate c :=
      update_same s.vterms con Console.constate (by rfl) c
    rw [hSame]
    exact h.ready c

/-- The invariant where one console's input and read change. -/
theorem LineInv.update {s s' : InputState} (h : LineInv s) (con : ConIdx)
    {inp : BufferedInput} {read : Option Read} (hInput : InputInv inp read)
    (hTerm : s'.term = s.term.setCurrentInput con inp)
    (hReads : s'.reads = Function.update s.reads con read) : LineInv s' where
  sane := by
    rw [hTerm]
    exact h.sane.setCurrentInput con inp
  input c := by
    rw [hTerm, hReads, setCurrentInput_currentInput]
    by_cases hc : c = con
    · subst hc
      rw [if_pos rfl, Function.update_self]
      exact hInput
    · rw [if_neg hc, Function.update_of_ne hc]
      exact h.input c

/-- The invariant where one console's read goes on and no input changes. -/
theorem LineInv.updateRead {s s' : InputState} (h : LineInv s) (con : ConIdx)
    {read : Option Read} (hInput : InputInv (s.term.currentInput con) read)
    (hTerm : Echoed s.term s'.term)
    (hReads : s'.reads = Function.update s.reads con read) : LineInv s' where
  sane := hTerm.sane
  input c := by
    rw [hTerm.inputs, hReads]
    by_cases hc : c = con
    · subst hc
      rw [Function.update_self]
      exact hInput
    · rw [Function.update_of_ne hc]
      exact h.input c

theorem LineInv.echoed {s : InputState} (h : LineInv s) {term : Terminal}
    (hTerm : Echoed s.term term) {s' : InputState} (hSame : s'.term = term)
    (hReads : s'.reads = s.reads) : LineInv s' where
  sane := by rw [hSame]; exact hTerm.sane
  input c := by
    rw [hSame, hReads, hTerm.inputs c]
    exact h.input c

/-- The first half of the handler is a number of echoes. -/
theorem inputhandlerEcho_echoed {s : InputState} (h : Sane s.term) (raw : Byte) :
    Echoed s.term (inputhandlerEcho raw s).term := by
  have hStart := h.echoed
  unfold inputhandlerEcho
  simp only
  split
  · split
    · exact hStart
    · exact hStart.consoleEchokbd _
  · exact hStart
  · exact hStart.consoleBksp
  · exact hStart.consoleEcho newline
  · exact hStart

theorem inputhandlerEcho_reads (raw : Byte) (s : InputState) :
    (inputhandlerEcho raw s).reads = s.reads := by
  unfold inputhandlerEcho
  simp only
  split
  · split
    · rfl
    · rfl
  · rfl
  · rfl
  · rfl
  · rfl

theorem LineInv.echo {s : InputState} (h : LineInv s) (raw : Byte) :
    LineInv (inputhandlerEcho raw s) :=
  h.echoed (inputhandlerEcho_echoed h.sane raw) rfl (inputhandlerEcho_reads raw s)

/-- A key stores within the read in progress exactly if it is harmless. -/
theorem Handler.store_iff_harmless {h : Handler} {read : Option Read}
    (hInput : InputInv h.currentInput read) :
    (∀ w ∈ h.store.1, w.within read) ↔ h.Harmless read := by
  cases read with
  | none => exact h.store_idle_iff hInput
  | some r =>
      rw [h.store_within_iff, Handler.Harmless]
      split
      · rename_i hPolls
        exact Handler.fits_poll_iff hInput hPolls
      · exact Iff.rfl

theorem InputInv.store {h : Handler} {read : Option Read}
    (hInput : InputInv h.currentInput read) (hHarmless : h.Harmless read) :
    InputInv h.store.2 read := by
  cases read with
  | none => exact InputInv.store_idle hInput hHarmless
  | some r =>
      have hFits : h.Fits r :=
        (h.store_within_iff r).1 ((Handler.store_iff_harmless hInput).2 hHarmless)
      exact Reading.store hInput hFits

/-- The second half, after a harmless key. -/
theorem LineInv.finish {s : InputState} (h : LineInv s) {handler : Handler}
    (hHandler : s.handler = some handler)
    (hCopy : handler.currentInput = s.term.currentInput s.term.currentConsole)
    (hHarmless : handler.Harmless (s.reads s.term.currentConsole)) :
    LineInv (inputhandlerFinish s) := by
  have hInput := h.input s.term.currentConsole
  rw [← hCopy] at hInput
  refine h.update s.term.currentConsole (hInput.store hHarmless) ?_ ?_
  · simp only [inputhandlerFinish, hHandler]
  · simp only [inputhandlerFinish, hHandler]
    exact (Function.update_eq_self _ _).symm

theorem LineInv.readline {s : InputState} (h : LineInv s) (con : ConIdx)
    (cbuf n : BitVec 32) : LineInv (consoleReadline con cbuf n s) := by
  unfold consoleReadline
  split
  · exact h
  · split
    · exact h
    · rename_i hNonzero
      have hInput : InputInv (s.term.currentInput con)
          (some ⟨cbuf, n, .called⟩) :=
        { nonzero := hNonzero
          buffer := fun hStage => absurd rfl hStage
          length := fun hStage _ => absurd rfl hStage
          counted := fun hStage => by
            rcases hStage with hStage | hStage | hStage
            all_goals cases hStage }
      exact h.updateRead con hInput h.sane.echoed rfl

/-- A later stage keeps what is stored, once `next` is counted. -/
theorem Reading.later {inp inp' : BufferedInput} {r : Read} {stage : Stage}
    (h : Reading inp r) (hStage : r.stage ≠ .called ∧ r.stage ≠ .buffer)
    (hCounted : Counted inp' r.n) (hBuffer : inp'.buffer = inp.buffer)
    (hLength : inp'.bufferLength = inp.bufferLength) :
    Reading inp' { r with stage := stage } where
  nonzero := h.nonzero
  buffer _ := hBuffer.trans (h.buffer hStage.1)
  length _ _ := hLength.trans (h.length hStage.1 hStage.2)
  counted _ := hCounted

/-- A read that stores its fields one by one. -/
theorem LineInv.advance {s : InputState} (h : LineInv s) (con : ConIdx) :
    LineInv (readAdvance con s) := by
  have hInput := h.input con
  cases hRead : s.reads con with
  | none =>
      simp only [readAdvance, hRead]
      exact h
  | some r =>
      rw [hRead] at hInput
      have hReading : Reading (s.term.currentInput con) r := hInput
      have hStop : ∀ stop, Echoed s.term (s.term.setBkspstop con stop) :=
        fun stop => h.sane.echoed.setConstate { h.sane.ready con with }
      cases hStage : r.stage with
      | called =>
          have hNext : Reading
              { s.term.currentInput con with buffer := r.cbuf }
              { r with stage := .buffer } :=
            { nonzero := hReading.nonzero
              buffer := fun _ => rfl
              length := fun _ hNot => absurd rfl hNot
              counted := fun hSet => by
                rcases hSet with hSet | hSet | hSet
                all_goals cases hSet }
          refine h.update con hNext.inv ?_ ?_
          all_goals simp only [readAdvance, hRead, hStage, InputState.filled]
      | buffer =>
          have hNext : Reading
              { s.term.currentInput con with bufferLength := r.n }
              { r with stage := .length } :=
            { nonzero := hReading.nonzero
              buffer := fun _ => hReading.buffer (by rw [hStage]; decide)
              length := fun _ _ => rfl
              counted := fun hSet => by
                rcases hSet with hSet | hSet | hSet
                all_goals cases hSet }
          refine h.update con hNext.inv ?_ ?_
          all_goals simp only [readAdvance, hRead, hStage, InputState.filled]
      | length =>
          have hZero : Counted { s.term.currentInput con with next := 0 } r.n :=
            ⟨fun hTwo => by simpa using hTwo, fun _ => Nat.zero_le 1, fun _ => rfl⟩
          have hNext : Reading { s.term.currentInput con with next := 0 }
              { r with stage := .next } :=
            hReading.later (by rw [hStage]; decide) hZero rfl rfl
          refine h.update con hNext.inv ?_ ?_
          all_goals simp only [readAdvance, hRead, hStage, InputState.filled]
      | next =>
          have hCounted := hReading.counted (Or.inl hStage)
          have hNext : Reading { s.term.currentInput con with complete := false }
              { r with stage := .complete } :=
            hReading.later (by rw [hStage]; decide)
              ⟨hCounted.room, hCounted.single, hCounted.negative⟩ rfl rfl
          refine h.update con hNext.inv ?_ ?_
          all_goals simp only [readAdvance, hRead, hStage, InputState.filled]
      | complete =>
          have hNext : Reading (s.term.currentInput con) { r with stage := .bkspstop } :=
            hReading.later (by rw [hStage]; decide)
              (hReading.counted (Or.inr (Or.inl hStage))) rfl rfl
          simp only [readAdvance, hRead, hStage]
          exact h.updateRead con hNext.inv (hStop _) rfl
      | bkspstop =>
          simp only [readAdvance, hRead, hStage]
          split
          · rename_i hComplete
            have hDone : InputInv (s.term.currentInput con) none :=
              Or.inl hComplete
            exact h.updateRead con hDone (hStop _) rfl
          · exact h

/-- The step lemma. -/
theorem LineInv.step {s : InputState} (h : LineInv s) {i : InputEvent}
    (hUnraced : Unraced s i) (hHarmless : HarmlessKey s i) :
    LineInv (i.run s) := by
  have hStart := h.sane.echoed
  cases i with
  | key raw => exact h.echo raw
  | finish =>
      cases hHandler : s.handler with
      | none =>
          simp only [InputEvent.run, inputhandlerFinish, hHandler]
          exact h
      | some handler =>
          exact h.finish hHandler (hUnraced rfl handler hHandler)
            (hHarmless rfl handler hHandler)
  | modifiers ctrl alt sft => exact h.echoed hStart rfl rfl
  | swap newIdx => 
      exact
        { sane := h.sane.step (.swap newIdx)
          input := fun c => by
            rw [InputEvent.run, swap_currentInput h.sane]
            exact h.input c }
  | putchar con c =>
      have hOutput : Echoed s.term (consolePutchar con c s.term) := by
        rw [consolePutchar_eq h.sane]
        exact hStart.output con c
      exact h.echoed hOutput rfl rfl
  | readline con cbuf n => exact h.readline con cbuf n
  | readlineW con fd kbuf nbytes =>
      simp only [InputEvent.run, consoleReadlineW]
      split
      · exact h
      · exact h.readline con kbuf _
  | advance con => exact h.advance con

private theorem stores_finish {s : InputState} {handler : Handler}
    (hHandler : s.handler = some handler) :
    InputEvent.finish.stores s = handler.store.1 := by
  simp only [InputEvent.stores, hHandler]

/-- What a step stores. -/
theorem LineInv.safe_iff {s : InputState} (h : LineInv s) {i : InputEvent}
    (hUnraced : Unraced s i) : SafeStores s i ↔ HarmlessKey s i := by
  cases i with
  | finish =>
      cases hHandler : s.handler with
      | none => simp [SafeStores, HarmlessKey, InputEvent.stores, hHandler]
      | some handler =>
          have hInput := h.input s.term.currentConsole
          rw [← hUnraced rfl handler hHandler] at hInput
          have hIff := Handler.store_iff_harmless hInput
          simp only [SafeStores, HarmlessKey, stores_finish hHandler, hHandler,
            Option.some.injEq, forall_eq', forall_true_left]
          exact hIff
  | key | modifiers | swap | putchar | readline | readlineW | advance =>
      simp [SafeStores, HarmlessKey, InputEvent.stores]

/-! ## Runs -/

theorem Echoed.consolePuts {s : Terminal} {str : List Byte} :
    ∀ {s' : Terminal}, Echoed s s' → Echoed s (consolePuts str s') := by
  induction str with
  | nil => intro s' h; exact h
  | cons c str ih =>
      intro s' h
      have hOutput : Echoed s (consolePutchar 0 c s') := by
        rw [consolePutchar_eq h.sane]
        exact h.output 0 c
      exact ih hOutput

section Boot

variable (video : Nat → VgaChar) (padding : ConIdx → Nat → Byte)
  (behind : Nat → Byte)

private theorem boot_currentInput (c : ConIdx) :
    (bootTerminal video padding behind).currentInput c =
      zeroConsole.currentInput := by
  rw [bootTerminal_eq]
  exact (sane_fresh video padding behind).echoed.consolePuts.inputs c

private theorem boot_lineInv : LineInv (bootInput video padding behind) where
  sane := sane_boot video padding behind
  input c := by
    show InputInv ((bootTerminal video padding behind).currentInput c) none
    rw [boot_currentInput]
    exact Or.inr ⟨rfl, rfl⟩

/-- The handler stores only within reads in progress in exactly the runs whose
keys are all harmless, where no write back is lost. -/
theorem line_input_safe (is : List InputEvent) :
    lineInput.Always (fun s i => Unraced s i ∧ SafeStores s i)
        (bootInput video padding behind) is ↔
      lineInput.Always (fun s i => Unraced s i ∧ HarmlessKey s i)
        (bootInput video padding behind) is := by
  refine lineInput.always_iff_of_invariant (I := LineInv) ?_ ?_ is _
    (boot_lineInv video padding behind) (lineInput_legal _ is)
  · rintro s i hInv _ ⟨hUnraced, hHarmless⟩
    refine ⟨⟨hUnraced, (hInv.safe_iff hUnraced).2 hHarmless⟩, ?_⟩
    simp only [lineInput]
    split
    · exact hInv.step hUnraced hHarmless
    · exact hInv
  · rintro s i hInv _ ⟨hUnraced, hSafe⟩
    exact ⟨hUnraced, (hInv.safe_iff hUnraced).1 hSafe⟩

private theorem first_key_unsafe :
    ¬ lineInput.Always SafeStores (bootInput video padding behind)
        [.key 0x61, .finish] := by
  intro hAlways
  have hSafe := hAlways.2.1
  have hTerm : (bootInput video padding behind).term.currentInput
      (bootInput video padding behind).term.currentConsole =
        zeroConsole.currentInput :=
    boot_currentInput video padding behind _
  have hKey : decodeKey (bootInput video padding behind).kbd.mod 0x61 =
      (.printable, 0x61) :=
    show decodeKey ⟨false, false, false, false⟩ 0x61 = _ by decide
  have hIdle : (InputEvent.key 0x61).possible
      (bootInput video padding behind) := rfl
  have hStep : lineInput.step (bootInput video padding behind) (.key 0x61) =
      inputhandlerEcho 0x61 (bootInput video padding behind) := by
    simp only [lineInput, if_pos hIdle, InputEvent.run]
  rw [hStep] at hSafe
  have hReads :
      (inputhandlerEcho 0x61 (bootInput video padding behind)).reads =
        fun _ => none := by
    simp only [inputhandlerEcho, hKey]
    rfl
  have hHandler :
      (inputhandlerEcho 0x61 (bootInput video padding behind)).handler =
        some ⟨.printable, 0x61, zeroConsole.currentInput⟩ := by
    simp only [inputhandlerEcho, hKey, hTerm]
    rfl
  have hStored : ⟨0, 0, 0x61⟩ ∈ InputEvent.finish.stores
      (inputhandlerEcho 0x61 (bootInput video padding behind)) := by
    rw [stores_finish hHandler]
    decide
  have hWithin := hSafe _ hStored
  rw [hReads] at hWithin
  obtain ⟨r, hRead, _⟩ := hWithin
  cases hRead

end Boot

/-- The first key, before any read, is stored through a null pointer. -/
theorem line_input_unsafe :
    ¬ lineInput.Always SafeStores
        (bootInput (fun _ => ⟨0, 0⟩) (fun _ _ => 0) fun _ => 0)
        [.key 0x61, .finish] :=
  first_key_unsafe _ _ _

end CompE.Vterm
