import CompE.KernelLib.Itoa

/-!
# `printf`

The loop over the format string, the inner `switch` with its backward `goto`, and the
conversions with their buffers.  A run keeps what is given to `putc` and the indices
of the format that are read.

The conversions of numbers have a text each (`numberText`, `signedText`, `paddedText`),
which `puts` reads out of the buffer that `itoa` has filled.
-/

namespace CompE.KernelLib

open CompE.Library

/-- A string in memory, with its terminator. -/
structure CString where
  bytes : Nat → Byte
  length : Nat
  chars : ∀ i, i < length → bytes i ≠ 0
  terminated : bytes length = 0

/-- What stands behind the format on the stack: words, the strings that words may
point to, and what the conversion buffers hold before they are written. -/
structure Arguments where
  word : Nat → BitVec 32
  string : BitVec 32 → CString
  garbage : Nat → Nat → Byte

/-! ## The conversions -/

/-- The loop of `puts`: the characters given to `putc`. -/
def putsFrom (s : Nat → Byte) : Nat → Nat → Option (List Byte)
  | 0, _ => none
  | fuel + 1, index =>
      if s index ≠ 0 then (putsFrom s fuel (index + 1)).map (s index :: ·)
      else some []

/-- `puts`. -/
def puts (fuel : Nat) (s : Nat → Byte) : Option (List Byte) := putsFrom s fuel 0

/-- No loop over a conversion buffer has more rounds than the largest has places. -/
def convFuel : Nat := 64

/-- `%x`: `conv_buf`, of 64 places, and what is put.  The zeros of the alternate
form reach up to the digits. -/
def convX (alternate : Bool) (garbage : Nat → Byte) (value : BitVec 32) :
    Option (Logged Byte × List Byte) :=
  if alternate then do
    let m ← itoa convFuel value 8 16 (.fresh garbage)
    let startingIndex ← strlen convFuel fun k => m.cells (8 + k)
    let m := m.store startingIndex (List.replicate (8 - startingIndex) (chr '0'))
    let text ← puts convFuel fun k => m.cells (startingIndex + k)
    pure (m, text)
  else do
    let m ← itoa convFuel value 0 16 (.fresh garbage)
    let text ← puts convFuel m.cells
    pure (m, text)

/-- `%u`: `conv_buf`, of 36 places, and what is put. -/
def convU (garbage : Nat → Byte) (value : BitVec 32) :
    Option (Logged Byte × List Byte) := do
  let m ← itoa convFuel value 0 10 (.fresh garbage)
  let text ← puts convFuel m.cells
  pure (m, text)

/-- `%d`: `conv_buf`, of 36 places, and what is put. -/
def convD (garbage : Nat → Byte) (value : BitVec 32) :
    Option (Logged Byte × List Byte) := do
  let m ← if value.toInt < 0 then
      itoa convFuel (-value) 1 10 ((Logged.fresh garbage).set 0 (chr '-'))
    else itoa convFuel value 0 10 (.fresh garbage)
  let text ← puts convFuel m.cells
  pure (m, text)

/-- The cases of the inner `switch` but `'#'`: the stack slot behind the arguments
used, and what is put. -/
def conversion (args : Arguments) (alternate : Bool) (c : Byte) (esp : Nat) :
    Option (Nat × List Byte) :=
  if c = chr '%' then some (esp, [chr '%'])
  else if c = chr 'x' then
    (convX alternate (args.garbage esp) (args.word esp)).map fun r => (esp + 1, r.2)
  else if c = chr 'u' then
    (convU (args.garbage esp) (args.word esp)).map fun r => (esp + 1, r.2)
  else if c = chr 'd' then
    (convD (args.garbage esp) (args.word esp)).map fun r => (esp + 1, r.2)
  else if c = chr 'c' then some (esp + 1, [(args.word esp).setWidth 8])
  else if c = chr 's' then
    let s := args.string (args.word esp)
    (puts (s.length + 1) s.bytes).map fun text => (esp + 1, text)
  else some (esp, [])

/-! ## The format -/

/-- Where a conversion ends: the index of its last character, the stack slot, what has
been put and the indices read. -/
structure Converted where
  last : Nat
  esp : Nat
  out : List Byte
  reads : List Nat

/-- From `format_char_switch` on. -/
def formatCharSwitch (args : Arguments) (format : Nat → Byte) :
    Nat → Bool → Nat → Nat → Option Converted
  | 0, _, _, _ => none
  | fuel + 1, alternate, buf, esp =>
      if format buf = chr '#' then
        (formatCharSwitch args format fuel true (buf + 1) esp).map fun r =>
          { r with reads := buf :: r.reads }
      else
        (conversion args alternate (format buf) esp).map fun r =>
          ⟨buf, r.1, r.2, [buf]⟩

/-- A run: the return value, what has been put and the indices read. -/
structure Run where
  ret : Nat
  out : List Byte
  reads : List Nat

/-- The run behind a part of the format. -/
def Run.after (out : List Byte) (reads : List Nat) (r : Run) : Run where
  ret := r.ret
  out := out ++ r.out
  reads := reads ++ r.reads

/-- The loop of `printf`. -/
def printfLoop (args : Arguments) (format : Nat → Byte) :
    Nat → Nat → Nat → Option Run
  | 0, _, _ => none
  | fuel + 1, buf, esp =>
      if format buf = 0 then some ⟨buf, [], [buf]⟩
      else if format buf = chr '%' then
        (formatCharSwitch args format fuel false (buf + 1) esp).bind fun r =>
          (printfLoop args format fuel (r.last + 1) r.esp).map
            (Run.after r.out (buf :: r.reads))
      else
        (printfLoop args format fuel (buf + 1) esp).map
          (Run.after [format buf] [buf])

/-- `printf`. -/
def printf (fuel : Nat) (format : Nat → Byte) (args : Arguments) : Option Run :=
  printfLoop args format fuel 0 0

/-! ## Strings in memory -/

/-- The characters of a string. -/
def CString.text (s : CString) : List Byte := (List.range s.length).map s.bytes

/-- Up to the terminator, a character is one of the string if and only if it is not
zero. -/
theorem CString.lt_length_iff (s : CString) {i : Nat} (h : i ≤ s.length) :
    i < s.length ↔ s.bytes i ≠ 0 := by
  constructor
  · exact s.chars i
  · intro hChar
    apply Nat.lt_of_le_of_ne h
    intro hEnd
    rw [hEnd] at hChar
    exact hChar s.terminated

/-- The string from index `i` on. -/
theorem CString.drop_text (s : CString) {i : Nat} (h : i < s.length) :
    s.text.drop i = s.bytes i :: s.text.drop (i + 1) := by
  have hLt : i < s.text.length := by
    rw [CString.text, List.length_map, List.length_range]
    exact h
  rw [List.drop_eq_getElem_cons hLt]
  congr 1
  simp [CString.text]

theorem CString.drop_text_end (s : CString) : s.text.drop s.length = [] := by
  rw [List.drop_eq_nil_iff, CString.text, List.length_map, List.length_range]

/-- `puts` puts the characters of a string. -/
theorem putsFrom_eq (s : Nat → Byte) (text : List Byte) : ∀ (fuel index : Nat),
    (∀ c ∈ text, c ≠ 0) →
    (∀ k (h : k < text.length), s (index + k) = text[k]) →
    s (index + text.length) = 0 → text.length < fuel →
    putsFrom s fuel index = some text := by
  induction text with
  | nil =>
      intro fuel index _ _ hEnd hFuel
      obtain ⟨fuel, rfl⟩ := Nat.exists_eq_add_one_of_ne_zero (by omega : fuel ≠ 0)
      rw [putsFrom, if_neg (fun hNe => hNe hEnd)]
  | cons c text ih =>
      intro fuel index hChars hCells hEnd hFuel
      obtain ⟨fuel, rfl⟩ := Nat.exists_eq_add_one_of_ne_zero (by omega : fuel ≠ 0)
      rw [List.forall_mem_cons] at hChars
      rw [List.length_cons] at hEnd hFuel
      have hFirst : s index = c := hCells 0 (by simp)
      have hRest := ih fuel (index + 1) hChars.2
        (fun k hk => by
          rw [Nat.add_assoc, Nat.add_comm 1 k]
          exact hCells (k + 1) (by simpa using hk))
        (by rw [Nat.add_assoc, Nat.add_comm 1]; exact hEnd) (by omega)
      rw [putsFrom, hFirst, if_pos hChars.1, hRest]
      rfl

private theorem puts_stored {m m' : Logged Byte} {place fuel : Nat} {text : List Byte}
    (h : Stored m m' place text) (hChars : ∀ c ∈ text, c ≠ 0)
    (hFuel : text.length < fuel) :
    puts fuel (fun k => m'.cells (place + k)) = some text := by
  apply putsFrom_eq _ text fuel 0 hChars _ _ hFuel
  · intro k hk
    rw [Nat.zero_add]
    exact h.char hk
  · rw [Nat.zero_add]
    exact h.terminator

private theorem puts_string (s : CString) : puts (s.length + 1) s.bytes = some s.text := by
  have hLength : s.text.length = s.length := by
    rw [CString.text, List.length_map, List.length_range]
  apply putsFrom_eq s.bytes s.text
  · intro c hc
    obtain ⟨i, hi, rfl⟩ := List.mem_map.mp hc
    exact s.chars i (List.mem_range.mp hi)
  · intro k hk
    simp [CString.text]
  · rw [Nat.zero_add, hLength]
    exact s.terminated
  · rw [hLength]
    exact Nat.lt_succ_self _

/-! ## Numbers -/

/-- A number at a place of `conv_buf`, as it is stored and put. -/
theorem itoa_conv (radix : BitVec 32) (hTwo : 1 < radix.toNat) (hMax : radix.toNat ≤ 36)
    (value : BitVec 32) (buf : Nat) (m : Logged Byte) :
    ∃ m', itoa convFuel value buf radix m = some m' ∧
      Stored m m' buf (numberText radix.toNat value.toNat) ∧
      puts convFuel (fun k => m'.cells (buf + k)) =
        some (numberText radix.toNat value.toNat) := by
  have hRounds : 32 < convFuel := by decide
  have hLength := numberText_length_le hTwo value
  obtain ⟨m', hItoa, hStored⟩ := itoa_stored hTwo hMax value hRounds buf m
  exact ⟨m', hItoa, hStored, puts_stored hStored (numberText_ne_zero _ hTwo hMax _)
    (Nat.lt_of_le_of_lt hLength hRounds)⟩

/-- A number at the start of `conv_buf`. -/
theorem itoa_start (radix : BitVec 32) (hTwo : 1 < radix.toNat) (hMax : radix.toNat ≤ 36)
    (garbage : Nat → Byte) (value : BitVec 32) :
    ∃ m', itoa convFuel value 0 radix (.fresh garbage) = some m' ∧
      puts convFuel m'.cells = some (numberText radix.toNat value.toNat) ∧
      ∀ p ∈ m'.written, p < 36 := by
  obtain ⟨m', hItoa, hStored, hPuts⟩ := itoa_conv radix hTwo hMax value 0 (.fresh garbage)
  simp only [Nat.zero_add] at hPuts
  refine ⟨m', hItoa, hPuts, ?_⟩
  intro p hp
  have hIn := (hStored.written p hp).resolve_left List.not_mem_nil
  have hLength := numberText_length_le hTwo value
  omega

theorem convX_plain (garbage : Nat → Byte) (value : BitVec 32) :
    ∃ m, convX false garbage value = some (m, numberText 16 value.toNat) ∧
      ∀ p ∈ m.written, p < 64 := by
  obtain ⟨m, hItoa, hPuts, hWritten⟩ :=
    itoa_start 16 (by decide) (by decide) garbage value
  refine ⟨m, ?_, fun p hp => Nat.lt_trans (hWritten p hp) (by decide)⟩
  rw [convX, if_neg Bool.false_ne_true, hItoa]
  show (puts convFuel m.cells).bind (fun text => some (m, text)) = _
  rw [hPuts]
  rfl

theorem convU_eq (garbage : Nat → Byte) (value : BitVec 32) :
    ∃ m, convU garbage value = some (m, numberText 10 value.toNat) ∧
      ∀ p ∈ m.written, p < 36 := by
  obtain ⟨m, hItoa, hPuts, hWritten⟩ :=
    itoa_start 10 (by decide) (by decide) garbage value
  refine ⟨m, ?_, hWritten⟩
  rw [convU, hItoa]
  show (puts convFuel m.cells).bind (fun text => some (m, text)) = _
  rw [hPuts]
  rfl

/-- A number as `%d` prints it. -/
def signedText (value : Int) : List Byte :=
  if value < 0 then chr '-' :: numberText 10 value.natAbs else numberText 10 value.natAbs

/-- The negative of a negative number is its absolute value, also for the lowest
number. -/
theorem toNat_neg_of_neg {value : BitVec 32} (h : value.toInt < 0) :
    (-value).toNat = value.toInt.natAbs := by
  have hLt := value.isLt
  rw [BitVec.toInt_eq_toNat_cond] at h ⊢
  rw [BitVec.toNat_neg]
  split at h
  · omega
  · next hHigh =>
      rw [if_neg hHigh, Nat.mod_eq_of_lt (by omega)]
      omega

theorem toNat_of_nonneg {value : BitVec 32} (h : ¬ value.toInt < 0) :
    value.toNat = value.toInt.natAbs := by
  have hLt := value.isLt
  rw [BitVec.toInt_eq_toNat_cond] at h ⊢
  split at h
  · next hLow =>
      rw [if_pos hLow]
      omega
  · omega

/-- The digits of a negative number stand behind its sign. -/
theorem convD_negative (garbage : Nat → Byte) {value : BitVec 32} (hNeg : value.toInt < 0) :
    ∃ m, convD garbage value = some (m, signedText value.toInt) ∧
      ∀ p ∈ m.written, p < 36 := by
  let m₀ := (Logged.fresh garbage).set 0 (chr '-')
  obtain ⟨m, hItoa, hStored, _⟩ :=
    itoa_conv 10 (by decide) (by decide) (-value) 1 m₀
  have hTen : (10 : BitVec 32).toNat = 10 := rfl
  rw [hTen, toNat_neg_of_neg hNeg] at hStored
  have hLength : (numberText 10 value.toInt.natAbs).length ≤ 32 := by
    rw [← toNat_neg_of_neg hNeg]
    exact numberText_length_le (by decide) _
  have hPuts : puts convFuel m.cells = some (signedText value.toInt) := by
    rw [signedText, if_pos hNeg]
    apply putsFrom_eq
    · rw [List.forall_mem_cons]
      exact ⟨by decide, numberText_ne_zero 10 (by decide) (by decide) _⟩
    · intro k hk
      cases k with
      | zero =>
          rw [Nat.zero_add, hStored.outside (Or.inl Nat.zero_lt_one)]
          rfl
      | succ k =>
          have hPlace : 0 + (k + 1) = 1 + k := by omega
          rw [hPlace]
          exact hStored.char (by simpa using hk)
    · rw [Nat.zero_add, List.length_cons, Nat.add_comm]
      exact hStored.terminator
    · rw [List.length_cons]
      exact Nat.lt_of_le_of_lt (Nat.succ_le_succ hLength) (by decide)
  refine ⟨m, ?_, ?_⟩
  · rw [convD, if_pos hNeg, hItoa]
    show (puts convFuel m.cells).bind (fun text => some (m, text)) = _
    rw [hPuts]
    rfl
  · intro p hp
    cases hStored.written p hp with
    | inl hSign =>
        have hZero : p = 0 := by simpa [m₀] using hSign
        omega
    | inr hIn => omega

theorem convD_eq (garbage : Nat → Byte) (value : BitVec 32) :
    ∃ m, convD garbage value = some (m, signedText value.toInt) ∧
      ∀ p ∈ m.written, p < 36 := by
  by_cases hNeg : value.toInt < 0
  · exact convD_negative garbage hNeg
  · obtain ⟨m, hItoa, hPuts, hWritten⟩ :=
      itoa_start 10 (by decide) (by decide) garbage value
    refine ⟨m, ?_, hWritten⟩
    rw [convD, if_neg hNeg, hItoa, signedText, if_neg hNeg, ← toNat_of_nonneg hNeg]
    show (puts convFuel m.cells).bind (fun text => some (m, text)) = _
    rw [hPuts]
    rfl

/-- A number as `%#x` prints it. -/
def paddedText (value : Nat) : List Byte :=
  List.replicate (8 - (numberText 16 value).length) (chr '0') ++ numberText 16 value

private theorem hexText_length_le (value : BitVec 32) :
    (numberText 16 value.toNat).length ≤ 8 := by
  rw [numberText, List.length_map]
  exact numeral_length_le (by decide) (by decide) value.isLt

theorem paddedText_length (value : BitVec 32) : (paddedText value.toNat).length = 8 := by
  have hLength := hexText_length_le value
  rw [paddedText, List.length_append, List.length_replicate]
  omega

/-- The zeros of `%#x` are written in front of the digits, whose string starts at 8, so
that both together start at the number of digits. -/
theorem puts_padded {m₀ m : Logged Byte} {value : BitVec 32}
    (h : Stored m₀ m 8 (numberText 16 value.toNat)) :
    let start := (numberText 16 value.toNat).length
    puts convFuel (fun k =>
        (m.store start (List.replicate (8 - start) (chr '0'))).cells (start + k)) =
      some (paddedText value.toNat) := by
  intro start
  have hLength := hexText_length_le value
  have hBehind : ∀ p, 8 ≤ p →
      (m.store start (List.replicate (8 - start) (chr '0'))).cells p = m.cells p := by
    intro p hp
    apply Logged.store_cells_of_outside
    rw [List.length_replicate]
    omega
  apply putsFrom_eq
  · intro c hc
    cases List.mem_append.mp hc with
    | inl hZero =>
        rw [List.eq_of_mem_replicate hZero]
        decide
    | inr hDigit => exact numberText_ne_zero 16 (by decide) (by decide) _ c hDigit
  · intro k hk
    rw [paddedText_length] at hk
    rw [Nat.zero_add]
    by_cases hPad : k < 8 - start
    · have hZero : k < (List.replicate (8 - start) (chr '0')).length := by
        rw [List.length_replicate]
        exact hPad
      simp only [paddedText]
      rw [Logged.store_cells _ m hZero, List.getElem_append_left hZero]
    · have hPlace : start + k = 8 + (k - (8 - start)) := by omega
      have hDigit : k - (8 - start) < (numberText 16 value.toNat).length := by omega
      rw [hBehind _ (by omega), hPlace, h.char hDigit]
      simp only [paddedText]
      rw [List.getElem_append_right (by rw [List.length_replicate]; omega)]
      simp [start]
  · rw [Nat.zero_add, paddedText_length, hBehind _ (by omega), Nat.add_comm]
    exact h.terminator
  · rw [paddedText_length]
    decide

theorem convX_alternate (garbage : Nat → Byte) (value : BitVec 32) :
    ∃ m, convX true garbage value = some (m, paddedText value.toNat) ∧
      ∀ p ∈ m.written, p < 64 := by
  obtain ⟨m, hItoa, hStored, _⟩ :=
    itoa_conv 16 (by decide) (by decide) value 8 (.fresh garbage)
  have hSixteen : (16 : BitVec 32).toNat = 16 := rfl
  rw [hSixteen] at hStored
  have hLength := hexText_length_le value
  have hRounds : (numberText 16 value.toNat).length < convFuel :=
    Nat.lt_of_le_of_lt hLength (by decide)
  have hStrlen := hStored.strlen_eq
    (numberText_ne_zero 16 (by decide) (by decide) value.toNat) hRounds
  let start := (numberText 16 value.toNat).length
  let m' := m.store start (List.replicate (8 - start) (chr '0'))
  refine ⟨m', ?_, ?_⟩
  · rw [convX, if_pos rfl, hItoa]
    show (strlen convFuel fun k => m.cells (8 + k)).bind _ = _
    rw [hStrlen]
    show (puts convFuel fun k => m'.cells (start + k)).bind
      (fun text => some (m', text)) = _
    rw [puts_padded hStored]
    rfl
  · intro p hp
    rw [Logged.store_written, List.mem_append, List.mem_range'_1,
      List.length_replicate] at hp
    cases hp with
    | inl hDigits =>
        have hIn := (hStored.written p hDigits).resolve_left List.not_mem_nil
        omega
    | inr hZeros => omega

/-! ## All conversions -/

/-- Every conversion ends, an unknown one too. -/
theorem conversion_total (args : Arguments) (alternate : Bool) (c : Byte) (esp : Nat) :
    ∃ r, conversion args alternate c esp = some r := by
  have hX : ∃ r, convX alternate (args.garbage esp) (args.word esp) = some r := by
    cases alternate with
    | false =>
        obtain ⟨m, hConv, _⟩ := convX_plain (args.garbage esp) (args.word esp)
        exact ⟨_, hConv⟩
    | true =>
        obtain ⟨m, hConv, _⟩ := convX_alternate (args.garbage esp) (args.word esp)
        exact ⟨_, hConv⟩
  obtain ⟨x, hX⟩ := hX
  obtain ⟨u, hU, _⟩ := convU_eq (args.garbage esp) (args.word esp)
  obtain ⟨d, hD, _⟩ := convD_eq (args.garbage esp) (args.word esp)
  rw [conversion, hX, hU, hD]
  simp only [puts_string, Option.map_some]
  repeat' split
  all_goals exact ⟨_, rfl⟩

end CompE.KernelLib
