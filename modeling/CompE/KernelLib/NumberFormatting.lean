import CompE.KernelLib.Printf

/-!
# What is printed for numbers

`itoa` writes the one representation of a number, and the conversions of `printf` put
it, wherever they stand in a format.
-/

namespace CompE.KernelLib

open CompE.Library

/-- `text` writes a number in a radix, without leading zeros. -/
def Represents (radix value : Nat) (text : List Byte) : Prop :=
  ∃ ds, Numeral radix value ds ∧ text = ds.map digitChar

private theorem represents_iff (radix : Nat) (h : 1 < radix) (value : Nat) (text : List Byte) :
    Represents radix value text ↔ text = numberText radix value := by
  constructor
  · rintro ⟨ds, hNumeral, rfl⟩
    rw [(numeral_iff h ds).mp hNumeral]
    rfl
  · rintro rfl
    exact ⟨_, numeral_isNumeral h value, rfl⟩

/-- The conversion of `n` characters at `buf` prints `text` and takes one argument; the
loop goes on behind it. -/
def Prints (args : Arguments) (format : Nat → Byte) (buf esp n : Nat)
    (text : List Byte) : Prop :=
  ∀ fuel, printfLoop args format (fuel + n + 1) buf esp =
    (printfLoop args format (fuel + n) (buf + n) (esp + 1)).map
      (Run.after text (List.range' buf n))

section Numbers

variable {args : Arguments} {format : Nat → Byte} {buf esp : Nat} {text : List Byte}

/-- A conversion of one character behind the `%`. -/
theorem prints_of_conversion (hPercent : format buf = chr '%')
    (hHash : format (buf + 1) ≠ chr '#')
    (hConv : conversion args false (format (buf + 1)) esp = some (esp + 1, text)) :
    Prints args format buf esp 2 text := by
  intro fuel
  have hSwitch : formatCharSwitch args format (fuel + 2) false (buf + 1) esp =
      some ⟨buf + 1, esp + 1, text, [buf + 1]⟩ := by
    rw [formatCharSwitch, if_neg hHash, hConv]
    rfl
  rw [printfLoop, if_neg (by rw [hPercent]; decide), if_pos hPercent, hSwitch]
  rfl

/-- A conversion of one character behind `%#`. -/
theorem prints_of_alternate (hPercent : format buf = chr '%')
    (hHash : format (buf + 1) = chr '#') (hLast : format (buf + 2) ≠ chr '#')
    (hConv : conversion args true (format (buf + 2)) esp = some (esp + 1, text)) :
    Prints args format buf esp 3 text := by
  intro fuel
  have hSwitch : formatCharSwitch args format (fuel + 3) false (buf + 1) esp =
      some ⟨buf + 2, esp + 1, text, [buf + 1, buf + 2]⟩ := by
    rw [formatCharSwitch, if_pos hHash, formatCharSwitch, if_neg hLast, hConv]
    rfl
  rw [printfLoop, if_neg (by rw [hPercent]; decide), if_pos hPercent, hSwitch]
  rfl

private theorem prints_u (hPercent : format buf = chr '%') (hLast : format (buf + 1) = chr 'u') :
    Prints args format buf esp 2 (numberText 10 (args.word esp).toNat) := by
  obtain ⟨m, hConv, _⟩ := convU_eq (args.garbage esp) (args.word esp)
  apply prints_of_conversion hPercent
  · rw [hLast]
    decide
  · rw [hLast, conversion, if_neg (by decide), if_neg (by decide), if_pos rfl, hConv]
    rfl

private theorem prints_d (hPercent : format buf = chr '%') (hLast : format (buf + 1) = chr 'd') :
    Prints args format buf esp 2 (signedText (args.word esp).toInt) := by
  obtain ⟨m, hConv, _⟩ := convD_eq (args.garbage esp) (args.word esp)
  apply prints_of_conversion hPercent
  · rw [hLast]
    decide
  · rw [hLast, conversion, if_neg (by decide), if_neg (by decide), if_neg (by decide),
      if_pos rfl, hConv]
    rfl

private theorem prints_x (hPercent : format buf = chr '%') (hLast : format (buf + 1) = chr 'x') :
    Prints args format buf esp 2 (numberText 16 (args.word esp).toNat) := by
  obtain ⟨m, hConv, _⟩ := convX_plain (args.garbage esp) (args.word esp)
  apply prints_of_conversion hPercent
  · rw [hLast]
    decide
  · rw [hLast, conversion, if_neg (by decide), if_pos rfl, hConv]
    rfl

private theorem prints_padded_x (hPercent : format buf = chr '%')
    (hHash : format (buf + 1) = chr '#') (hLast : format (buf + 2) = chr 'x') :
    Prints args format buf esp 3 (paddedText (args.word esp).toNat) := by
  obtain ⟨m, hConv, _⟩ := convX_alternate (args.garbage esp) (args.word esp)
  apply prints_of_alternate hPercent hHash
  · rw [hLast]
    decide
  · rw [hLast, conversion, if_neg (by decide), if_pos rfl, hConv]
    rfl

end Numbers

/-- `itoa` writes the one representation of `value` in `radix`, with its terminator, to
the buffer and nothing else; it has at most 32 digits. -/
def ItoaExact (value radix : BitVec 32) : Prop :=
  ∃ text, Represents radix.toNat value.toNat text ∧
    (∀ other, Represents radix.toNat value.toNat other → other = text) ∧
    text.length ≤ 32 ∧
    ∀ (fuel buf : Nat) (m : Logged Byte), 32 < fuel →
      ∃ m', itoa fuel value buf radix m = some m' ∧ Stored m m' buf text

private theorem itoa_exact (value : BitVec 32) {radix : BitVec 32} (hTwo : 2 ≤ radix.toNat)
    (hMax : radix.toNat ≤ 36) : ItoaExact value radix := by
  refine ⟨numberText radix.toNat value.toNat, (represents_iff _ hTwo _ _).mpr rfl,
    fun other => (represents_iff _ hTwo _ other).mp, numberText_length_le hTwo value, ?_⟩
  intro fuel buf m hFuel
  exact itoa_stored hTwo hMax value hFuel buf m

/-- The conversions of a number write inside their buffers. -/
structure BuffersKept (value : BitVec 32) (garbage : Nat → Byte) : Prop where
  x : ∀ alternate, ∃ r, convX alternate garbage value = some r ∧ ∀ p ∈ r.1.written, p < 64
  u : ∃ r, convU garbage value = some r ∧ ∀ p ∈ r.1.written, p < 36
  d : ∃ r, convD garbage value = some r ∧ ∀ p ∈ r.1.written, p < 36

private theorem buffers_kept (value : BitVec 32) (garbage : Nat → Byte) :
    BuffersKept value garbage where
  x := by
    intro alternate
    cases alternate with
    | false =>
        obtain ⟨m, hConv, hWritten⟩ := convX_plain garbage value
        exact ⟨_, hConv, hWritten⟩
    | true =>
        obtain ⟨m, hConv, hWritten⟩ := convX_alternate garbage value
        exact ⟨_, hConv, hWritten⟩
  u := by
    obtain ⟨m, hConv, hWritten⟩ := convU_eq garbage value
    exact ⟨_, hConv, hWritten⟩
  d := by
    obtain ⟨m, hConv, hWritten⟩ := convD_eq garbage value
    exact ⟨_, hConv, hWritten⟩

/--
**Numbers are printed exactly.**  `itoa` writes the representation of every number in
every radix from 2 to 36.  Wherever they stand in a format, `%u`, `%d` and `%x` print
the representation of their argument, in radix 10 and 16 and with the sign, and `%#x`
prints it with zeros in front, eight digits in all; no conversion writes outside its
buffer.
-/
theorem number_formatting (value : BitVec 32) :
    (∀ radix : BitVec 32, 2 ≤ radix.toNat → radix.toNat ≤ 36 → ItoaExact value radix) ∧
    (∀ garbage, BuffersKept value garbage) ∧
    ∀ (args : Arguments) (format : Nat → Byte) (buf esp : Nat), args.word esp = value →
      format buf = chr '%' →
      (format (buf + 1) = chr 'u' → ∃ text, Represents 10 value.toNat text ∧
        Prints args format buf esp 2 text) ∧
      (format (buf + 1) = chr 'd' → ∃ text, Represents 10 value.toInt.natAbs text ∧
        Prints args format buf esp 2
          (if value.toInt < 0 then chr '-' :: text else text)) ∧
      (format (buf + 1) = chr 'x' → ∃ text, Represents 16 value.toNat text ∧
        Prints args format buf esp 2 text) ∧
      (format (buf + 1) = chr '#' → format (buf + 2) = chr 'x' →
        ∃ zeros text, Represents 16 value.toNat text ∧
          (List.replicate zeros (chr '0') ++ text).length = 8 ∧
          Prints args format buf esp 3 (List.replicate zeros (chr '0') ++ text)) := by
  refine ⟨fun radix => itoa_exact value, buffers_kept value, ?_⟩
  intro args format buf esp hWord hPercent
  subst hWord
  have hTen := (represents_iff 10 (by decide) (args.word esp).toNat _).mpr rfl
  have hAbs :=
    (represents_iff 10 (by decide) (args.word esp).toInt.natAbs _).mpr rfl
  have hHex := (represents_iff 16 (by decide) (args.word esp).toNat _).mpr rfl
  refine ⟨?_, ?_, ?_, ?_⟩
  · intro hLast
    exact ⟨_, hTen, prints_u hPercent hLast⟩
  · intro hLast
    exact ⟨_, hAbs, prints_d hPercent hLast⟩
  · intro hLast
    exact ⟨_, hHex, prints_x hPercent hLast⟩
  · intro hHash hLast
    exact ⟨_, _, hHex, paddedText_length _, prints_padded_x hPercent hHash hLast⟩

end CompE.KernelLib
