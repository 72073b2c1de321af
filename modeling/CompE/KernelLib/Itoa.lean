import CompE.KernelLib.Putc
import CompE.Library.Numeral
import CompE.Library.WriteLog

/-!
# Numbers as strings

`itoa` writes the digits of a number from the lowest up and then reverses them in
place.  Memory is seen from the caller's buffer and keeps the places written.  A loop
gets a bound on its rounds and has no result when it needs more, and neither has a
place behind `lookup` or a division by zero.
-/

namespace CompE.KernelLib

open CompE.Library

/-- A character of the source. -/
def chr (c : Char) : Byte := BitVec.ofNat 8 c.toNat

/-- `lookup`, without its terminator. -/
def lookup : List Byte :=
  ['0', '1', '2', '3', '4', '5', '6', '7', '8', '9', 'A', 'B', 'C', 'D', 'E', 'F', 'G',
    'H', 'I', 'J', 'K', 'L', 'M', 'N', 'O', 'P', 'Q', 'R', 'S', 'T', 'U', 'V', 'W', 'X',
    'Y', 'Z'].map chr

/-- The loop of `strlen`. -/
def strlenFrom (s : Nat → Byte) : Nat → Nat → Option Nat
  | 0, _ => none
  | fuel + 1, len => if s len ≠ 0 then strlenFrom s fuel (len + 1) else some len

/-- `strlen`. -/
def strlen (fuel : Nat) (s : Nat → Byte) : Option Nat := strlenFrom s fuel 0

/-- The loop of `strrev`, for at most the given number of rounds. -/
def strrevLoop (s : Nat) : Nat → Nat → Nat → Logged Byte → Logged Byte
  | 0, _, _, m => m
  | fuel + 1, beg, stop, m =>
      if beg < stop then
        let tmp := m.cells (s + stop)
        let m := m.set (s + stop) (m.cells (s + beg))
        strrevLoop s fuel (beg + 1) (stop - 1) (m.set (s + beg) tmp)
      else m

/-- `strrev`.  The last index of no characters is -1 in the source and 0 here: in
both cases the loop has no round. -/
def strrev (fuel : Nat) (s : Nat) (m : Logged Byte) : Option (Logged Byte) :=
  (strlen fuel fun k => m.cells (s + k)).map fun len =>
    strrevLoop s len 0 (len - 1) m

/-- The loop of `itoa`: the place behind the digits and the memory. -/
def itoaLoop (radix : BitVec 32) :
    Nat → BitVec 32 → Nat → Logged Byte → Option (Nat × Logged Byte)
  | 0, _, _, _ => none
  | fuel + 1, newval, newbuf, m =>
      if 0 < newval then
        if radix = 0 then none
        else
          match lookup[(newval % radix).toNat]? with
          | none => none
          | some c =>
              itoaLoop radix fuel (newval / radix) (newbuf + 1) (m.set newbuf c)
      else some (newbuf, m)

/-- `itoa`; it returns its buffer. -/
def itoa (fuel : Nat) (value : BitVec 32) (buf : Nat) (radix : BitVec 32)
    (m : Logged Byte) : Option (Logged Byte) :=
  if value = 0 then some ((m.set buf (chr '0')).set (buf + 1) 0)
  else
    match itoaLoop radix fuel value buf m with
    | none => none
    | some (newbuf, m) => strrev fuel buf (m.set newbuf 0)

/-! ## A string in memory -/

/-- The string `text` stands at `place`, the rest is as in `m`, and only the string
and its terminator have been written. -/
structure Stored (m m' : Logged Byte) (place : Nat) (text : List Byte) : Prop where
  cells : m'.cells = (m.store place (text ++ [0])).cells
  written : ∀ p ∈ m'.written, p ∈ m.written ∨ place ≤ p ∧ p ≤ place + text.length

namespace Stored

variable {m m' : Logged Byte} {place : Nat} {text : List Byte}

theorem char (h : Stored m m' place text) {k : Nat} (hk : k < text.length) :
    m'.cells (place + k) = text[k] := by
  have hLt : k < (text ++ [0]).length := by
    rw [List.length_append]
    omega
  rw [h.cells, Logged.store_cells _ m hLt, List.getElem_append_left hk]

theorem terminator (h : Stored m m' place text) :
    m'.cells (place + text.length) = 0 := by
  have hLt : text.length < (text ++ [(0 : Byte)]).length := by
    rw [List.length_append, List.length_singleton]
    omega
  rw [h.cells, Logged.store_cells _ m hLt, List.getElem_append_right (Nat.le_refl _)]
  simp

theorem outside (h : Stored m m' place text) {p : Nat}
    (hp : p < place ∨ place + text.length < p) : m'.cells p = m.cells p := by
  rw [h.cells]
  apply Logged.store_cells_of_outside
  rw [List.length_append, List.length_singleton]
  omega

/-- A string that has been stored, and then its terminator. -/
theorem store_set (m : Logged Byte) (place : Nat) (text : List Byte) :
    Stored m ((m.store place text).set (place + text.length) 0) place text := by
  have hStore : m.store place (text ++ [0]) =
      (m.store place text).set (place + text.length) 0 := Logged.store_append _ _ _ _
  refine ⟨by rw [hStore], ?_⟩
  intro p hp
  rw [← hStore, Logged.store_written, List.mem_append, List.mem_range'_1,
    List.length_append, List.length_singleton] at hp
  apply hp.imp_right
  omega

/-- A string is stored when its cells are, one by one. -/
theorem of_cells (hChars : ∀ k (h : k < text.length), m'.cells (place + k) = text[k])
    (hEnd : m'.cells (place + text.length) = 0)
    (hOutside : ∀ p, p < place ∨ place + text.length < p → m'.cells p = m.cells p)
    (hWritten : ∀ p ∈ m'.written, p ∈ m.written ∨ place ≤ p ∧ p ≤ place + text.length) :
    Stored m m' place text := by
  have hLength : (text ++ [(0 : Byte)]).length = text.length + 1 := by
    rw [List.length_append, List.length_singleton]
  refine ⟨?_, hWritten⟩
  funext p
  by_cases hIn : place ≤ p ∧ p ≤ place + text.length
  · obtain ⟨k, rfl⟩ := Nat.exists_eq_add_of_le hIn.1
    have hLt : k < (text ++ [(0 : Byte)]).length := by omega
    rw [Logged.store_cells _ m hLt]
    by_cases hk : k < text.length
    · rw [List.getElem_append_left hk]
      exact hChars k hk
    · have hLast : k = text.length := by omega
      subst hLast
      rw [hEnd, List.getElem_append_right (Nat.le_refl _)]
      simp
  · rw [hOutside p (by omega), Logged.store_cells_of_outside]
    omega

end Stored

/-- The loop of `strlen` on a string without its first `k` characters. -/
theorem strlenFrom_eq {s : Nat → Byte} {n : Nat} (hChars : ∀ k, k < n → s k ≠ 0)
    (hEnd : s n = 0) (fuel : Nat) :
    ∀ k, k ≤ n → n < k + fuel → strlenFrom s fuel k = some n := by
  induction fuel with
  | zero => intro k hk hFuel; omega
  | succ fuel ih =>
      intro k hk hFuel
      rw [strlenFrom]
      by_cases hLast : k = n
      · rw [hLast, if_neg (fun hNe => hNe hEnd)]
      · rw [if_pos (hChars k (by omega))]
        exact ih (k + 1) (by omega) (by omega)

theorem Stored.strlen_eq {m m' : Logged Byte} {place fuel : Nat} {text : List Byte}
    (h : Stored m m' place text) (hChars : ∀ c ∈ text, c ≠ 0)
    (hFuel : text.length < fuel) :
    strlen fuel (fun k => m'.cells (place + k)) = some text.length := by
  refine strlenFrom_eq (s := fun k => m'.cells (place + k)) ?_ h.terminator fuel 0
    (Nat.zero_le _) (by omega)
  intro k hk
  rw [h.char hk]
  exact hChars _ (List.getElem_mem hk)

/-! ## `strrev` -/

/-- The loop mirrors the places from `beg` to `stop`. -/
theorem strrevLoop_cells (s fuel : Nat) : ∀ (beg stop : Nat) (m : Logged Byte),
    stop ≤ beg + 2 * fuel → ∀ p, (strrevLoop s fuel beg stop m).cells p =
      if s + beg ≤ p ∧ p ≤ s + stop then m.cells (s + beg + (s + stop) - p)
      else m.cells p := by
  induction fuel with
  | zero =>
      intro beg stop m hFuel p
      rw [strrevLoop]
      split
      · congr 1
        omega
      · rfl
  | succ fuel ih =>
      intro beg stop m hFuel p
      rw [strrevLoop]
      by_cases hMore : beg < stop
      · rw [if_pos hMore, ih (beg + 1) (stop - 1) _ (by omega) p]
        by_cases hInner : s + (beg + 1) ≤ p ∧ p ≤ s + (stop - 1)
        · rw [if_pos hInner, if_pos (by omega), Logged.set_cells_of_ne _ _ (by omega),
            Logged.set_cells_of_ne _ _ (by omega)]
          congr 1
          omega
        · rw [if_neg hInner]
          by_cases hBeg : p = s + beg
          · rw [hBeg, Logged.set_cells_self, if_pos (by omega)]
            congr 1
            omega
          · rw [Logged.set_cells_of_ne _ _ hBeg]
            by_cases hStop : p = s + stop
            · rw [hStop, Logged.set_cells_self, if_pos (by omega)]
              congr 1
              omega
            · rw [Logged.set_cells_of_ne _ _ hStop, if_neg (by omega)]
      · rw [if_neg hMore]
        split
        · congr 1
          omega
        · rfl

private theorem strrevLoop_written (s fuel : Nat) : ∀ (beg stop : Nat) (m : Logged Byte),
    ∀ p ∈ (strrevLoop s fuel beg stop m).written,
      p ∈ m.written ∨ s + beg ≤ p ∧ p ≤ s + stop := by
  induction fuel with
  | zero => intro beg stop m p hp; exact Or.inl hp
  | succ fuel ih =>
      intro beg stop m p hp
      rw [strrevLoop] at hp
      by_cases hMore : beg < stop
      · rw [if_pos hMore] at hp
        cases ih _ _ _ p hp with
        | inl hBefore =>
            rw [Logged.set_written, Logged.set_written, List.append_assoc,
              List.mem_append] at hBefore
            cases hBefore with
            | inl hEarlier => exact Or.inl hEarlier
            | inr hNow =>
                simp only [List.mem_append, List.mem_singleton] at hNow
                omega
        | inr hLater => omega
      · rw [if_neg hMore] at hp
        exact Or.inl hp

/-- `strrev` reverses the string and leaves its terminator. -/
theorem Stored.strrev {m m' : Logged Byte} {place fuel : Nat} {text : List Byte}
    (h : Stored m m' place text) (hChars : ∀ c ∈ text, c ≠ 0)
    (hFuel : text.length < fuel) :
    ∃ m'', strrev fuel place m' = some m'' ∧ Stored m m'' place text.reverse := by
  have hLength : text.reverse.length = text.length := List.length_reverse
  have hCells := strrevLoop_cells place text.length 0 (text.length - 1) m' (by omega)
  refine ⟨strrevLoop place text.length 0 (text.length - 1) m', ?_,
    Stored.of_cells ?_ ?_ ?_ ?_⟩
  · rw [KernelLib.strrev, h.strlen_eq hChars hFuel, Option.map_some]
  · intro k hk
    have hMirror : place + 0 + (place + (text.length - 1)) - (place + k) =
        place + (text.length - 1 - k) := by omega
    rw [hCells, if_pos (by omega), hMirror, List.getElem_reverse]
    exact h.char (by omega)
  · rw [hLength, hCells]
    split
    · have hMirror : place + 0 + (place + (text.length - 1)) -
          (place + text.length) = place + text.length := by omega
      rw [hMirror]
      exact h.terminator
    · exact h.terminator
  · intro p hp
    rw [hLength] at hp
    by_cases hEmpty : place + 0 ≤ p ∧ p ≤ place + (text.length - 1)
    · omega
    · rw [hCells, if_neg hEmpty]
      exact h.outside hp
  · intro p hp
    rw [hLength]
    cases strrevLoop_written place text.length 0 (text.length - 1) m' p hp with
    | inl hBefore => exact h.written p hBefore
    | inr hSwapped => exact Or.inr (by omega)

/-! ## `itoa` -/

/-- The character of a digit. -/
def digitChar (d : Nat) : Byte := lookup.getD d 0

/-- A number as `itoa` writes it. -/
def numberText (radix value : Nat) : List Byte := (numeral radix value).map digitChar

private theorem lookup_digit {d : Nat} (h : d < 36) : lookup[d]? = some (digitChar d) := by
  have hLt : d < lookup.length := h
  rw [digitChar, List.getD_eq_getElem?_getD, List.getElem?_eq_getElem hLt]
  rfl

private theorem digitChar_ne_zero {d : Nat} (h : d < 36) : digitChar d ≠ 0 := by
  revert d
  decide +kernel

theorem numberText_ne_zero (radix : Nat) (hTwo : 1 < radix) (hMax : radix ≤ 36)
    (value : Nat) : ∀ c ∈ numberText radix value, c ≠ 0 := by
  intro c hc
  obtain ⟨d, hd, rfl⟩ := List.mem_map.mp hc
  have hDigit := (numeral_isNumeral hTwo value).digits d hd
  exact digitChar_ne_zero (by omega)

theorem numberText_length_le {radix : Nat} (hTwo : 1 < radix) (value : BitVec 32) :
    (numberText radix value.toNat).length ≤ 32 := by
  rw [numberText, List.length_map]
  apply numeral_length_le hTwo (by decide)
  exact Nat.lt_of_lt_of_le value.isLt (Nat.pow_le_pow_left hTwo 32)

/-- The loop writes the digits, the lowest first. -/
theorem itoaLoop_eq {radix : BitVec 32} (hTwo : 1 < radix.toNat)
    (hMax : radix.toNat ≤ 36) (fuel : Nat) :
    ∀ (newval : BitVec 32) (newbuf : Nat) (m : Logged Byte),
      (Nat.digits radix.toNat newval.toNat).length < fuel →
      itoaLoop radix fuel newval newbuf m =
        some (newbuf + (Nat.digits radix.toNat newval.toNat).length,
          m.store newbuf ((Nat.digits radix.toNat newval.toNat).map digitChar)) := by
  have hRadix : radix ≠ 0 := by
    intro hZero
    rw [hZero] at hTwo
    exact absurd hTwo (by decide)
  induction fuel with
  | zero => intro newval newbuf m hFuel; omega
  | succ fuel ih =>
      intro newval newbuf m hFuel
      rw [itoaLoop]
      by_cases hMore : 0 < newval
      · have hPos : 0 < newval.toNat := hMore
        have hDigits := Nat.digits_def' hTwo hPos
        have hLow : newval.toNat % radix.toNat < 36 :=
          Nat.lt_of_lt_of_le (Nat.mod_lt _ (by omega)) hMax
        rw [hDigits, List.length_cons] at hFuel
        have hRest := ih (newval / radix) (newbuf + 1)
          (m.set newbuf (digitChar (newval.toNat % radix.toNat)))
          (by rw [BitVec.toNat_udiv]; omega)
        rw [if_pos hMore, if_neg hRadix, BitVec.toNat_umod, lookup_digit hLow]
        simp only [hRest, BitVec.toNat_udiv, hDigits, List.length_cons, List.map_cons]
        rw [Logged.store, Nat.add_assoc newbuf 1, Nat.add_comm 1]
      · have hZero : newval.toNat = 0 := by
          have hNot : ¬ 0 < newval.toNat := hMore
          omega
        rw [if_neg hMore, hZero, Nat.digits_zero]
        rfl

/-- `itoa` writes the number from its buffer on, and nothing else. -/
theorem itoa_stored {radix : BitVec 32} (hTwo : 1 < radix.toNat)
    (hMax : radix.toNat ≤ 36) (value : BitVec 32) {fuel : Nat} (hFuel : 32 < fuel)
    (buf : Nat) (m : Logged Byte) :
    ∃ m', itoa fuel value buf radix m = some m' ∧
      Stored m m' buf (numberText radix.toNat value.toNat) := by
  rw [itoa]
  by_cases hZero : value = 0
  · rw [if_pos hZero, hZero]
    exact ⟨_, rfl, Stored.store_set m buf (numberText radix.toNat 0)⟩
  · have hNat : value.toNat ≠ 0 := by
      intro hEq
      exact hZero (BitVec.eq_of_toNat_eq hEq)
    let text := (Nat.digits radix.toNat value.toNat).map digitChar
    have hText : numberText radix.toNat value.toNat = text.reverse := by
      rw [numberText, numeral, if_neg hNat, List.map_reverse]
    have hDigits : text.length = (Nat.digits radix.toNat value.toNat).length :=
      List.length_map _
    have hLength : text.length ≤ 32 := by
      have hLe := numberText_length_le hTwo value
      rwa [hText, List.length_reverse] at hLe
    have hChars : ∀ c ∈ text, c ≠ 0 := by
      intro c hc
      apply numberText_ne_zero _ hTwo hMax value.toNat
      rw [hText]
      exact List.mem_reverse.mpr hc
    obtain ⟨m', hRev, hStored⟩ :=
      (Stored.store_set m buf text).strrev hChars (Nat.lt_of_le_of_lt hLength hFuel)
    refine ⟨m', ?_, ?_⟩
    · rw [if_neg hZero, itoaLoop_eq hTwo hMax fuel value buf m (by omega), ← hDigits]
      exact hRev
    · rw [hText]
      exact hStored

end CompE.KernelLib
