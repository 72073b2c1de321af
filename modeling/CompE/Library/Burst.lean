import Mathlib.Data.BitVec

/-!
# Lines of four words

A line of 256 bits goes over a bus of 64 bits as four words, the lowest one
first.  `setWord` writes one word of a line; a line is known by its words.
-/

namespace CompE.Library.Burst

scoped instance words_neZero : NeZero 4 := ⟨by decide⟩

/-- Word `k` of a line. -/
def word (line : BitVec 256) (k : Fin 4) : BitVec 64 :=
  line.extractLsb' (64 * k) 64

/-- The line of four words, the first one lowest. -/
def ofWords (w : Fin 4 → BitVec 64) : BitVec 256 := w 3 ++ w 2 ++ w 1 ++ w 0

/-- A line with word `k` replaced. -/
def setWord (line : BitVec 256) (k : Fin 4) (w : BitVec 64) : BitVec 256 :=
  match k with
  | 0 => line.extractLsb' 64 192 ++ w
  | 1 => line.extractLsb' 128 128 ++ w ++ line.extractLsb' 0 64
  | 2 => line.extractLsb' 192 64 ++ w ++ line.extractLsb' 0 128
  | 3 => w ++ line.extractLsb' 0 192

theorem word_setWord (line : BitVec 256) (j k : Fin 4) (w : BitVec 64) :
    word (setWord line j w) k = if k = j then w else word line k := by
  apply BitVec.eq_of_getLsbD_eq
  intro i hi
  match j, k with
  | 0, 0 | 0, 1 | 0, 2 | 0, 3 | 1, 0 | 1, 1 | 1, 2 | 1, 3
  | 2, 0 | 2, 1 | 2, 2 | 2, 3 | 3, 0 | 3, 1 | 3, 2 | 3, 3 =>
      simp [word, setWord, hi]
      grind

theorem word_ofWords (w : Fin 4 → BitVec 64) (k : Fin 4) :
    word (ofWords w) k = w k := by
  apply BitVec.eq_of_getLsbD_eq
  intro i hi
  match k with
  | 0 | 1 | 2 | 3 =>
      simp [word, ofWords, hi]
      grind

theorem eq_of_words {a b : BitVec 256} (h : ∀ k, word a k = word b k) :
    a = b := by
  apply BitVec.eq_of_getLsbD_eq
  intro i hi
  have hWord := congrArg (BitVec.getLsbD · (i % 64)) (h ⟨i / 64, by omega⟩)
  have hBit : i % 64 < 64 := by omega
  simp only [word, BitVec.getLsbD_extractLsb', hBit, decide_true,
    Bool.true_and] at hWord
  rwa [Nat.div_add_mod] at hWord

/-- Four words written in turn make a line, whatever was there before. -/
theorem setWord_four (line : BitVec 256) (w : Fin 4 → BitVec 64) :
    setWord (setWord (setWord (setWord line 0 (w 0)) 1 (w 1)) 2 (w 2)) 3 (w 3) =
      ofWords w := by
  apply eq_of_words
  intro k
  simp only [word_setWord, word_ofWords]
  match k with
  | 0 | 1 | 2 | 3 => rfl

end CompE.Library.Burst
