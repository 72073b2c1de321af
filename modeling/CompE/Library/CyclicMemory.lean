import Mathlib.Data.BitVec
import Mathlib.Logic.Function.Basic

/-!
# Blocks of a cyclic memory

A memory has a cell at every address of `w` bits, and addresses wrap.  A block is a
first address and a number of cells; its cells are told by their offset from the
first address.  `Written` is what a loop over a block does, cell by cell or in
larger steps: two such loops on blocks that follow each other are one on both, and
what is left does not depend on how it was written.
-/

namespace CompE.Library.CyclicMemory

variable {w : Nat} {α : Type}

abbrev Memory (w : Nat) (α : Type) := BitVec w → α

/-! ## Loops over single cells -/

/-- `while (n--) *dst++ = c;` -/
def fill (c : α) : Nat → BitVec w → Memory w α → Memory w α
  | 0, _, m => m
  | n + 1, dst, m => fill c n (dst + 1) (Function.update m dst c)

/-- `while (n--) *dst++ = *src++;` -/
def copyUp : Nat → BitVec w → BitVec w → Memory w α → Memory w α
  | 0, _, _, m => m
  | n + 1, dst, src, m =>
      copyUp n (dst + 1) (src + 1) (Function.update m dst (m src))

/-- `while (n--) *dst-- = *src--;` -/
def copyDown : Nat → BitVec w → BitVec w → Memory w α → Memory w α
  | 0, _, _, m => m
  | n + 1, dst, src, m =>
      copyDown n (dst - 1) (src - 1) (Function.update m dst (m src))

/-! ## Offsets -/

theorem toNat_of_lt {k : Nat} (h : k < 2 ^ w) : (BitVec.ofNat w k).toNat = k := by
  rw [BitVec.toNat_ofNat, Nat.mod_eq_of_lt h]

theorem add_ofNat_zero (a : BitVec w) : a + BitVec.ofNat w 0 = a := add_zero a

theorem add_ofNat_add (a : BitVec w) (k l : Nat) :
    a + BitVec.ofNat w (k + l) = a + BitVec.ofNat w k + BitVec.ofNat w l := by
  rw [BitVec.ofNat_add, add_assoc]

/-- The offset of a cell behind the first `k`. -/
theorem toNat_add {x : BitVec w} {k l : Nat} (h : k + l ≤ 2 ^ w) (hx : x.toNat < l) :
    (BitVec.ofNat w k + x).toNat = k + x.toNat := by
  rw [BitVec.toNat_add, toNat_of_lt (by omega)]
  exact Nat.mod_eq_of_lt (by omega)

/-- The offsets of the second part of a block. -/
theorem sub_ofNat_lt_iff {x : BitVec w} {k l : Nat} (h : k + l ≤ 2 ^ w) :
    (x - BitVec.ofNat w k).toNat < l ↔ k ≤ x.toNat ∧ x.toNat < k + l := by
  have hx := x.isLt
  by_cases hAll : k < 2 ^ w
  · have hk : (BitVec.ofNat w k).toNat = k := toNat_of_lt hAll
    by_cases hLe : k ≤ x.toNat
    · rw [BitVec.toNat_sub_of_le (by rw [BitVec.le_def, hk]; exact hLe), hk]
      omega
    · have hWraps : (x - BitVec.ofNat w k).toNat = 2 ^ w - k + x.toNat := by
        rw [BitVec.toNat_sub, hk]
        exact Nat.mod_eq_of_lt (by omega)
      rw [hWraps]
      omega
  · omega

/-- The offset of a cell from the second part on. -/
theorem sub_add_ofNat (a base : BitVec w) (k : Nat) :
    a - (base + BitVec.ofNat w k) = a - base - BitVec.ofNat w k :=
  (sub_sub a base _).symm

theorem ofNat_add_sub (k : Nat) (x : BitVec w) :
    BitVec.ofNat w k + (x - BitVec.ofNat w k) = x := add_sub_cancel _ _

/-! ## What a loop leaves -/

/-- `m'` has the values `f`, by offset, in the block of `n` cells from `base` on, and
is `m` elsewhere. -/
def Written (m m' : Memory w α) (base : BitVec w) (n : Nat) (f : BitVec w → α) : Prop :=
  ∀ a, m' a = if (a - base).toNat < n then f (a - base) else m a

namespace Written

variable {m m₁ m₂ m' : Memory w α} {base : BitVec w} {k l n : Nat} {f g : BitVec w → α}

theorem none (m : Memory w α) (base : BitVec w) (f : BitVec w → α) :
    Written m m base 0 f :=
  fun _ => (if_neg (Nat.not_lt_zero _)).symm

theorem cell (m : Memory w α) (base : BitVec w) {c : α} (h : f 0 = c) :
    Written m (Function.update m base c) base 1 f := by
  intro a
  by_cases hHere : a = base
  · rw [hHere, Function.update_self, sub_self, if_pos (by simp), h]
  · rw [Function.update_of_ne hHere, if_neg]
    intro hLt
    have hZero : a - base = 0 := BitVec.eq_of_toNat_eq (by
      rw [Nat.lt_one_iff.mp hLt]
      exact BitVec.toNat_zero.symm)
    exact hHere (sub_eq_zero.mp hZero)

theorem congr (h : Written m m' base n f) (hSame : ∀ x : BitVec w, x.toNat < n → f x = g x) :
    Written m m' base n g := by
  intro a
  rw [h a]
  split
  · next hLt => exact hSame _ hLt
  · rfl

theorem unique (h : Written m m₁ base n f) (h' : Written m m₂ base n f) : m₁ = m₂ := by
  funext a
  rw [h a, h' a]

/-- A cell outside the block. -/
theorem outside (h : Written m m' base n f) {a : BitVec w}
    (hOut : ¬ (a - base).toNat < n) : m' a = m a := by
  rw [h a, if_neg hOut]

/-- A block, and then the one behind it. -/
theorem append (hLow : Written m m₁ base k f)
    (hHigh : Written m₁ m₂ (base + BitVec.ofNat w k) l fun x => f (BitVec.ofNat w k + x))
    (hFits : k + l ≤ 2 ^ w) : Written m m₂ base (k + l) f := by
  intro a
  have hPart := sub_ofNat_lt_iff (x := a - base) hFits
  rw [hHigh a, hLow a, sub_add_ofNat]
  beta_reduce
  rw [ofNat_add_sub]
  by_cases hFirst : (a - base).toNat < k
  · rw [if_neg (fun hSecond => absurd (hPart.mp hSecond).1 (by omega)), if_pos hFirst,
      if_pos (by omega)]
  · by_cases hBoth : (a - base).toNat < k + l
    · rw [if_pos (hPart.mpr ⟨by omega, hBoth⟩), if_pos hBoth]
    · rw [if_neg (fun hSecond => hBoth (hPart.mp hSecond).2), if_neg hFirst, if_neg hBoth]

/-- A block, and then the one in front of it. -/
theorem prepend
    (hHigh : Written m m₁ (base + BitVec.ofNat w k) l fun x => f (BitVec.ofNat w k + x))
    (hLow : Written m₁ m₂ base k f) (hFits : k + l ≤ 2 ^ w) :
    Written m m₂ base (k + l) f := by
  intro a
  have hPart := sub_ofNat_lt_iff (x := a - base) hFits
  rw [hLow a, hHigh a, sub_add_ofNat]
  beta_reduce
  rw [ofNat_add_sub]
  by_cases hFirst : (a - base).toNat < k
  · rw [if_pos hFirst, if_pos (by omega)]
  · by_cases hBoth : (a - base).toNat < k + l
    · rw [if_neg hFirst, if_pos (hPart.mpr ⟨by omega, hBoth⟩), if_pos hBoth]
    · rw [if_neg hFirst, if_neg (fun hSecond => hBoth (hPart.mp hSecond).2), if_neg hBoth]

end Written

/-- One value in all cells of a block. -/
theorem fill_written (c : α) (n : Nat) : ∀ (dst : BitVec w) (m : Memory w α),
    n ≤ 2 ^ w → Written m (fill c n dst m) dst n fun _ => c := by
  induction n with
  | zero => intro dst m _; exact Written.none m dst _
  | succ n ih =>
      intro dst m hFits
      rw [fill, Nat.add_comm n 1]
      exact (Written.cell m dst rfl).append (ih (dst + 1) _ (by omega)) (by omega)

/-! ## Copies -/

/-- The block at `dst` has been copied from the one at `src`. -/
def Copied (m m' : Memory w α) (dst src : BitVec w) (n : Nat) : Prop :=
  Written m m' dst n fun x => m (src + x)

/-- Two blocks with no cell in common. -/
def Apart (dst src : BitVec w) (n : Nat) : Prop :=
  ∀ x y : BitVec w, x.toNat < n → y.toNat < n → dst + x ≠ src + y

/-- No cell is written before it is read, when the copy goes up. -/
def ReadsAhead (dst src : BitVec w) (n : Nat) : Prop :=
  ∀ x y : BitVec w, x.toNat < y.toNat → y.toNat < n → dst + x ≠ src + y

/-- The same, when the copy goes down. -/
def ReadsBehind (dst src : BitVec w) (n : Nat) : Prop :=
  ∀ x y : BitVec w, x.toNat < n → y.toNat < x.toNat → dst + x ≠ src + y

theorem Apart.readsAhead {dst src : BitVec w} {n : Nat} (h : Apart dst src n) :
    ReadsAhead dst src n := by
  intro x y hBefore hLt
  exact h x y (by omega) hLt

/-- Two copies one behind the other are one, when the second does not read what the
first has written. -/
theorem Copied.append {m m₁ m₂ : Memory w α} {dst src : BitVec w} {k l : Nat}
    (hLow : Copied m m₁ dst src k)
    (hHigh : Copied m₁ m₂ (dst + BitVec.ofNat w k) (src + BitVec.ofNat w k) l)
    (hAhead : ReadsAhead dst src (k + l)) (hFits : k + l ≤ 2 ^ w) :
    Copied m m₂ dst src (k + l) := by
  apply Written.append hLow _ hFits
  apply Written.congr hHigh
  intro x hx
  have hBehind := toNat_add hFits hx
  rw [add_assoc]
  apply Written.outside hLow
  intro hLt
  apply hAhead (src + (BitVec.ofNat w k + x) - dst) (BitVec.ofNat w k + x)
  · omega
  · omega
  · exact add_sub_cancel dst _

theorem ReadsAhead.front {dst src : BitVec w} {k l : Nat}
    (h : ReadsAhead dst src (k + l)) : ReadsAhead dst src k := by
  intro x y hBefore hLt
  exact h x y hBefore (by omega)

/-- The blocks behind the first `k` cells. -/
theorem ReadsAhead.behind {dst src : BitVec w} {k l : Nat}
    (h : ReadsAhead dst src (k + l)) (hFits : k + l ≤ 2 ^ w) :
    ReadsAhead (dst + BitVec.ofNat w k) (src + BitVec.ofNat w k) l := by
  intro x y hBefore hLt
  rw [add_assoc, add_assoc]
  apply h
  · rw [toNat_add hFits (Nat.lt_trans hBefore hLt), toNat_add hFits hLt]
    omega
  · rw [toNat_add hFits hLt]
    omega

theorem copyUp_copied (n : Nat) : ∀ (dst src : BitVec w) (m : Memory w α),
    ReadsAhead dst src n → n ≤ 2 ^ w → Copied m (copyUp n dst src m) dst src n := by
  induction n with
  | zero => intro dst src m _ _; exact Written.none m dst _
  | succ n ih =>
      intro dst src m hAhead hFits
      rw [copyUp, Nat.add_comm n 1]
      rw [Nat.add_comm n 1] at hAhead
      have hFirst : Copied m (Function.update m dst (m src)) dst src 1 :=
        Written.cell m dst (by rw [add_zero])
      exact hFirst.append
        (ih (dst + 1) (src + 1) _ (hAhead.behind (by omega)) (by omega)) hAhead (by omega)

/-- A copy that goes down starts with the last cells. -/
theorem copyDown_copied (n : Nat) : ∀ (dst src : BitVec w) (m : Memory w α),
    ReadsBehind dst src n → n ≤ 2 ^ w →
    Copied m (copyDown n (dst + BitVec.ofNat w n - 1) (src + BitVec.ofNat w n - 1) m)
      dst src n := by
  induction n with
  | zero => intro dst src m _ _; exact Written.none m dst _
  | succ n ih =>
      intro dst src m hBehind hFits
      have hLast : ∀ a : BitVec w, a + BitVec.ofNat w (n + 1) - 1 = a + BitVec.ofNat w n := by
        intro a
        rw [add_ofNat_add]
        exact add_sub_cancel_right _ _
      have hn : (BitVec.ofNat w n).toNat = n := toNat_of_lt (by omega)
      rw [copyDown, hLast, hLast]
      have hTop : Written m
          (Function.update m (dst + BitVec.ofNat w n) (m (src + BitVec.ofNat w n)))
          (dst + BitVec.ofNat w n) 1 fun x => m (src + (BitVec.ofNat w n + x)) :=
        Written.cell m _ (by rw [add_zero])
      apply Written.prepend (f := fun x => m (src + x)) hTop _ hFits
      have hRest := ih dst src
        (Function.update m (dst + BitVec.ofNat w n) (m (src + BitVec.ofNat w n)))
        (fun x y hx hy => hBehind x y (by omega) hy) (by omega)
      apply Written.congr hRest
      intro x hx
      apply Function.update_of_ne
      exact (hBehind (BitVec.ofNat w n) x (by omega) (by omega)).symm

end CompE.Library.CyclicMemory
