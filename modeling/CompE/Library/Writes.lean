import Mathlib.Logic.Function.Basic

/-!
# Loops that write to memory

A memory has an entry at every integer address.  `writeAll` stores one value
after the other; `copyUp` and `copyDown` move a block within the memory, from
its low or from its high end.  A block that is moved down must be copied from
the low end and one that is moved up from the high end: then the parts that
overlap are read before they are written.
-/

namespace CompE.Library.Writes

variable {α : Type}

abbrev Memory (α : Type) := Int → α

/-- `for (i = 0; i < n; i++) m[addr (i)] = val (i);` -/
def writeAll (addr : Nat → Int) (val : Nat → α) : Nat → Memory α → Memory α
  | 0, m => m
  | n + 1, m => Function.update (writeAll addr val n m) (addr n) (val n)

/-- `for (i = 0; i < n; i++) target[i] = start[i];` -/
def copyUp (start target : Int) : Nat → Memory α → Memory α
  | 0, m => m
  | n + 1, m =>
      let m' := copyUp start target n m
      Function.update m' (target + n) (m' (start + n))

/-- `for (i = n; i-- > 0; ) target[i] = start[i];` -/
def copyDown (start target : Int) : Nat → Memory α → Memory α
  | 0, m => m
  | n + 1, m =>
      copyDown start target n
        (Function.update m (target + n) (m (start + n)))

theorem writeAll_of_ne {addr : Nat → Int} {a : Int} (val : Nat → α) {n : Nat}
    (m : Memory α) (h : ∀ i, i < n → addr i ≠ a) :
    writeAll addr val n m a = m a := by
  induction n with
  | zero => rfl
  | succ n ih =>
      rw [writeAll, Function.update_of_ne (h n (by omega)).symm]
      exact ih fun i hi => h i (by omega)

/-- Different addresses keep their values. -/
theorem writeAll_self {addr : Nat → Int} (val : Nat → α) {n j : Nat}
    (m : Memory α) (hj : j < n)
    (hInj : ∀ i, i < n → addr i = addr j → i = j) :
    writeAll addr val n m (addr j) = val j := by
  induction n with
  | zero => omega
  | succ n ih =>
      rw [writeAll]
      by_cases hLast : j = n
      · subst hLast
        exact Function.update_self _ _ _
      · have hNe : addr j ≠ addr n := by
          intro hEq
          exact hLast (hInj n (by omega) hEq.symm).symm
        rw [Function.update_of_ne hNe]
        exact ih (by omega) fun i hi => hInj i (by omega)

/-- A block that is written from its low end on. -/
theorem writeAll_block (base : Int) (val : Nat → α) (n : Nat) (m : Memory α) (a : Int) :
    writeAll (fun k => base + k) val n m a =
      if base ≤ a ∧ a < base + n then val (a - base).toNat else m a := by
  by_cases hIn : base ≤ a ∧ a < base + n
  · have hPlace : base + ((a - base).toNat : Int) = a := by omega
    have hWritten := @writeAll_self α (fun k => base + k) val n (a - base).toNat m
      (by omega) fun i _ hEq => by omega
    rw [hPlace] at hWritten
    rw [if_pos hIn, hWritten]
  · rw [if_neg hIn]
    apply writeAll_of_ne
    intro i hi hEq
    omega

/-- A block that is written from its high end down. -/
theorem writeAll_reversed (top : Int) (val : Nat → α) (n : Nat) (m : Memory α) (a : Int) :
    writeAll (fun k => top - k) (fun k => val (n - 1 - k)) n m a =
      if top - n < a ∧ a ≤ top then val (a - (top - n + 1)).toNat else m a := by
  by_cases hIn : top - n < a ∧ a ≤ top
  · have hPlace : top - ((top - a).toNat : Int) = a := by omega
    have hValue : n - 1 - (top - a).toNat = (a - (top - n + 1)).toNat := by omega
    have hWritten := @writeAll_self α (fun k => top - k) (fun k => val (n - 1 - k)) n
      (top - a).toNat m (by omega) fun i _ hEq => by omega
    rw [hPlace, hValue] at hWritten
    rw [if_pos hIn, hWritten]
  · rw [if_neg hIn]
    apply writeAll_of_ne
    intro i hi hEq
    omega

theorem copyUp_apply {start target : Int} (h : target ≤ start) (n : Nat)
    (m : Memory α) (a : Int) :
    copyUp start target n m a =
      if target ≤ a ∧ a < target + n then m (start + (a - target)) else m a := by
  induction n generalizing a with
  | zero =>
      rw [if_neg (by omega)]
      rfl
  | succ n ih =>
      rw [copyUp]
      by_cases hThis : a = target + n
      · subst hThis
        have hAddr : start + (target + n - target) = start + n := by omega
        rw [Function.update_self, ih, if_neg (by omega), if_pos (by omega), hAddr]
      · rw [Function.update_of_ne hThis, ih]
        by_cases hIn : target ≤ a ∧ a < target + n
        · rw [if_pos hIn, if_pos (by omega)]
        · rw [if_neg hIn, if_neg (by omega)]

theorem copyDown_apply {start target : Int} (h : start ≤ target) (n : Nat)
    (m : Memory α) (a : Int) :
    copyDown start target n m a =
      if target ≤ a ∧ a < target + n then m (start + (a - target)) else m a := by
  induction n generalizing m with
  | zero =>
      rw [if_neg (by omega)]
      rfl
  | succ n ih =>
      rw [copyDown, ih]
      by_cases hIn : target ≤ a ∧ a < target + n
      · rw [if_pos hIn, if_pos (by omega), Function.update_of_ne (by omega)]
      · rw [if_neg hIn]
        by_cases hThis : a = target + n
        · subst hThis
          have hAddr : start + (target + n - target) = start + n := by omega
          rw [Function.update_self, if_pos (by omega), hAddr]
        · rw [Function.update_of_ne hThis, if_neg (by omega)]

end CompE.Library.Writes
