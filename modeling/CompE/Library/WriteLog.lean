import Mathlib.Logic.Function.Basic

/-!
# Memory with a record of the writes

A memory from which nothing is removed can only be told to be in bounds by the
places that were written.  `Logged` keeps them beside the cells; `store` writes
a list from a place on.
-/

namespace CompE.Library

variable {α : Type}

/-- The cells, and the places written to so far. -/
structure Logged (α : Type) where
  cells : Nat → α
  written : List Nat

namespace Logged

/-- A memory that nothing has written to. -/
def fresh (cells : Nat → α) : Logged α := ⟨cells, []⟩

def set (a : Logged α) (i : Nat) (c : α) : Logged α :=
  ⟨Function.update a.cells i c, a.written ++ [i]⟩

/-- The values of a list, one after the other, from place `i` on. -/
def store (a : Logged α) (i : Nat) : List α → Logged α
  | [] => a
  | c :: s => store (a.set i c) (i + 1) s

@[simp] theorem fresh_cells (cells : Nat → α) : (fresh cells).cells = cells := rfl

@[simp] theorem fresh_written (cells : Nat → α) : (fresh cells).written = [] := rfl

@[simp] theorem set_cells_self (a : Logged α) (i : Nat) (c : α) :
    (a.set i c).cells i = c := Function.update_self _ _ _

theorem set_cells_of_ne (a : Logged α) {i j : Nat} (c : α) (h : j ≠ i) :
    (a.set i c).cells j = a.cells j := Function.update_of_ne h _ _

@[simp] theorem set_written (a : Logged α) (i : Nat) (c : α) :
    (a.set i c).written = a.written ++ [i] := rfl

theorem store_append (s t : List α) : ∀ (a : Logged α) (i : Nat),
    a.store i (s ++ t) = (a.store i s).store (i + s.length) t := by
  induction s with
  | nil => intro a i; rfl
  | cons c s ih =>
      intro a i
      have hPlace : i + (c :: s).length = i + 1 + s.length := by
        rw [List.length_cons]
        omega
      rw [hPlace, List.cons_append, store, store, ih]

theorem store_written (s : List α) : ∀ (a : Logged α) (i : Nat),
    (a.store i s).written = a.written ++ List.range' i s.length := by
  induction s with
  | nil => intro a i; simp [store]
  | cons c s ih =>
      intro a i
      rw [store, ih, set_written, List.append_assoc, List.length_cons,
        List.range'_succ]
      rfl

/-- Places in front of the list and behind it keep their values. -/
theorem store_cells_of_outside (s : List α) : ∀ (a : Logged α) {i j : Nat},
    j < i ∨ i + s.length ≤ j → (a.store i s).cells j = a.cells j := by
  induction s with
  | nil => intro a i j _; rfl
  | cons c s ih =>
      intro a i j hOut
      rw [List.length_cons] at hOut
      rw [store, ih (a.set i c) (by omega), set_cells_of_ne a c (by omega)]

theorem store_cells (s : List α) : ∀ (a : Logged α) {i k : Nat}
    (h : k < s.length), (a.store i s).cells (i + k) = s[k] := by
  induction s with
  | nil => intro a i k h; exact absurd h (Nat.not_lt_zero k)
  | cons c s ih =>
      intro a i k h
      rw [store]
      cases k with
      | zero =>
          rw [store_cells_of_outside s _ (Or.inl (by omega)), Nat.add_zero,
            set_cells_self]
          rfl
      | succ k =>
          rw [show i + (k + 1) = i + 1 + k by omega,
            ih (a.set i c) (Nat.lt_of_succ_lt_succ h)]
          rfl

/-! ## One value in many places -/

/-- `b` is `a` with `c` at the places `P`, and nothing else was written. -/
structure Paints (c : α) (P : Nat → Prop) (a b : Logged α) : Prop where
  inside : ∀ i, P i → b.cells i = c
  outside : ∀ i, ¬ P i → b.cells i = a.cells i
  written : ∀ i ∈ b.written, i ∈ a.written ∨ P i

namespace Paints

variable {c : α} {P Q : Nat → Prop}

theorem none (a : Logged α) : Paints c (fun _ => False) a a where
  inside := fun _ h => h.elim
  outside := fun _ _ => rfl
  written := fun _ h => Or.inl h

theorem set (a : Logged α) (i : Nat) : Paints c (fun j => j = i) a (a.set i c) where
  inside := fun j h => by rw [h, set_cells_self]
  outside := fun _ h => set_cells_of_ne a c h
  written := fun j h => by
    rw [set_written, List.mem_append, List.mem_singleton] at h
    exact h

theorem trans {a b b' : Logged α} (h : Paints c P a b) (h' : Paints c Q b b') :
    Paints c (fun i => P i ∨ Q i) a b' where
  inside := fun i hIn => by
    by_cases hLater : Q i
    · exact h'.inside i hLater
    · rw [h'.outside i hLater]
      exact h.inside i (hIn.resolve_right hLater)
  outside := fun i hOut => by
    rw [h'.outside i fun hQ => hOut (Or.inr hQ)]
    exact h.outside i fun hP => hOut (Or.inl hP)
  written := fun i hIn => by
    cases h'.written i hIn with
    | inl hBefore => exact (h.written i hBefore).imp_right Or.inl
    | inr hQ => exact Or.inr (Or.inr hQ)

theorem congr {a b : Logged α} (h : Paints c P a b) (hSame : ∀ i, P i ↔ Q i) :
    Paints c Q a b where
  inside := fun i hQ => h.inside i ((hSame i).mpr hQ)
  outside := fun i hQ => h.outside i fun hP => hQ ((hSame i).mp hP)
  written := fun i hIn => (h.written i hIn).imp_right (hSame i).mp

/-- A loop paints what its rounds paint. -/
theorem range {f : Nat → Logged α → Logged α} {P : Nat → Nat → Prop} {n : Nat}
    (h : ∀ i, i < n → ∀ a, Paints c (P i) a (f i a)) (a : Logged α) :
    Paints c (fun j => ∃ i, i < n ∧ P i j) a
      ((List.range n).foldl (fun a i => f i a) a) := by
  induction n with
  | zero =>
      apply (none a).congr
      intro j
      constructor
      · exact False.elim
      · intro ⟨i, hi, _⟩
        exact Nat.not_lt_zero i hi
  | succ n ih =>
      have hBefore := ih fun i hi => h i (by omega)
      rw [List.range_succ, List.foldl_append, List.foldl_cons, List.foldl_nil]
      apply (hBefore.trans (h n (by omega) _)).congr
      intro j
      constructor
      · intro hPainted
        cases hPainted with
        | inl hEarlier =>
            obtain ⟨i, hi, hP⟩ := hEarlier
            exact ⟨i, by omega, hP⟩
        | inr hNow => exact ⟨n, by omega, hNow⟩
      · intro ⟨i, hi, hP⟩
        by_cases hLast : i = n
        · right
          rw [← hLast]
          exact hP
        · left
          exact ⟨i, by omega, hP⟩

end Paints

end Logged

end CompE.Library
