import Mathlib.Logic.Function.Basic

/-!
# Rings of cells

A ring buffer keeps its elements in an array of `cap` cells, from a start
index on and around the end of the array.  `window` reads them off.  The cells
outside the window hold whatever was last in them.
-/

namespace CompE.Library.Ring

variable {α : Type}

/-- The `n` elements from index `start` on, in order. -/
def window (cells : Nat → α) (cap start n : Nat) : List α :=
  (List.range n).map fun k => cells ((start + k) % cap)

@[simp] theorem window_zero (cells : Nat → α) (cap start : Nat) :
    window cells cap start 0 = [] := rfl

@[simp] theorem window_length (cells : Nat → α) (cap start n : Nat) :
    (window cells cap start n).length = n := by
  simp [window]

theorem window_congr {cells cells' : Nat → α} {cap start n : Nat}
    (h : ∀ k < n, cells ((start + k) % cap) = cells' ((start + k) % cap)) :
    window cells cap start n = window cells' cap start n := by
  apply List.map_congr_left
  intro k hk
  exact h k (List.mem_range.1 hk)

/-- Only the place of the start index in the ring matters. -/
theorem window_mod (cells : Nat → α) (cap start n : Nat) :
    window cells cap (start % cap) n = window cells cap start n := by
  simp [window, Nat.mod_add_mod]

/-- The first element. -/
theorem window_succ (cells : Nat → α) (cap start n : Nat) :
    window cells cap start (n + 1) =
      cells (start % cap) :: window cells cap (start + 1) n := by
  rw [window, List.range_succ_eq_map, List.map_cons, List.map_map]
  congr 1
  apply List.map_congr_left
  intro k _
  have hShift : start + (k + 1) = start + 1 + k := by omega
  simp only [Function.comp_apply, Nat.succ_eq_add_one, hShift]

/-- The last element. -/
theorem window_snoc (cells : Nat → α) (cap start n : Nat) :
    window cells cap start (n + 1) =
      window cells cap start n ++ [cells ((start + n) % cap)] := by
  simp [window, List.range_succ]

/-- Two indices of one round fall on different cells. -/
theorem mod_ne_of_lt {cap start k j : Nat} (hk : k < j) (hj : j < cap) :
    (start + k) % cap ≠ (start + j) % cap := by
  intro hEq
  have hZero := Nat.sub_mod_eq_zero_of_mod_eq hEq.symm
  have hDiff : start + j - (start + k) = j - k := by omega
  rw [hDiff, Nat.mod_eq_of_lt (by omega)] at hZero
  omega

/-- A write behind the window appends to it. -/
theorem window_push (cells : Nat → α) {cap n : Nat} (start : Nat) (v : α)
    (hRoom : n < cap) :
    window (Function.update cells ((start + n) % cap) v) cap start (n + 1) =
      window cells cap start n ++ [v] := by
  rw [window_snoc, Function.update_self]
  congr 1
  apply window_congr
  intro k hk
  exact Function.update_of_ne (mod_ne_of_lt hk hRoom) _ _

end CompE.Library.Ring
