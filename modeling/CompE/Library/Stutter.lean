/-!
# Traces up to repetition

A level-triggered effect is observed again in every cycle in which the design
waits.  `collapse p` removes an element that satisfies `p` when the collapsed
rest of the trace starts with the same element, so a block of repetitions
counts once and different effects are never merged.

The module names no design.
-/

namespace CompE.Library.Stutter

variable {α : Type} [DecidableEq α] (p : α → Bool)

/-- The trace without repetitions of elements that satisfy `p`. -/
def collapse : List α → List α
  | [] => []
  | a :: as =>
      if p a && (collapse as).head? == some a then collapse as
      else a :: collapse as

theorem collapse_cons_of_not {a : α} (h : p a = false) (as : List α) :
    collapse p (a :: as) = a :: collapse p as := by
  simp [collapse, h]

theorem collapse_cons_of_head {a : α} {as : List α} (h : p a = true)
    (hHead : (collapse p as).head? = some a) :
    collapse p (a :: as) = collapse p as := by
  simp [collapse, h, hHead]

theorem collapse_cons_of_head_ne {a : α} {as : List α}
    (hHead : (collapse p as).head? ≠ some a) :
    collapse p (a :: as) = a :: collapse p as := by
  simp [collapse, hHead]

/-- Elements that do not satisfy `p` are kept. -/
theorem collapse_append_of_not {as : List α} (h : ∀ a ∈ as, p a = false)
    (bs : List α) : collapse p (as ++ bs) = as ++ collapse p bs := by
  induction as with
  | nil => rfl
  | cons a as ih =>
      rw [List.cons_append,
        collapse_cons_of_not p (h a (List.mem_cons_self ..)),
        ih fun b hb => h b (List.mem_cons_of_mem a hb), List.cons_append]

end CompE.Library.Stutter
