import Mathlib.Data.List.Rotate
import Mathlib.Logic.Function.Iterate

/-!
# Round robin

A queue whose front element is being served gives its turn away by rotating
until an enabled element is in front.  `order` is the order of service that a
queue promises: the enabled elements from behind the front around to the
front.  One turn serves the first of them and rotates the order by one, so the
turns of any number of rounds go through it cyclically.
-/

namespace CompE.Library.RoundRobin

variable {α : Type} (on : α → Bool)

/-- The enabled elements in the order in which they will be served. -/
def order (l : List α) : List α := (l.rotate 1).filter on

/-- How many elements go to the end at the next turn. -/
def distance (l : List α) : Nat := (l.rotate 1).findIdx on + 1

/-- The queue after a turn. -/
def next (l : List α) : List α := l.rotate (distance on l)

/-- The elements in front of the one that is served, and those behind it. -/
structure Turn (l before : List α) (x : α) (after : List α) : Prop where
  split : l.rotate 1 = before ++ x :: after
  off : ∀ y ∈ before, on y = false
  on : on x = true

variable {on} {l before after : List α} {x : α}

theorem exists_turn (h : ∃ x ∈ l, on x = true) :
    ∃ before x after, Turn on l before x after := by
  have hFound : ((l.rotate 1).find? on).isSome := by
    rw [List.find?_isSome]
    obtain ⟨x, hx, hOn⟩ := h
    exact ⟨x, List.mem_rotate.2 hx, hOn⟩
  obtain ⟨x, hx⟩ := Option.isSome_iff_exists.1 hFound
  obtain ⟨hOn, before, after, hSplit, hOff⟩ :=
    List.find?_eq_some_iff_append.1 hx
  exact ⟨before, x, after, hSplit, fun y hy => by simpa using hOff y hy, hOn⟩

namespace Turn

theorem distance_eq (h : Turn on l before x after) :
    distance on l = before.length + 1 := by
  have hFind : (before ++ x :: after).findIdx on = before.length := by
    have hNone : before.findIdx on = before.length :=
      List.findIdx_eq_length_of_false h.off
    rw [List.findIdx_append, hNone, if_neg (Nat.lt_irrefl _)]
    simp [List.findIdx_cons, h.on]
  rw [distance, h.split, hFind]

theorem distance_le (h : Turn on l before x after) :
    distance on l ≤ l.length := by
  have hLength := congrArg List.length h.split
  rw [List.length_rotate, List.length_append, List.length_cons] at hLength
  rw [h.distance_eq]
  omega

theorem next_eq (h : Turn on l before x after) :
    next on l = x :: after ++ before := by
  rw [next, h.distance_eq, Nat.add_comm, ← List.rotate_rotate, h.split,
    List.rotate_append_length_eq]

theorem order_eq (h : Turn on l before x after) :
    order on l = x :: after.filter on := by
  have hOff : before.filter on = [] := by
    rw [List.filter_eq_nil_iff]
    intro y hy
    simp [h.off y hy]
  rw [order, h.split, List.filter_append, hOff, List.nil_append,
    List.filter_cons_of_pos h.on]

/-- A turn rotates the order of service by one. -/
theorem order_next (h : Turn on l before x after) :
    order on (next on l) = (order on l).rotate 1 := by
  have hOff : before.filter on = [] := by
    rw [List.filter_eq_nil_iff]
    intro y hy
    simp [h.off y hy]
  rw [h.order_eq, order, h.next_eq]
  simp [List.filter_append, hOff, h.on]

end Turn

theorem exists_on_next (h : ∃ x ∈ l, on x = true) :
    ∃ x ∈ next on l, on x = true := by
  obtain ⟨x, hx, hOn⟩ := h
  exact ⟨x, List.mem_rotate.2 hx, hOn⟩

theorem exists_on_iterate (h : ∃ x ∈ l, on x = true) (n : Nat) :
    ∃ x ∈ (next on)^[n] l, on x = true := by
  induction n generalizing l with
  | zero => exact h
  | succ n ih => exact ih (exists_on_next h)

theorem iterate_isRotated (on : α → Bool) (l : List α) (n : Nat) :
    (next on)^[n] l ~r l := by
  induction n generalizing l with
  | zero => exact List.IsRotated.refl l
  | succ n ih => exact (ih (next on l)).trans (List.IsRotated.forall l _)

theorem order_iterate (h : ∃ x ∈ l, on x = true) (n : Nat) :
    order on ((next on)^[n] l) = (order on l).rotate n := by
  induction n generalizing l with
  | zero => simp
  | succ n ih =>
      obtain ⟨before, x, after, hTurn⟩ := exists_turn h
      rw [Function.iterate_succ_apply, ih (exists_on_next h), hTurn.order_next,
        List.rotate_rotate, Nat.add_comm]

theorem order_ne_nil (h : ∃ x ∈ l, on x = true) : order on l ≠ [] := by
  obtain ⟨before, x, after, hTurn⟩ := exists_turn h
  rw [hTurn.order_eq]
  exact List.cons_ne_nil _ _

/-- The element served in each turn: the order of service, around and
around. -/
theorem head_iterate (h : ∃ x ∈ l, on x = true) (n : Nat) :
    ((next on)^[n + 1] l).head? =
      (order on l)[n % (order on l).length]? := by
  obtain ⟨before, x, after, hTurn⟩ := exists_turn (exists_on_iterate h n)
  have hOrder := order_iterate h n
  have hPos : 0 < (order on l).length :=
    List.length_pos_iff.2 (order_ne_nil h)
  rw [hTurn.order_eq] at hOrder
  rw [Function.iterate_succ_apply', hTurn.next_eq, List.cons_append,
    List.head?_cons, ← List.head?_rotate (Nat.mod_lt n hPos), List.rotate_mod,
    ← hOrder, List.head?_cons]

/-- What an element is known by may stand for it. -/
theorem map_next {β : Type} (f : β → α) (l : List β) :
    (next (on ∘ f) l).map f = next on (l.map f) := by
  have hDistance : distance on (l.map f) = distance (on ∘ f) l := by
    rw [distance, distance, ← List.map_rotate, List.findIdx_map]
  rw [next, next, hDistance, List.map_rotate]

theorem map_order {β : Type} (f : β → α) (l : List β) :
    (order (on ∘ f) l).map f = order on (l.map f) := by
  rw [order, order, ← List.map_rotate, List.filter_map]

end CompE.Library.RoundRobin
