import Mathlib.Logic.Function.Basic

/-!
# Process trees in which a parent waits for its child

The processes of a system that runs a child to completion before its parent
goes on: a set of live processes and, for each, the process that started it.
A process with a live child waits, so that it has at most one.

The two operations are `spawn` and `exit`.  For each of them there is one
lemma on the shape of the tree and one on who waits afterwards.
-/

namespace CompE.Library

/-- Which processes are live, and who started each of them. -/
structure ProcessTree (α : Type) where
  live : α → Prop
  parent : α → Option α

namespace ProcessTree

variable {α : Type} (t : ProcessTree α)

/-- `p` waits for a child. -/
def HasChild (p : α) : Prop := ∃ c, t.live c ∧ t.parent c = some p

/-- Parents are live, and have one child at a time. -/
structure WellFormed : Prop where
  parent_live : ∀ c p, t.live c → t.parent c = some p → t.live p
  parent_ne : ∀ c, t.live c → t.parent c ≠ some c
  only_child : ∀ c d p, t.live c → t.live d → t.parent c = some p →
    t.parent d = some p → c = d

/-- `c` is started, by `p` or as a root. -/
def spawn [DecidableEq α] (p : Option α) (c : α) : ProcessTree α where
  live := fun q => q = c ∨ t.live q
  parent := Function.update t.parent c p

/-- `p` ends. -/
def exit (p : α) : ProcessTree α where
  live := fun q => q ≠ p ∧ t.live q
  parent := t.parent

variable {t}

/-- The tree with no process. -/
theorem wellFormed_empty (parent : α → Option α) :
    WellFormed ⟨fun _ => False, parent⟩ where
  parent_live := fun _ _ h => h.elim
  parent_ne := fun _ h => h.elim
  only_child := fun _ _ _ h => h.elim

/-- Nobody waits for a process that is not there yet. -/
theorem WellFormed.not_hasChild {c : α} (hTree : t.WellFormed) (hNew : ¬ t.live c) :
    ¬ t.HasChild c := by
  rintro ⟨d, hLive, hLink⟩
  exact hNew (hTree.parent_live d c hLive hLink)

section Spawn

variable [DecidableEq α] {p : Option α} {c : α}

@[simp] theorem spawn_parent_self : (t.spawn p c).parent c = p := by
  simp [spawn]

theorem spawn_parent_of_ne {q : α} (h : q ≠ c) :
    (t.spawn p c).parent q = t.parent q := by
  simp [spawn, h]

/-- Starting a new process keeps the shape, if its parent did not wait. -/
theorem WellFormed.spawn (hTree : t.WellFormed) (hNew : ¬ t.live c)
    (hParent : ∀ q, p = some q → t.live q ∧ ¬ t.HasChild q) :
    (t.spawn p c).WellFormed where
  parent_live := by
    intro d q hLive hLink
    by_cases hd : d = c
    · subst hd
      rw [spawn_parent_self] at hLink
      exact Or.inr (hParent q hLink).1
    · rw [spawn_parent_of_ne hd] at hLink
      exact Or.inr (hTree.parent_live d q (hLive.resolve_left hd) hLink)
  parent_ne := by
    intro d hLive hLink
    by_cases hd : d = c
    · subst hd
      rw [spawn_parent_self] at hLink
      exact hNew (hParent d hLink).1
    · rw [spawn_parent_of_ne hd] at hLink
      exact hTree.parent_ne d (hLive.resolve_left hd) hLink
  only_child := by
    intro d e q hd he hdLink heLink
    by_cases hdc : d = c
    · by_cases hec : e = c
      · rw [hdc, hec]
      · subst hdc
        rw [spawn_parent_self] at hdLink
        rw [spawn_parent_of_ne hec] at heLink
        exact absurd ⟨e, he.resolve_left hec, heLink⟩ (hParent q hdLink).2
    · by_cases hec : e = c
      · subst hec
        rw [spawn_parent_self] at heLink
        rw [spawn_parent_of_ne hdc] at hdLink
        exact absurd ⟨d, hd.resolve_left hdc, hdLink⟩ (hParent q heLink).2
      · rw [spawn_parent_of_ne hdc] at hdLink
        rw [spawn_parent_of_ne hec] at heLink
        exact hTree.only_child d e q (hd.resolve_left hdc)
          (he.resolve_left hec) hdLink heLink

/-- After a start its parent waits, and whoever waited before. -/
theorem hasChild_spawn (hNew : ¬ t.live c) (q : α) :
    (t.spawn p c).HasChild q ↔ p = some q ∨ t.HasChild q := by
  constructor
  · rintro ⟨d, hLive, hLink⟩
    by_cases hd : d = c
    · subst hd
      rw [spawn_parent_self] at hLink
      exact Or.inl hLink
    · rw [spawn_parent_of_ne hd] at hLink
      exact Or.inr ⟨d, hLive.resolve_left hd, hLink⟩
  · rintro (hLink | ⟨d, hLive, hLink⟩)
    · exact ⟨c, Or.inl rfl, by rw [spawn_parent_self, hLink]⟩
    · have hd : d ≠ c := by intro h; exact hNew (h ▸ hLive)
      exact ⟨d, Or.inr hLive, by rw [spawn_parent_of_ne hd, hLink]⟩

end Spawn

section Exit

variable {p : α}

/-- The end of a process that does not wait keeps the shape. -/
theorem WellFormed.exit (hTree : t.WellFormed) (hIdle : ¬ t.HasChild p) :
    (t.exit p).WellFormed where
  parent_live := by
    intro c q hLive hLink
    refine ⟨?_, hTree.parent_live c q hLive.2 hLink⟩
    intro hq
    subst hq
    exact hIdle ⟨c, hLive.2, hLink⟩
  parent_ne := fun c hLive => hTree.parent_ne c hLive.2
  only_child := fun c d q hc hd => hTree.only_child c d q hc.2 hd.2

/-- The parent of a process that ended waits no longer. -/
theorem WellFormed.hasChild_exit (hTree : t.WellFormed) {q : α}
    (hLive : t.live p) (hLink : t.parent p = some q) (r : α) :
    (t.exit p).HasChild r ↔ r ≠ q ∧ t.HasChild r := by
  constructor
  · rintro ⟨d, ⟨hNe, hd⟩, hdLink⟩
    refine ⟨?_, d, hd, hdLink⟩
    intro hr
    subst hr
    exact hNe (hTree.only_child d p r hd hLive hdLink hLink)
  · rintro ⟨hNe, d, hd, hdLink⟩
    refine ⟨d, ⟨?_, hd⟩, hdLink⟩
    intro h
    subst h
    rw [hLink] at hdLink
    exact hNe (Option.some.inj hdLink).symm

end Exit

end ProcessTree

end CompE.Library
