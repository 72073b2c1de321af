import CompE.Library.Machine

/-!
# Two runs: what is left when inputs are deleted

Noninterference is a statement about two runs: one with everything in it, and
one with only the inputs that concern an observer.  Which inputs concern the
observer, and what they are for a machine that knows only the observer's part
of the state, may depend on the state of the full run; `project` deletes the
others.

`Machine.unwinding` is the one induction: a relation between the states of the
two runs that is kept by every projected input on both sides, and by every
deleted input on the left, makes the two runs look the same to the observer.
-/

namespace CompE.Library.Machine

variable {State State' Input Input' Event : Type}

/-- The inputs of a run that concern the observer. -/
def project (M : Machine State Input Event)
    (view : State → Input → Option Input') (s : State) :
    List Input → List Input'
  | [] => []
  | i :: is =>
      match view s i with
      | none => M.project view (M.step s i) is
      | some j => j :: M.project view (M.step s i) is

/-- The events that the inputs of the observer have in the full run. -/
def viewEvents (M : Machine State Input Event)
    (view : State → Input → Option Input') (s : State) :
    List Input → List Event
  | [] => []
  | i :: is =>
      match view s i with
      | none => M.viewEvents view (M.step s i) is
      | some _ => M.emit s i ++ M.viewEvents view (M.step s i) is

section Restrict

variable (M : Machine State Input Event) (p : State → Input → Prop)
  (view : State → Input → Option Input')

/-- A narrower environment has the same projections. -/
theorem restrict_project (s : State) (is : List Input) :
    (M.restrict p).project view s is = M.project view s is := by
  induction is generalizing s with
  | nil => rfl
  | cons i is ih =>
      simp only [project]
      rw [ih]
      rfl

theorem restrict_viewEvents (s : State) (is : List Input) :
    (M.restrict p).viewEvents view s is = M.viewEvents view s is := by
  induction is generalizing s with
  | nil => rfl
  | cons i is ih =>
      simp only [viewEvents]
      rw [ih]
      rfl

end Restrict

/--
**Unwinding.**  If a relation between the states of a machine and of the
observer's machine is kept by every input of the observer, with the same
events, and by every other input of the first one alone, then every run and
its projection have the same events for the observer and end in related
states.
-/
theorem unwinding (M : Machine State Input Event)
    (N : Machine State' Input' Event) {view : State → Input → Option Input'}
    {R : State → State' → Prop}
    (hKeep : ∀ s t i j, R s t → M.legal s i → view s i = some j →
      N.legal t j → M.emit s i = N.emit t j ∧ R (M.step s i) (N.step t j))
    (hDrop : ∀ s t i, R s t → M.legal s i → view s i = none →
      R (M.step s i) t) :
    ∀ (is : List Input) (s : State) (t : State'), R s t → M.Legal s is →
      N.Legal t (M.project view s is) →
        M.viewEvents view s is = N.events t (M.project view s is) ∧
          R (M.run s is) (N.run t (M.project view s is)) := by
  intro is
  induction is with
  | nil => intro s t hR _ _; exact ⟨rfl, hR⟩
  | cons i is ih =>
      intro s t hR hLegal hOther
      cases hView : view s i with
      | none =>
          simp only [project, viewEvents, run, hView] at hOther ⊢
          exact ih _ t (hDrop s t i hR hLegal.1 hView) hLegal.2 hOther
      | some j =>
          simp only [project, viewEvents, run, events, hView] at hOther ⊢
          obtain ⟨hEmit, hNext⟩ := hKeep s t i j hR hLegal.1 hView hOther.1
          obtain ⟨hRest, hEnd⟩ := ih _ _ hNext hLegal.2 hOther.2
          exact ⟨by rw [hEmit, hRest], hEnd⟩

/-- The observer's state after an input of the full run. -/
def follow (N : Machine State' Input' Event) (t : State') :
    Option Input' → State'
  | none => t
  | some j => N.step t j

theorem run_project_cons (M : Machine State Input Event)
    (N : Machine State' Input' Event) (view : State → Input → Option Input')
    (s : State) (t : State') (i : Input) (is : List Input) :
    N.run t (M.project view s (i :: is)) =
      N.run (N.follow t (view s i)) (M.project view (M.step s i) is) := by
  simp only [project]
  cases view s i with
  | none => rfl
  | some j => rfl

/--
**Unwinding, step by step.**  If an invariant of the two runs decides, for
every input of the full run, whether the states stay related, then the states
are related after every prefix of exactly those runs whose inputs all keep
them so.
-/
theorem unwinding_iff (M : Machine State Input Event)
    (N : Machine State' Input' Event) {view : State → Input → Option Input'}
    {I R : State → State' → Prop} {q : State → Input → Prop}
    (hStep : ∀ s t i, I s t → R s t →
      (R (M.step s i) (N.follow t (view s i)) ↔ q s i) ∧
        I (M.step s i) (N.follow t (view s i))) :
    ∀ (is : List Input) (s : State) (t : State'), I s t → R s t →
      ((∀ pre, pre <+: is →
          R (M.run s pre) (N.run t (M.project view s pre))) ↔
        M.Always q s is) := by
  intro is
  induction is with
  | nil =>
      intro s t _ hR
      refine ⟨fun _ => trivial, fun _ pre hPre => ?_⟩
      rw [List.prefix_nil.1 hPre]
      exact hR
  | cons i is ih =>
      intro s t hI hR
      obtain ⟨hHere, hNext⟩ := hStep s t i hI hR
      constructor
      · intro hAll
        have hTail : ∀ pre, pre <+: is →
            R (M.run (M.step s i) pre) (N.run (N.follow t (view s i))
              (M.project view (M.step s i) pre)) := by
          intro pre hPre
          rw [← run_project_cons]
          exact hAll (i :: pre) (List.cons_prefix_cons.2 ⟨rfl, hPre⟩)
        have hNow := hTail [] List.nil_prefix
        exact ⟨hHere.1 hNow, (ih _ _ hNext hNow).1 hTail⟩
      · rintro ⟨hq, hAlways⟩ pre hPre
        cases pre with
        | nil => exact hR
        | cons i' pre =>
            obtain ⟨rfl, hRest⟩ := List.cons_prefix_cons.1 hPre
            rw [run_project_cons]
            exact (ih _ _ hNext (hHere.2 hq)).2 hAlways pre hRest

end CompE.Library.Machine
