/-!
# Programs with a state that may fail

A program reads and writes a state, and may fail: follow a pointer that is
null, or walk further than there is anything to walk over.  `Triple P m Q`
says that from any state with `P` the program does not fail, and that `Q` holds
of its result and of the state it leaves.

`Yields P m Q` says of the ends that `m` has only that `Q` holds there; a program
has one end at most, so what is shown of it in the one way and in the other holds
together (`Triple.and`).

There is one rule for each way to build a program.
-/

namespace CompE.Library

variable {σ α β : Type}

/-- From `P` the program ends, with `Q`. -/
def Triple (P : σ → Prop) (m : StateT σ Option α) (Q : α → σ → Prop) : Prop :=
  ∀ s, P s → ∃ a s', m.run s = some (a, s') ∧ Q a s'

/-- If the program ends from `P`, then with `Q`. -/
structure Yields (P : σ → Prop) (m : StateT σ Option α) (Q : α → σ → Prop) :
    Prop where
  ends : ∀ s a s', P s → m.run s = some (a, s') → Q a s'

/-- Follow a pointer, if it is not null. -/
def deref (p : Option α) : StateT σ Option α :=
  fun s => p.map fun a => (a, s)

namespace Triple

variable {P P' : σ → Prop} {Q Q' : α → σ → Prop}

theorem conseq {m : StateT σ Option α} (h : Triple P m Q)
    (hPre : ∀ s, P' s → P s) (hPost : ∀ a s, Q a s → Q' a s) :
    Triple P' m Q' := by
  intro s hs
  obtain ⟨a, s', hRun, hQ⟩ := h s (hPre s hs)
  exact ⟨a, s', hRun, hPost a s' hQ⟩

/-- One initial state at a time. -/
theorem of_state {m : StateT σ Option α}
    (h : ∀ s, P s → Triple (fun s' => s' = s) m Q) : Triple P m Q := by
  intro s hs
  exact h s hs s rfl

theorem pure {a : α} (h : ∀ s, P s → Q a s) : Triple P (Pure.pure a) Q := by
  intro s hs
  exact ⟨a, s, rfl, h s hs⟩

theorem bind {m : StateT σ Option α} {f : α → StateT σ Option β}
    {R : β → σ → Prop} (h : Triple P m Q) (hNext : ∀ a, Triple (Q a) (f a) R) :
    Triple P (m >>= f) R := by
  intro s hs
  obtain ⟨a, s', hRun, hQ⟩ := h s hs
  obtain ⟨b, s'', hRest, hR⟩ := hNext a s' hQ
  refine ⟨b, s'', ?_, hR⟩
  rw [StateT.run_bind, hRun]
  exact hRest

/-- What is read is the state that `P` is about. -/
theorem get_bind {f : σ → StateT σ Option α}
    (h : ∀ s, P s → Triple (fun s' => s' = s) (f s) Q) :
    Triple P (get >>= f) Q := by
  intro s hs
  exact h s hs s rfl

theorem deref_bind {p : Option α} {a : α} {f : α → StateT σ Option β}
    {R : β → σ → Prop} (hp : p = some a) (h : Triple P (f a) R) :
    Triple P (deref p >>= f) R := by
  subst hp
  exact h

theorem set {s' : σ} {Q : PUnit → σ → Prop} (h : Q ⟨⟩ s') :
    Triple P (set s') Q := by
  intro s _
  exact ⟨⟨⟩, s', rfl, h⟩

theorem modify {f : σ → σ} {Q : PUnit → σ → Prop} (h : ∀ s, P s → Q ⟨⟩ (f s)) :
    Triple P (modify f) Q := by
  intro s hs
  exact ⟨⟨⟩, f s, rfl, h s hs⟩

theorem deref {p : Option α} {a : α} (hp : p = some a) (h : ∀ s, P s → Q a s) :
    Triple P (deref p) Q := by
  subst hp
  intro s hs
  exact ⟨a, s, rfl, h s hs⟩

theorem ite {c : Prop} [Decidable c] {m m' : StateT σ Option α}
    (h : c → Triple P m Q) (hElse : ¬ c → Triple P m' Q) :
    Triple P (if c then m else m') Q := by
  by_cases hc : c
  · rw [if_pos hc]
    exact h hc
  · rw [if_neg hc]
    exact hElse hc

/-- One program after another that went well; `F` holds if either does not. -/
theorem andThen {m m' : StateT σ Option Bool} {R S : σ → Prop} {F : Prop}
    (h : Triple P m fun ok s => if ok then R s else F)
    (hNext : Triple R m' fun ok s => if ok then S s else F) :
    Triple P (do let ok ← m; if ok then m' else return false) fun ok s =>
      if ok then S s else F := by
  apply bind h
  intro ok
  cases ok with
  | true => exact hNext
  | false =>
      apply pure
      intro s hF
      exact hF

/-- A loop over a list that stops at the first element that does not go well.
`I` is about the elements that are done. -/
theorem allM {I : List α → σ → Prop} {F : Prop} {f : α → StateT σ Option Bool}
    (as : List α)
    (h : ∀ done a rest, as = done ++ a :: rest →
      Triple (I done) (f a) fun ok s => if ok then I (done ++ [a]) s else F) :
    Triple (I []) (as.allM f) fun ok s => if ok then I as s else F := by
  have hFrom : ∀ done rest, as = done ++ rest →
      Triple (I done) (rest.allM f) fun ok s => if ok then I as s else F := by
    intro done rest
    induction rest generalizing done with
    | nil =>
        intro hAll
        rw [List.append_nil] at hAll
        subst hAll
        apply pure
        intro s hs
        exact hs
    | cons a rest ih =>
        intro hAll
        apply bind (h done a rest hAll)
        intro ok
        cases ok with
        | true =>
            apply ih
            rw [hAll, List.append_assoc]
            rfl
        | false =>
            apply pure
            intro s hF
            exact hF
  exact hFrom [] as rfl

/-- A program has one end. -/
theorem yields {m : StateT σ Option α} (h : Triple P m Q) : Yields P m Q := by
  constructor
  intro s a s' hs hRun
  obtain ⟨b, s'', hEnd, hQ⟩ := h s hs
  rw [hRun] at hEnd
  cases hEnd
  exact hQ

theorem and {m : StateT σ Option α} (h : Triple P m Q) (h' : Yields P m Q') :
    Triple P m fun a s => Q a s ∧ Q' a s := by
  intro s hs
  obtain ⟨a, s', hRun, hQ⟩ := h s hs
  exact ⟨a, s', hRun, hQ, h'.ends s a s' hs hRun⟩

end Triple

namespace Yields

variable {P P' : σ → Prop} {Q Q' : α → σ → Prop}

theorem conseq {m : StateT σ Option α} (h : Yields P m Q)
    (hPre : ∀ s, P' s → P s) (hPost : ∀ a s, Q a s → Q' a s) :
    Yields P' m Q' := by
  constructor
  intro s a s' hs hRun
  exact hPost a s' (h.ends s a s' (hPre s hs) hRun)

theorem and {m : StateT σ Option α} (h : Yields P m Q) (h' : Yields P' m Q') :
    Yields (fun s => P s ∧ P' s) m fun a s => Q a s ∧ Q' a s := by
  constructor
  intro s a s' hs hRun
  exact ⟨h.ends s a s' hs.1 hRun, h'.ends s a s' hs.2 hRun⟩

theorem pure {a : α} (h : ∀ s, P s → Q a s) : Yields P (Pure.pure a) Q := by
  constructor
  intro s b s' hs hRun
  cases hRun
  exact h s hs

theorem bind {m : StateT σ Option α} {f : α → StateT σ Option β}
    {R : β → σ → Prop} (h : Yields P m Q) (hNext : ∀ a, Yields (Q a) (f a) R) :
    Yields P (m >>= f) R := by
  constructor
  intro s b s'' hs hRun
  rw [StateT.run_bind, Option.bind_eq_bind, Option.bind_eq_some_iff] at hRun
  obtain ⟨⟨a, s'⟩, hFirst, hRest⟩ := hRun
  exact (hNext a).ends s' b s'' (h.ends s a s' hs hFirst) hRest

/-- What is read is the state that `P` is about. -/
theorem get_bind {f : σ → StateT σ Option α}
    (h : ∀ s, P s → Yields (fun s' => s' = s) (f s) Q) : Yields P (get >>= f) Q := by
  constructor
  intro s a s' hs hRun
  exact (h s hs).ends s a s' rfl hRun

theorem set {s' : σ} {Q : PUnit → σ → Prop} (h : Q ⟨⟩ s') : Yields P (set s') Q := by
  constructor
  intro s a s'' _ hRun
  cases hRun
  exact h

theorem modify {f : σ → σ} {Q : PUnit → σ → Prop} (h : ∀ s, P s → Q ⟨⟩ (f s)) :
    Yields P (modify f) Q := by
  constructor
  intro s a s' hs hRun
  cases hRun
  exact h s hs

/-- A pointer that was followed is not null. -/
theorem deref_bind {p : Option α} {f : α → StateT σ Option β} {R : β → σ → Prop}
    (h : ∀ a, p = some a → Yields P (f a) R) : Yields P (deref p >>= f) R := by
  cases p with
  | none =>
      constructor
      intro s b s' _ hRun
      exact nomatch hRun
  | some a => exact h a rfl

theorem deref {p : Option α} (h : ∀ a s, p = some a → P s → Q a s) :
    Yields P (deref p) Q := by
  cases p with
  | none =>
      constructor
      intro s a s' _ hRun
      exact nomatch hRun
  | some a =>
      constructor
      intro s b s' hs hRun
      cases hRun
      exact h a s rfl hs

theorem ite {c : Prop} [Decidable c] {m m' : StateT σ Option α}
    (h : c → Yields P m Q) (hElse : ¬ c → Yields P m' Q) :
    Yields P (if c then m else m') Q := by
  by_cases hc : c
  · rw [if_pos hc]
    exact h hc
  · rw [if_neg hc]
    exact hElse hc

/-- One program after another that went well. -/
theorem andThen {m m' : StateT σ Option Bool} {R S : σ → Prop}
    (h : Yields P m fun ok s => ok = true → R s)
    (hNext : Yields R m' fun ok s => ok = true → S s) :
    Yields P (do let ok ← m; if ok then m' else return false) fun ok s =>
      ok = true → S s := by
  apply bind h
  intro ok
  cases ok with
  | true => exact hNext.conseq (fun _ hs => hs rfl) fun _ _ hQ => hQ
  | false =>
      apply pure
      intro s _ hEq
      exact nomatch hEq

/-- A loop over a list that stops at the first element that does not go well. -/
theorem allM {I : List α → σ → Prop} {f : α → StateT σ Option Bool} (as : List α)
    (h : ∀ done a, Yields (I done) (f a) fun ok s => ok = true → I (done ++ [a]) s) :
    Yields (I []) (as.allM f) fun ok s => ok = true → I as s := by
  have hFrom : ∀ done rest, as = done ++ rest →
      Yields (I done) (rest.allM f) fun ok s => ok = true → I as s := by
    intro done rest
    induction rest generalizing done with
    | nil =>
        intro hAll
        rw [List.append_nil] at hAll
        subst hAll
        apply pure
        intro s hs _
        exact hs
    | cons a rest ih =>
        intro hAll
        apply bind (h done a)
        intro ok
        cases ok with
        | true =>
            apply (ih (done ++ [a]) _).conseq
            · intro s hs
              exact hs rfl
            · intro _ _ hQ
              exact hQ
            · rw [hAll, List.append_assoc]
              rfl
        | false =>
            apply pure
            intro s _ hEq
            exact nomatch hEq
  exact hFrom [] as rfl

end Yields

end CompE.Library
