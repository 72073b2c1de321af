/-!
# Clocked machines, their runs, and simulation by an acceptor

A synchronous design is a step function on states, driven by one input per
clock cycle.  Each cycle emits a finite list of observable events, and the
environment is constrained by a predicate on the current state and input (a
request line that must be held, a handshake that must be respected).

The specification side is an *acceptor*: a state that says which events are
allowed next and how an event moves it.  `Machine.simulates` is the one
induction of the package: a relation preserved by a single legal cycle makes
every event of every legal run acceptable.  The designs below instantiate it
and prove only the one-cycle obligation.

This module deliberately imports nothing and names no design.
-/

namespace CompE.Library

/-- A clocked machine: the state after the clock edge, the events of the
cycle, and what the environment is allowed to drive. -/
structure Machine (State Input Event : Type) where
  step : State → Input → State
  emit : State → Input → List Event
  legal : State → Input → Prop

namespace Machine

variable {State Input Event : Type} (M : Machine State Input Event)

/-- The state after a finite input sequence. -/
def run (s : State) : List Input → State
  | [] => s
  | i :: is => run (M.step s i) is

/-- The events of a finite input sequence, oldest first. -/
def events (s : State) : List Input → List Event
  | [] => []
  | i :: is => M.emit s i ++ events (M.step s i) is

/-- `p` holds in every cycle of the input sequence. -/
def Always (p : State → Input → Prop) (s : State) : List Input → Prop
  | [] => True
  | i :: is => p s i ∧ Always p (M.step s i) is

/-- Every cycle of the input sequence is one the environment may drive. -/
def Legal (s : State) (is : List Input) : Prop := M.Always M.legal s is

instance decidableAlways (p : State → Input → Prop)
    [∀ s i, Decidable (p s i)] (s : State) (is : List Input) :
    Decidable (M.Always p s is) :=
  match is with
  | [] => .isTrue trivial
  | i :: is =>
      have := decidableAlways p (M.step s i) is
      inferInstanceAs (Decidable (p s i ∧ M.Always p (M.step s i) is))

instance decidableLegal [∀ s i, Decidable (M.legal s i)] (s : State)
    (is : List Input) : Decidable (M.Legal s is) :=
  M.decidableAlways M.legal s is

theorem run_append (s : State) (is js : List Input) :
    M.run s (is ++ js) = M.run (M.run s is) js := by
  induction is generalizing s with
  | nil => rfl
  | cons i is ih => exact ih (M.step s i)

theorem always_append (p : State → Input → Prop) (s : State)
    (is js : List Input) : M.Always p s (is ++ js) ↔
      M.Always p s is ∧ M.Always p (M.run s is) js := by
  induction is generalizing s with
  | nil => simp [Always, run]
  | cons i is ih => simp only [List.cons_append, Always, run, ih, and_assoc]

theorem legal_append (s : State) (is js : List Input) :
    M.Legal s (is ++ js) ↔ M.Legal s is ∧ M.Legal (M.run s is) js :=
  M.always_append M.legal s is js

theorem always_of_forall {p : State → Input → Prop} (h : ∀ s i, p s i)
    (s : State) (is : List Input) : M.Always p s is := by
  induction is generalizing s with
  | nil => trivial
  | cons i is ih => exact ⟨h s i, ih _⟩

theorem always_mono {p q : State → Input → Prop} (h : ∀ s i, p s i → q s i)
    {s : State} {is : List Input} (hAlways : M.Always p s is) :
    M.Always q s is := by
  induction is generalizing s with
  | nil => trivial
  | cons i is ih => exact ⟨h s i hAlways.1, ih hAlways.2⟩

/-- What holds after every part of a run is what every cycle leaves. -/
theorem always_step_iff {P : State → Prop} (is : List Input) (s : State) (h : P s) :
    M.Always (fun s i => P (M.step s i)) s is ↔
      ∀ seen, seen <+: is → P (M.run s seen) := by
  induction is generalizing s with
  | nil =>
      constructor
      · intro _ seen hSeen
        rw [List.prefix_nil.mp hSeen]
        exact h
      · intro _
        trivial
  | cons i is ih =>
      constructor
      · intro hAlways seen hSeen
        cases seen with
        | nil => exact h
        | cons j seen =>
            obtain ⟨rfl, hRest⟩ := List.cons_prefix_cons.mp hSeen
            exact (ih (M.step s j) hAlways.1).mp hAlways.2 seen hRest
      · intro hAll
        have hFirst : P (M.step s i) := hAll [i] ⟨is, rfl⟩
        refine ⟨hFirst, (ih (M.step s i) hFirst).mpr ?_⟩
        intro seen hSeen
        exact hAll (i :: seen) (List.cons_prefix_cons.mpr ⟨rfl, hSeen⟩)

/-- A view of the state follows a rule over the whole of a run if and only if it
does in every cycle. -/
theorem tracks_iff {View : Type} (view : State → View) (move : View → Input → View)
    (is : List Input) (s : State) :
    (∀ seen, seen <+: is → view (M.run s seen) = seen.foldl move (view s)) ↔
      M.Always (fun s i => view (M.step s i) = move (view s) i) s is := by
  induction is generalizing s with
  | nil =>
      constructor
      · intro _
        trivial
      · intro _ seen hSeen
        rw [List.prefix_nil.mp hSeen]
        rfl
  | cons i is ih =>
      constructor
      · intro hAll
        have hFirst : view (M.step s i) = move (view s) i := hAll [i] ⟨is, rfl⟩
        refine ⟨hFirst, (ih (M.step s i)).mp ?_⟩
        intro seen hSeen
        rw [hFirst]
        exact hAll (i :: seen) (List.cons_prefix_cons.mpr ⟨rfl, hSeen⟩)
      · intro hAlways seen hSeen
        cases seen with
        | nil => rfl
        | cons j seen =>
            obtain ⟨rfl, hRest⟩ := List.cons_prefix_cons.mp hSeen
            rw [List.foldl_cons, ← hAlways.1]
            exact (ih (M.step s j)).mpr hAlways.2 seen hRest

/-- The events of a run are those of its cycles. -/
theorem events_forall_iff {P : Event → Prop} (is : List Input) (s : State) :
    (∀ e ∈ M.events s is, P e) ↔ M.Always (fun s i => ∀ e ∈ M.emit s i, P e) s is := by
  induction is generalizing s with
  | nil => simp [events, Always]
  | cons i is ih => rw [events, List.forall_mem_append, ih, Always]

/-- A property kept by every legal cycle holds after every legal run. -/
theorem run_invariant {I : State → Prop}
    (hStep : ∀ s i, I s → M.legal s i → I (M.step s i)) :
    ∀ (is : List Input) (s : State), I s → M.Legal s is →
      I (M.run s is) := by
  intro is
  induction is with
  | nil => intro s hInv _; exact hInv
  | cons i is ih =>
      intro s hInv hLegal
      exact ih (M.step s i) (hStep s i hInv hLegal.1) hLegal.2

/-- If every cycle that meets `q` keeps the invariant and has property `p`,
then so do all cycles of a run that meet `q`. -/
theorem always_of_invariant {I : State → Prop} {p q : State → Input → Prop}
    (hStep : ∀ s i, I s → M.legal s i → q s i → p s i ∧ I (M.step s i)) :
    ∀ (is : List Input) (s : State), I s → M.Legal s is →
      M.Always q s is → M.Always p s is := by
  intro is
  induction is with
  | nil => intro s _ _ _; trivial
  | cons i is ih =>
      intro s hInv hLegal hAlways
      obtain ⟨hHere, hNext⟩ := hStep s i hInv hLegal.1 hAlways.1
      exact ⟨hHere, ih (M.step s i) hNext hLegal.2 hAlways.2⟩

/-- If moreover no other cycle has property `p`, the runs with `p` are exactly
the runs that meet `q`. -/
theorem always_iff_of_invariant {I : State → Prop}
    {p q : State → Input → Prop}
    (hStep : ∀ s i, I s → M.legal s i → q s i → p s i ∧ I (M.step s i))
    (hOnly : ∀ s i, I s → M.legal s i → p s i → q s i) :
    ∀ (is : List Input) (s : State), I s → M.Legal s is →
      (M.Always p s is ↔ M.Always q s is) := by
  intro is s hInv hLegal
  refine ⟨?_, M.always_of_invariant hStep is s hInv hLegal⟩
  induction is generalizing s with
  | nil => intro _; trivial
  | cons i is ih =>
      intro hAlways
      have hHere := hOnly s i hInv hLegal.1 hAlways.1
      obtain ⟨_, hNext⟩ := hStep s i hInv hLegal.1 hHere
      exact ⟨hHere, ih (M.step s i) hNext hLegal.2 hAlways.2⟩

/-- The same machine in a narrower environment. -/
def restrict (p : State → Input → Prop) : Machine State Input Event :=
  { M with legal := fun s i => M.legal s i ∧ p s i }

theorem restrict_legal (p : State → Input → Prop) (s : State)
    (is : List Input) :
    (M.restrict p).Legal s is ↔ M.Legal s is ∧ M.Always p s is := by
  induction is generalizing s with
  | nil => simp [Legal, Always]
  | cons i is ih =>
      have hTail := ih (M.step s i)
      simp only [Legal, Always, restrict] at hTail ⊢
      rw [hTail]
      grind

theorem restrict_events (p : State → Input → Prop) (s : State)
    (is : List Input) : (M.restrict p).events s is = M.events s is := by
  induction is generalizing s with
  | nil => rfl
  | cons i is ih =>
      simp only [events]
      rw [ih]
      rfl

/-- The number of cycles of an input sequence in which `p` holds. -/
def count (p : State → Input → Bool) (s : State) : List Input → Nat
  | [] => 0
  | i :: is => (if p s i then 1 else 0) + count p (M.step s i) is

/-- A rank that every legal cycle keeps or lowers, and that a counted cycle
lowers, bounds the number of counted cycles. -/
theorem count_le_rank {I : State → Prop} (p : State → Input → Bool)
    (rank : State → Nat)
    (hStep : ∀ s i, I s → M.legal s i → I (M.step s i) ∧
      (if p s i then 1 else 0) + rank (M.step s i) ≤ rank s) :
    ∀ (is : List Input) (s : State), I s → M.Legal s is →
      M.count p s is ≤ rank s := by
  intro is
  induction is with
  | nil => intro s _ _; exact Nat.zero_le _
  | cons i is ih =>
      intro s hInv hLegal
      obtain ⟨hNext, hRank⟩ := hStep s i hInv hLegal.1
      have hRest := ih (M.step s i) hNext hLegal.2
      simp only [count]
      omega

end Machine

/-- A specification as an acceptor of event sequences. -/
structure Acceptor (Spec Event : Type) where
  good : Spec → Event → Prop
  next : Spec → Event → Spec

namespace Acceptor

variable {Spec Event : Type} (A : Acceptor Spec Event)

/-- The specification state after a sequence of events. -/
def after (t : Spec) : List Event → Spec
  | [] => t
  | e :: es => after (A.next t e) es

/-- Every event of the sequence is allowed where it occurs. -/
def Accepts (t : Spec) : List Event → Prop
  | [] => True
  | e :: es => A.good t e ∧ Accepts (A.next t e) es

theorem after_append (t : Spec) (es fs : List Event) :
    A.after t (es ++ fs) = A.after (A.after t es) fs := by
  induction es generalizing t with
  | nil => rfl
  | cons e es ih => exact ih (A.next t e)

theorem accepts_append (t : Spec) (es fs : List Event) :
    A.Accepts t (es ++ fs) ↔ A.Accepts t es ∧ A.Accepts (A.after t es) fs := by
  induction es generalizing t with
  | nil => simp [Accepts, after]
  | cons e es ih => simp only [List.cons_append, Accepts, after, ih, and_assoc]

instance decidableAccepts [∀ t e, Decidable (A.good t e)] (t : Spec)
    (es : List Event) : Decidable (A.Accepts t es) :=
  match es with
  | [] => .isTrue trivial
  | e :: es =>
      have := decidableAccepts (A.next t e) es
      inferInstanceAs (Decidable (A.good t e ∧ A.Accepts (A.next t e) es))

/-- An event of an accepted sequence is allowed after the events before it. -/
theorem Accepts.good_of_split {t : Spec} {pre post : List Event} {e : Event}
    (h : A.Accepts t (pre ++ e :: post)) : A.good (A.after t pre) e :=
  ((A.accepts_append t pre (e :: post)).1 h).2.1

end Acceptor

/--
**Simulation.**  If a relation between machine and specification states is
kept by one legal cycle, whose events the specification accepts, then every
legal run is accepted and ends in related states.
-/
theorem Machine.simulates {State Input Event Spec : Type}
    (M : Machine State Input Event) (A : Acceptor Spec Event)
    {R : State → Spec → Prop}
    (hStep : ∀ s t i, R s t → M.legal s i →
      A.Accepts t (M.emit s i) ∧ R (M.step s i) (A.after t (M.emit s i))) :
    ∀ (is : List Input) (s : State) (t : Spec), R s t → M.Legal s is →
      A.Accepts t (M.events s is) ∧
        R (M.run s is) (A.after t (M.events s is)) := by
  intro is
  induction is with
  | nil => intro s t hR _; exact ⟨trivial, hR⟩
  | cons i is ih =>
      intro s t hR hLegal
      obtain ⟨hAcc, hNext⟩ := hStep s t i hR hLegal.1
      obtain ⟨hRest, hEnd⟩ := ih _ _ hNext hLegal.2
      constructor
      · exact (A.accepts_append t _ _).2 ⟨hAcc, hRest⟩
      · simpa only [Machine.events, Machine.run, A.after_append] using hEnd

/--
**Following a specification.**  If the relation is kept by every legal cycle
whose events the specification accepts, then it holds after every legal run
that is accepted.
-/
theorem Machine.follows {State Input Event Spec : Type}
    (M : Machine State Input Event) (A : Acceptor Spec Event)
    {R : State → Spec → Prop}
    (hStep : ∀ s t i, R s t → M.legal s i → A.Accepts t (M.emit s i) →
      R (M.step s i) (A.after t (M.emit s i))) :
    ∀ (is : List Input) (s : State) (t : Spec), R s t → M.Legal s is →
      A.Accepts t (M.events s is) →
      R (M.run s is) (A.after t (M.events s is)) := by
  intro is
  induction is with
  | nil => intro s t hR _ _; exact hR
  | cons i is ih =>
      intro s t hR hLegal hAccepts
      obtain ⟨hHere, hRest⟩ := (A.accepts_append t _ _).1 hAccepts
      have hNext := hStep s t i hR hLegal.1 hHere
      rw [Machine.events, A.after_append]
      exact ih _ _ hNext hLegal.2 hRest

end CompE.Library
