import CompE.Library.Machine

/-!
# Bounded queues

A queue of at most `cap` words behind a valid-ready input and a valid-yumi
output.  What is seen of it in one cycle is a `Cycle`: the two requests and
the three outputs.  `queue cap` says which cycles a queue shows and what they
do to it.  Whatever it accepts conserves the words: those taken in are those
given out, in order, and those still there (`conservation`).
-/

namespace CompE.Library.BoundedQueue

variable {Word : Type}

/-- One cycle at the ports of a queue. -/
structure Cycle (Word : Type) where
  valid : Bool
  input : Word
  yumi : Bool
  readyOut : Bool
  validOut : Bool
  output : Word

/-- The word that goes in. -/
def Cycle.enqueued (c : Cycle Word) : List Word :=
  if c.valid && c.readyOut then [c.input] else []

/-- The word that comes out. -/
def Cycle.dequeued (c : Cycle Word) : List Word :=
  if c.yumi && c.validOut then [c.output] else []

/-- A queue shows whether there is room and whether there is a word, and which
one is the first.  The first leaves on `yumi`, the input enters at the end. -/
def queue (Word : Type) (cap : Nat) : Acceptor (List Word) (Cycle Word) where
  good t c :=
    c.readyOut = decide (t.length < cap) ∧ c.validOut = decide (t ≠ []) ∧
      ∀ w, t.head? = some w → c.output = w
  next t c := t.drop c.dequeued.length ++ c.enqueued

/-- The words that went in over a sequence of cycles. -/
def enqueued (cs : List (Cycle Word)) : List Word := cs.flatMap Cycle.enqueued

/-- The words that came out over a sequence of cycles. -/
def dequeued (cs : List (Cycle Word)) : List Word := cs.flatMap Cycle.dequeued

/-- What comes out in an accepted cycle is the head. -/
theorem dequeued_append_drop {cap : Nat} {t : List Word} {c : Cycle Word}
    (hGood : (queue Word cap).good t c) :
    c.dequeued ++ t.drop c.dequeued.length = t := by
  obtain ⟨_, hValid, hHead⟩ := hGood
  cases hOut : (c.yumi && c.validOut) with
  | false => simp [Cycle.dequeued, hOut]
  | true =>
      rw [Bool.and_eq_true] at hOut
      rw [hOut.2] at hValid
      cases t with
      | nil => simp at hValid
      | cons w rest =>
          have hFirst : c.output = w := hHead w rfl
          simp [Cycle.dequeued, hOut, hFirst]

/-- **Conservation.**  Nothing is lost, duplicated or reordered. -/
theorem conservation {cap : Nat} (cs : List (Cycle Word)) :
    ∀ t : List Word, (queue Word cap).Accepts t cs →
      t ++ enqueued cs = dequeued cs ++ (queue Word cap).after t cs := by
  induction cs with
  | nil => intro t _; simp [enqueued, dequeued, Acceptor.after]
  | cons c cs ih =>
      intro t hAcc
      have hRest := ih _ hAcc.2
      have hFirst := dequeued_append_drop hAcc.1
      have hNext : (queue Word cap).next t c =
        t.drop c.dequeued.length ++ c.enqueued := rfl
      simp only [enqueued, dequeued, List.flatMap_cons, Acceptor.after] at *
      rw [List.append_assoc, ← hRest, hNext, ← List.append_assoc,
        ← List.append_assoc, ← List.append_assoc, hFirst]

end CompE.Library.BoundedQueue
