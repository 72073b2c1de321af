import Mathlib.Logic.Function.Iterate

/-!
# Partial functions and recursion to a depth

A recursive function of a program becomes a partial function for each depth of
calls: `none` when it would have to go deeper.  That it ends is then a matter
of the results, which exist and are the same at all greater depths, `Settles`.
What a function may change is a relation between argument and result,
`Within`.  Where a total function on a part of the state says what the result
is, the partial one refines it, `Refines`.  All three pass through sequences and
loops.
-/

namespace CompE.Library

variable {α ι : Type}

/-- `n` rounds of a loop. -/
def repeatM (f : α → Option α) : Nat → α → Option α
  | 0, a => some a
  | n + 1, a => (f a).bind (repeatM f n)

/-! ## What a function may change -/

/-- Every result is related to its argument. -/
def Within (R : α → α → Prop) (f : α → Option α) : Prop :=
  ∀ a b, f a = some b → R a b

namespace Within

variable {R : α → α → Prop} {f g : α → Option α}

theorem none : Within R fun _ => none :=
  fun _ _ h => by cases h

theorem bind (hTrans : ∀ a b c, R a b → R b c → R a c) (hf : Within R f)
    (hg : Within R g) : Within R fun a => (f a).bind g := by
  intro a c h
  obtain ⟨b, hb, hc⟩ := Option.bind_eq_some_iff.1 h
  exact hTrans a b c (hf a b hb) (hg b c hc)

theorem repeatM (hRefl : ∀ a, R a a) (hTrans : ∀ a b c, R a b → R b c → R a c)
    (hf : Within R f) : ∀ n, Within R (repeatM f n) := by
  intro n
  induction n with
  | zero =>
      intro a b h
      cases h
      exact hRefl a
  | succ n ih => exact bind hTrans hf ih

end Within

/-! ## Results at every depth -/

/-- Where `p` holds there is a result, the same for all `i`, and `p` holds of
it. -/
def Settles (p : α → Prop) (f : ι → α → Option α) : Prop :=
  ∀ a, p a → ∃ b, p b ∧ ∀ i, f i a = some b

namespace Settles

variable {p : α → Prop} {f g : ι → α → Option α}

/-- Where the results exist, what the functions may change can keep `p`. -/
theorem of_within [Inhabited ι] {R : α → α → Prop} (hR : ∀ i, Within R (f i))
    (hKeep : ∀ a b, p a → R a b → p b) (h : ∀ a, p a → ∃ b, ∀ i, f i a = some b) :
    Settles p f := by
  intro a ha
  obtain ⟨b, hb⟩ := h a ha
  exact ⟨b, hKeep a b ha (hR default a b (hb default)), hb⟩

theorem bind (hf : Settles p f) (hg : Settles p g) :
    Settles p fun i a => (f i a).bind (g i) := by
  intro a ha
  obtain ⟨b, hb, hfb⟩ := hf a ha
  obtain ⟨c, hc, hgc⟩ := hg b hb
  refine ⟨c, hc, fun i => ?_⟩
  show (f i a).bind (g i) = some c
  rw [hfb i, Option.bind_some, hgc i]

theorem repeatM (hf : Settles p f) : ∀ n, Settles p fun i => repeatM (f i) n := by
  intro n
  induction n with
  | zero => exact fun a ha => ⟨a, ha, fun _ => rfl⟩
  | succ n ih => exact hf.bind ih

end Settles

/-! ## Results in terms of a total function -/

/-- Where `p` holds, every result looks like a step of `g`, and `p` holds of
it. -/
def Refines {β : Type} (p : α → Prop) (view : α → β) (f : α → Option α)
    (g : β → β) : Prop :=
  ∀ a b, f a = some b → p a → p b ∧ view b = g (view a)

namespace Refines

variable {β : Type} {p : α → Prop} {view : α → β} {f f' : α → Option α} {g g' : β → β}

theorem bind (hf : Refines p view f g) (hf' : Refines p view f' g') :
    Refines p view (fun a => (f a).bind f') (g' ∘ g) := by
  intro a c h ha
  obtain ⟨b, hb, hc⟩ := Option.bind_eq_some_iff.1 h
  obtain ⟨hMid, hView⟩ := hf a b hb ha
  obtain ⟨hEnd, hView'⟩ := hf' b c hc hMid
  refine ⟨hEnd, ?_⟩
  rw [hView', hView]
  rfl

theorem repeatM (hf : Refines p view f g) : ∀ n, Refines p view (repeatM f n) (g^[n]) := by
  intro n
  induction n with
  | zero =>
      intro a b h ha
      cases h
      exact ⟨ha, rfl⟩
  | succ n ih => exact hf.bind ih

end Refines

/-! ## Two functions alike -/

/-- Loops of functions that are alike where `p` holds, and keep it. -/
theorem repeatM_congr {p : α → Prop} {f g : α → Option α}
    (hKeep : ∀ a b, p a → f a = some b → p b) (hSame : ∀ a, p a → f a = g a) :
    ∀ (n : Nat) (a : α), p a → repeatM f n a = repeatM g n a := by
  intro n
  induction n with
  | zero => intro a _; rfl
  | succ n ih =>
      intro a ha
      rw [repeatM, repeatM, ← hSame a ha]
      cases hf : f a with
      | none => rfl
      | some b => exact ih b (hKeep a b ha hf)

end CompE.Library
