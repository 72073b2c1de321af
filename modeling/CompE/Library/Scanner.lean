import Mathlib.Data.List.Basic

/-!
# Scanners over streams that arrive in pieces

A scanner takes what it can from the front of a list of symbols: one step gives
some packets and the rest of the list, and more symbols behind do not change
it.  `Scans` is any number of steps.

Since a step depends on the front alone, scanning while the stream is still
arriving makes the steps that scanning the whole stream makes
(`Scans.append`), and two scans of one stream differ only in how far they got
(`Scans.comparable`).
-/

namespace CompE.Library

/-- A step function that does not look at the end of its input. -/
structure Scanner (Symbol Packet : Type) where
  next : List Symbol → Option (List Packet × List Symbol)
  stable : ∀ xs ps rest ys, next xs = some (ps, rest) →
    next (xs ++ ys) = some (ps, rest ++ ys)

namespace Scanner

variable {Symbol Packet : Type} (S : Scanner Symbol Packet)

/-- From the first list to the last one by steps, with the packets given. -/
inductive Scans : List Symbol → List Packet → List Symbol → Prop
  | refl (xs : List Symbol) : Scans xs [] xs
  | step {xs mid rest : List Symbol} {ps qs : List Packet}
      (hNext : S.next xs = some (ps, mid)) (hRest : Scans mid qs rest) :
      Scans xs (ps ++ qs) rest

variable {S}

theorem Scans.trans {xs ys zs : List Symbol} {ps qs : List Packet}
    (h : S.Scans xs ps ys) (h' : S.Scans ys qs zs) :
    S.Scans xs (ps ++ qs) zs := by
  induction h with
  | refl xs => exact h'
  | step hNext _ ih =>
      rw [List.append_assoc]
      exact Scans.step hNext (ih h')

/-- The steps stay the same when more symbols follow. -/
theorem Scans.append {xs rest : List Symbol} {ps : List Packet}
    (h : S.Scans xs ps rest) (ys : List Symbol) :
    S.Scans (xs ++ ys) ps (rest ++ ys) := by
  induction h with
  | refl xs => exact Scans.refl (xs ++ ys)
  | step hNext _ ih => exact Scans.step (S.stable _ _ _ ys hNext) ih

/-- Of two scans of one list, one goes on where the other has got to. -/
theorem Scans.comparable {xs rest rest' : List Symbol} {ps ps' : List Packet}
    (h : S.Scans xs ps rest) (h' : S.Scans xs ps' rest') :
    (∃ qs, ps' = ps ++ qs ∧ S.Scans rest qs rest') ∨
      ∃ qs, ps = ps' ++ qs ∧ S.Scans rest' qs rest := by
  induction h generalizing ps' rest' with
  | refl xs => exact Or.inl ⟨ps', rfl, h'⟩
  | step hNext hRest ih =>
      cases h' with
      | refl => exact Or.inr ⟨_, rfl, Scans.step hNext hRest⟩
      | step hNext' hRest' =>
          rw [hNext, Option.some.injEq, Prod.mk.injEq] at hNext'
          obtain ⟨rfl, rfl⟩ := hNext'
          cases ih hRest' with
          | inl hBehind =>
              obtain ⟨qs, rfl, hTail⟩ := hBehind
              exact Or.inl ⟨qs, (List.append_assoc _ _ _).symm, hTail⟩
          | inr hAhead =>
              obtain ⟨qs, rfl, hTail⟩ := hAhead
              exact Or.inr ⟨qs, (List.append_assoc _ _ _).symm, hTail⟩

/-- The packets of one are a prefix of the packets of the other. -/
theorem Scans.prefix_or {xs rest rest' : List Symbol} {ps ps' : List Packet}
    (h : S.Scans xs ps rest) (h' : S.Scans xs ps' rest') :
    ps <+: ps' ∨ ps' <+: ps := by
  cases h.comparable h' with
  | inl hBehind =>
      obtain ⟨qs, rfl, _⟩ := hBehind
      exact Or.inl (List.prefix_append ps qs)
  | inr hAhead =>
      obtain ⟨qs, rfl, _⟩ := hAhead
      exact Or.inr (List.prefix_append ps' qs)

end Scanner

end CompE.Library
