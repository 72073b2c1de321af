import CompE.Library.Machine
import Mathlib.Data.List.Forall2
import Mathlib.Data.List.Induction

/-!
# What a run shows

The events of a clocked machine against a list of expectations, one for each.
`Shows R P s is es` says that the events of the inputs `is` from state `s`
meet the expectations `es` and that `P` holds afterwards.  The rules take a run
apart the way its inputs are put together: cycle by cycle, in parts, and as a
sequence of blocks that all start and end with the same property.
-/

namespace CompE.Library.Machine

variable {State Input Event Expect Block : Type}
  (M : Machine State Input Event) (R : Event → Expect → Prop)

theorem events_append (s : State) (is js : List Input) :
    M.events s (is ++ js) = M.events s is ++ M.events (M.run s is) js := by
  induction is generalizing s with
  | nil => rfl
  | cons i is ih =>
      rw [List.cons_append, events, ih, run, events, List.append_assoc]

theorem restrict_run (p : State → Input → Prop) (s : State)
    (is : List Input) : (M.restrict p).run s is = M.run s is := by
  induction is generalizing s with
  | nil => rfl
  | cons i is ih => exact ih (M.step s i)

/-- The cycle of an event, and what has happened before. -/
theorem events_split (is : List Input) : ∀ (s : State) (pre post : List Event)
    (e : Event), M.events s is = pre ++ e :: post →
    ∃ done i rest a b, is = done ++ i :: rest ∧
      M.emit (M.run s done) i = a ++ e :: b ∧ pre = M.events s done ++ a := by
  induction is with
  | nil =>
      intro s pre post e h
      exact absurd h.symm (by simp [events])
  | cons i is ih =>
      intro s pre post e h
      have hCases := List.append_eq_append_iff.1
        (h : M.emit s i ++ M.events (M.step s i) is = pre ++ e :: post)
      rcases hCases with ⟨a, hPre, hLater⟩ | ⟨b, hHere, hRest⟩
      · obtain ⟨done, j, rest, c, d, rfl, hEmit, rfl⟩ :=
          ih (M.step s i) a post e hLater
        refine ⟨i :: done, j, rest, c, d, rfl, hEmit, ?_⟩
        rw [hPre, events, List.append_assoc]
      · cases b with
        | nil =>
            obtain ⟨done, j, rest, c, d, rfl, hEmit, hNil⟩ :=
              ih (M.step s i) [] post e hRest.symm
            refine ⟨i :: done, j, rest, c, d, rfl, hEmit, ?_⟩
            rw [events, List.append_assoc, ← hNil, hHere, List.append_nil,
              List.append_nil]
        | cons e' b =>
            obtain ⟨rfl, -⟩ := List.cons.inj hRest
            exact ⟨[], i, is, pre, b, rfl, hHere, rfl⟩

/-- The events meet the expectations, and the run ends in `P`. -/
def Shows (P : State → Prop) (s : State) (is : List Input)
    (es : List Expect) : Prop :=
  List.Forall₂ R (M.events s is) es ∧ P (M.run s is)

namespace Shows

variable {M R} {P Q : State → Prop} {s : State} {is js : List Input}
  {es fs : List Expect}

theorem nil (h : P s) : M.Shows R P s [] [] := ⟨.nil, h⟩

/-- A cycle with one event. -/
theorem cycle {i : Input} {o : Event} {e : Expect} (hEmit : M.emit s i = [o])
    (hMeets : R o e) (h : M.Shows R P (M.step s i) is es) :
    M.Shows R P s (i :: is) (e :: es) := by
  refine ⟨?_, h.2⟩
  rw [events, hEmit]
  exact .cons hMeets h.1

theorem append (h : M.Shows R Q s is es)
    (hNext : ∀ s', Q s' → M.Shows R P s' js fs) :
    M.Shows R P s (is ++ js) (es ++ fs) := by
  obtain ⟨hRest, hEnd⟩ := hNext _ h.2
  refine ⟨?_, ?_⟩
  · rw [events_append]
    exact List.rel_append h.1 hRest
  · rw [run_append]
    exact hEnd

/-- Blocks that start and end in `P`. -/
theorem flatMap {inputs : Block → List Input} {expected : Block → List Expect}
    (hBlock : ∀ b s, P s → M.Shows R P s (inputs b) (expected b))
    (bs : List Block) : ∀ s, P s →
      M.Shows R P s (bs.flatMap inputs) (bs.flatMap expected) := by
  induction bs with
  | nil => intro s h; exact nil h
  | cons b bs ih =>
      intro s h
      rw [List.flatMap_cons, List.flatMap_cons]
      exact (hBlock b s h).append ih

end Shows

/-! ## Latches

A bit that some events set and others clear. -/

section Latch

variable (sets clears : Event → Bool)

/-- The bit after a sequence of events. -/
def latch (bit : Bool) (es : List Event) : Bool :=
  es.foldl (fun bit e => if sets e then true else if clears e then false else bit)
    bit

theorem latch_append (bit : Bool) (es fs : List Event) :
    latch sets clears bit (es ++ fs) =
      latch sets clears (latch sets clears bit es) fs :=
  List.foldl_append

/-- A bit that is on was set, and nothing has happened to it since. -/
theorem latch_on {es : List Event} (h : latch sets clears false es = true) :
    ∃ before e after, es = before ++ e :: after ∧ sets e = true ∧
      ∀ x ∈ after, clears x = false := by
  induction es using List.reverseRecOn with
  | nil => cases h
  | append_singleton es e ih =>
      rw [latch_append] at h
      by_cases hSets : sets e = true
      · exact ⟨es, e, [], rfl, hSets, by simp⟩
      · have hHere : (if clears e then false
            else latch sets clears false es) = true := by
          simpa [latch, hSets] using h
        cases hClears : clears e with
        | true => simp [hClears] at hHere
        | false =>
            rw [hClears] at hHere
            obtain ⟨before, x, after, rfl, hx, hAfter⟩ := ih hHere
            refine ⟨before, x, after ++ [e], by simp, hx, ?_⟩
            intro y hy
            rcases List.mem_append.1 hy with hy | hy
            · exact hAfter y hy
            · rw [List.mem_singleton.1 hy]
              exact hClears

/-- A bit that is off again was cleared after all that has set it. -/
theorem latch_off {bit : Bool} {es : List Event} {a : Event} (ha : a ∈ es)
    (hSet : sets a = true) (h : latch sets clears bit es = false) :
    ∃ before e after, es = before ++ e :: after ∧ clears e = true ∧
      a ∈ before ∧ ∀ x ∈ after, sets x = false := by
  induction es using List.reverseRecOn with
  | nil => cases ha
  | append_singleton es e ih =>
      rw [latch_append] at h
      have hHere : sets e = false := by
        cases hSets : sets e with
        | true => simp [latch, hSets] at h
        | false => rfl
      have hBefore : a ∈ es := by
        rcases List.mem_append.1 ha with ha | ha
        · exact ha
        · rw [List.mem_singleton.1 ha, hHere] at hSet
          cases hSet
      cases hClears : clears e with
      | true => exact ⟨es, e, [], rfl, hClears, hBefore, by simp⟩
      | false =>
          have hOff : latch sets clears bit es = false := by
            simpa [latch, hHere, hClears] using h
          obtain ⟨before, x, after, rfl, hx, hMem, hAfter⟩ := ih hBefore hOff
          refine ⟨before, x, after ++ [e], by simp, hx, hMem, ?_⟩
          intro y hy
          rcases List.mem_append.1 hy with hy | hy
          · exact hAfter y hy
          · rw [List.mem_singleton.1 hy]
            exact hHere

end Latch

end CompE.Library.Machine
