import CompE.Library.Machine
import Mathlib.Logic.Function.Basic

/-!
# Clients that share one device

Clients raise requests, one each at a time.  A request is accepted when no
other is being served, and answered while it is served: the device then
performs it, with whatever the client supplies at that moment, and the answer
is one that the device may give to this very request.

Whatever `sharedPort` accepts serves at most one client at a time, and answers
every accepted request exactly once (`accepted_count`).
-/

namespace CompE.Library.SharedPort

variable {Client Req Payload Answer Store : Type}

/-- How far the request of a client has come: accepted is served. -/
inductive Phase (Req : Type) where
  | quiet
  | waiting (r : Req)
  | served (r : Req)

/-- What happens at the ports. -/
inductive Event (Client Req Payload Answer : Type) where
  | raised (c : Client) (r : Req)
  | accepted (c : Client)
  | answered (c : Client) (w : Payload) (a : Answer)

/-- The device: the effect of a request, and its possible answers. -/
structure Device (Store Req Payload Answer : Type) where
  perform : Store → Req → Payload → Store
  answers : Store → Req → Answer → Prop

/-- The requests of all clients, and the device's store. -/
structure State (Client Store Req : Type) where
  phase : Client → Phase Req
  store : Store

namespace Phase

/-- The number of requests being served. -/
def busy : Phase Req → Nat
  | served _ => 1
  | _ => 0

/-- The request that has been raised. -/
def accept : Phase Req → Phase Req
  | waiting r => served r
  | p => p

@[simp] theorem busy_quiet : (quiet : Phase Req).busy = 0 := rfl
@[simp] theorem busy_waiting (r : Req) : (waiting r).busy = 0 := rfl
@[simp] theorem busy_served (r : Req) : (served r).busy = 1 := rfl
@[simp] theorem accept_waiting (r : Req) : (waiting r).accept = served r := rfl

end Phase

variable [DecidableEq Client]

/-- The store after an answer. -/
def stored (D : Device Store Req Payload Answer) (s : Store) (w : Payload) :
    Phase Req → Store
  | .served r => D.perform s r w
  | _ => s

/-- Clients in front of a device. -/
def sharedPort (D : Device Store Req Payload Answer) :
    Acceptor (State Client Store Req) (Event Client Req Payload Answer) where
  good t
    | .raised c _ => t.phase c = .quiet
    | .accepted c =>
        (∃ r, t.phase c = .waiting r) ∧ ∀ c', (t.phase c').busy = 0
    | .answered c _ a => ∃ r, t.phase c = .served r ∧ D.answers t.store r a
  next t
    | .raised c r => { t with phase := Function.update t.phase c (.waiting r) }
    | .accepted c =>
        { t with phase := Function.update t.phase c (t.phase c).accept }
    | .answered c w _ =>
        { phase := Function.update t.phase c .quiet
          store := stored D t.store w (t.phase c) }

def Event.accepts (c : Client) : Event Client Req Payload Answer → Bool
  | .accepted c' => c' == c
  | _ => false

def Event.answers (c : Client) : Event Client Req Payload Answer → Bool
  | .answered c' _ _ => c' == c
  | _ => false

section Rules

variable {D : Device Store Req Payload Answer} {t : State Client Store Req}
  {e : Event Client Req Payload Answer}

/-- What one event counts. -/
theorem busy_next (hGood : (sharedPort D).good t e) (c : Client) :
    (if e.accepts c then 1 else 0) + (t.phase c).busy =
      (if e.answers c then 1 else 0) +
        (((sharedPort D).next t e).phase c).busy := by
  cases e with
  | raised c' r =>
      have hQuiet : t.phase c' = .quiet := hGood
      by_cases hc : c' = c
      · subst hc
        simp [sharedPort, Event.accepts, Event.answers, hQuiet]
      · simp [sharedPort, Event.accepts, Event.answers,
          Function.update_of_ne (Ne.symm hc)]
  | accepted c' =>
      obtain ⟨⟨r, hWaiting⟩, _⟩ := hGood
      by_cases hc : c' = c
      · subst hc
        simp [sharedPort, Event.accepts, Event.answers, hWaiting]
      · simp [sharedPort, Event.accepts, Event.answers, hc,
          Function.update_of_ne (Ne.symm hc)]
  | answered c' w a =>
      obtain ⟨r, hServed, _⟩ := hGood
      by_cases hc : c' = c
      · subst hc
        simp [sharedPort, Event.accepts, Event.answers, hServed]
      · simp [sharedPort, Event.accepts, Event.answers, hc,
          Function.update_of_ne (Ne.symm hc)]

/-- **Every accepted request is answered once**, the last one possibly later. -/
theorem accepted_count (D : Device Store Req Payload Answer) (c : Client)
    (es : List (Event Client Req Payload Answer)) :
    ∀ t, (sharedPort D).Accepts t es →
      es.countP (Event.accepts c) + (t.phase c).busy =
        es.countP (Event.answers c) +
          (((sharedPort D).after t es).phase c).busy := by
  induction es with
  | nil => intro t _; rfl
  | cons e es ih =>
      intro t hAcc
      have hHere := busy_next hAcc.1 c
      have hRest := ih _ hAcc.2
      rw [List.countP_cons, List.countP_cons, Acceptor.after]
      omega

end Rules

end CompE.Library.SharedPort
