import CompE.Tux.LineDiscipline

/-!
# Sending to the Tux controller

`tuxctl_ldisc_put` stores bytes in a second ring of 64 and calls
`tuxctl_ldisc_write_wakeup`, which the driver calls as well when it can take
more.  That asks the driver for its room, takes bytes out of the ring and hands
them to the driver, which accepts as many as it has room for.  Bytes that the
driver does not accept are lost.

The ring itself loses nothing (`txMachine_conserves`).  The loop takes bytes out
while `n <= room`, one more than there is room for, so that the last one is lost
whenever the ring has it (`transmit_iff`).
-/

namespace CompE.Tux

open CompE.Library

/-- The sending half of `tuxctl_ldisc_data_t`. -/
structure TxRing where
  txBuf : Nat → Byte
  txStart : Nat
  txEnd : Nat

namespace TxRing

/-- The loop of `tuxctl_ldisc_put`: the ring, and `n` after it. -/
def putLoop (tx : TxRing) : List Byte → TxRing × Nat
  | [] => (tx, 0)
  | b :: buf =>
      if bufFull tx.txStart tx.txEnd then (tx, buf.length + 1)
      else
        putLoop
          { tx with
            txBuf := Function.update tx.txBuf tx.txEnd b
            txEnd := bufIncidx tx.txEnd } buf

/-- The loop of `tuxctl_ldisc_write_wakeup` from `n` on.  `fuel` is the number
of rounds for which `n <= room` still holds. -/
def wakeupLoop (room : Nat) (tx : TxRing) (n : Nat) : Nat → List Byte × TxRing
  | 0 => ([], tx)
  | fuel + 1 =>
      if n ≤ room ∧ ¬ bufEmpty tx.txStart tx.txEnd then
        let r := wakeupLoop room { tx with txStart := bufIncidx tx.txStart }
          (n + 1) fuel
        (tx.txBuf tx.txStart :: r.1, r.2)
      else ([], tx)

/-- `tuxctl_ldisc_write_wakeup`: the bytes handed to the driver, and the
ring. -/
def writeWakeup (tx : TxRing) (room : Nat) : List Byte × TxRing :=
  wakeupLoop room tx 0 (room + 1)

end TxRing

/-- The calls, with the room that the driver reports. -/
inductive TxCall where
  | put (buf : List Byte) (room : Nat)
  | writeWakeup (room : Nat)

/-- What a call has done. -/
structure Sent where
  stored : List Byte
  room : Nat
  handed : List Byte
  deriving DecidableEq

/-- The driver accepts up to the room that it reported. -/
def Sent.accepted (e : Sent) : List Byte := e.handed.take e.room

namespace TxCall

/-- The driver's answer to `write_room`. -/
def room : TxCall → Nat
  | put _ room => room
  | writeWakeup room => room

/-- The ring when `tuxctl_ldisc_write_wakeup` runs. -/
def filled (tx : TxRing) : TxCall → TxRing
  | put buf _ => (tx.putLoop buf).1
  | writeWakeup _ => tx

/-- The bytes that are stored: `tuxctl_ldisc_put` returns the number of those
that are not. -/
def stored (tx : TxRing) : TxCall → List Byte
  | put buf _ => buf.take (buf.length - (tx.putLoop buf).2)
  | writeWakeup _ => []

end TxCall

/-- The sending half over its calls. -/
def txMachine : Machine TxRing TxCall Sent where
  step tx c := ((c.filled tx).writeWakeup c.room).2
  emit tx c := [⟨c.stored tx, c.room, ((c.filled tx).writeWakeup c.room).1⟩]
  legal _ _ := True

/-! ## The ring -/

namespace TxRing

/-- Both halves of the data are rings of one kind. -/
def ring (tx : TxRing) : RxRing := ⟨tx.txBuf, tx.txStart, tx.txEnd⟩

private theorem putLoop_ring (buf : List Byte) :
    ∀ tx : TxRing, (tx.putLoop buf).1.ring = rcvLoop tx.ring buf := by
  induction buf with
  | nil => intro tx; rfl
  | cons b buf ih =>
      intro tx
      cases hFull : bufFull tx.txStart tx.txEnd with
      | true => simp only [putLoop, rcvLoop, ring, hFull, if_true]
      | false =>
          have hRest := ih { tx with
            txBuf := Function.update tx.txBuf tx.txEnd b
            txEnd := bufIncidx tx.txEnd }
          simp only [putLoop, rcvLoop, ring, hFull, Bool.false_eq_true,
            if_false] at hRest ⊢
          exact hRest

/-- What is not stored is what does not fit. -/
theorem putLoop_left (buf : List Byte) :
    ∀ tx : TxRing, tx.ring.Ok →
      (tx.putLoop buf).2 = buf.length - (tuxctlBufsize - 1 - tx.ring.used) := by
  induction buf with
  | nil =>
      intro tx _
      exact (Nat.zero_sub _).symm
  | cons b buf ih =>
      intro tx hOk
      have hLt := hOk.end_eq.2
      rw [putLoop, List.length_cons]
      by_cases hFull : bufFull tx.txStart tx.txEnd = true
      · have hUsed := hOk.full_iff.1 hFull
        rw [if_pos hFull]
        simp only []
        omega
      · have hRoom : tx.ring.used + 1 < tuxctlBufsize := by
          have hUsed := mt hOk.full_iff.2 hFull
          omega
        obtain ⟨hNext, hUsed, _⟩ := hOk.push b hRoom
        have hRest := ih { tx with
          txBuf := Function.update tx.txBuf tx.txEnd b
          txEnd := bufIncidx tx.txEnd } hNext
        have hCount : RxRing.used (ring { tx with
            txBuf := Function.update tx.txBuf tx.txEnd b
            txEnd := bufIncidx tx.txEnd }) = tx.ring.used + 1 := hUsed
        rw [if_neg hFull, hRest, hCount]
        omega

/-- The loop takes as many bytes as `tuxctl_ldisc_get` would. -/
theorem wakeupLoop_ring (room fuel : Nat) :
    ∀ (tx : TxRing) (n : Nat), n + fuel = room + 1 →
      (wakeupLoop room tx n fuel).1 = (ldiscGet tx.ring fuel).1 ∧
        (wakeupLoop room tx n fuel).2.ring = (ldiscGet tx.ring fuel).2 := by
  induction fuel with
  | zero => intro tx n _; exact ⟨rfl, rfl⟩
  | succ fuel ih =>
      intro tx n hLeft
      have hMore : n ≤ room := by omega
      cases hEmpty : bufEmpty tx.txStart tx.txEnd with
      | true =>
          simp only [wakeupLoop, ldiscGet, ring, hEmpty, not_true, and_false,
            if_false, if_true, and_self]
      | false =>
          obtain ⟨hGot, hRest⟩ :=
            ih { tx with txStart := bufIncidx tx.txStart } (n + 1) (by omega)
          simp only [wakeupLoop, ldiscGet, ring, hEmpty, hMore,
            Bool.false_eq_true, not_false_eq_true, and_self, if_true,
            if_false] at hGot hRest ⊢
          exact ⟨congrArg (tx.txBuf tx.txStart :: ·) hGot, hRest⟩

private theorem writeWakeup_ring (tx : TxRing) (room : Nat) :
    (tx.writeWakeup room).1 = (ldiscGet tx.ring (room + 1)).1 ∧
      (tx.writeWakeup room).2.ring = (ldiscGet tx.ring (room + 1)).2 :=
  wakeupLoop_ring room (room + 1) tx 0 (Nat.zero_add _)

end TxRing

/-- The ring while a call hands bytes to the driver. -/
theorem TxCall.filled_contents (c : TxCall) {tx : TxRing} (h : tx.ring.Ok) :
    (c.filled tx).ring.Ok ∧
      (c.filled tx).ring.contents = tx.ring.contents ++ c.stored tx := by
  cases c with
  | put buf room =>
      have hFits : buf.take (buf.length - (tx.putLoop buf).2) =
          buf.take (tuxctlBufsize - 1 - tx.ring.used) := by
        rw [TxRing.putLoop_left buf tx h, Nat.sub_sub_eq_min, Nat.min_comm,
          ← List.take_eq_take_min]
      simp only [filled, stored, TxRing.putLoop_ring, hFits]
      exact rcvLoop_take buf tx.ring h
  | writeWakeup room => exact ⟨h, (List.append_nil _).symm⟩

/-- The number of bytes that a call brings. -/
def TxCall.brought : TxCall → Nat
  | put buf _ => buf.length
  | writeWakeup _ => 0

theorem TxCall.filled_used (c : TxCall) {tx : TxRing} (h : tx.ring.Ok) :
    (c.filled tx).ring.used =
      min (tx.ring.used + c.brought) (tuxctlBufsize - 1) := by
  have hLt := h.end_eq.2
  have hLength := congrArg List.length (c.filled_contents h).2
  rw [List.length_append, RxRing.contents, RxRing.contents, Ring.window_length,
    Ring.window_length] at hLength
  cases c with
  | put buf room =>
      rw [stored, List.length_take, TxRing.putLoop_left buf tx h] at hLength
      rw [hLength, brought]
      omega
  | writeWakeup room =>
      rw [brought]
      simp only [filled]
      omega

/-! ## Calls -/

section Calls

variable {tx : TxRing}

/-- What a call stores goes out, in order, or stays in the ring; and how much
goes out. -/
theorem call_conserves (c : TxCall) (h : tx.ring.Ok) :
    (txMachine.step tx c).ring.Ok ∧
      tx.ring.contents ++ c.stored tx =
        ((c.filled tx).writeWakeup c.room).1 ++
          (txMachine.step tx c).ring.contents ∧
      ((c.filled tx).writeWakeup c.room).1.length =
        min (c.room + 1) (min (tx.ring.used + c.brought) (tuxctlBufsize - 1)) := by
  obtain ⟨hOk, hContents⟩ := c.filled_contents h
  obtain ⟨hHanded, hRing⟩ := (c.filled tx).writeWakeup_ring c.room
  obtain ⟨hNext, hGet⟩ := ldiscGet_contents (c.room + 1) _ hOk
  simp only [txMachine]
  rw [hRing, hHanded, ldiscGet_length _ _ hOk, c.filled_used h, ← hContents]
  exact ⟨hNext, hGet, rfl⟩

/-- The bytes that the calls of a run stored, handed over, and had accepted. -/
def storedBytes (es : List Sent) : List Byte := es.flatMap Sent.stored

def handedBytes (es : List Sent) : List Byte := es.flatMap Sent.handed

def acceptedBytes (es : List Sent) : List Byte := es.flatMap Sent.accepted

/-- Between `tuxctl_ldisc_put` and the driver nothing is lost. -/
theorem txMachine_conserves (cs : List TxCall) :
    ∀ tx : TxRing, tx.ring.Ok →
      tx.ring.contents ++ storedBytes (txMachine.events tx cs) =
        handedBytes (txMachine.events tx cs) ++
          (txMachine.run tx cs).ring.contents := by
  induction cs with
  | nil =>
      intro tx _
      exact List.append_nil _
  | cons c cs ih =>
      intro tx hOk
      obtain ⟨hNext, hStep, _⟩ := call_conserves c hOk
      have hRest := ih _ hNext
      simp only [storedBytes, handedBytes] at hRest ⊢
      rw [Machine.events, List.flatMap_append, List.flatMap_append, Machine.run,
        ← List.append_assoc]
      have hStored : (txMachine.emit tx c).flatMap Sent.stored = c.stored tx :=
        List.append_nil _
      have hHanded : (txMachine.emit tx c).flatMap Sent.handed =
          ((c.filled tx).writeWakeup c.room).1 := List.append_nil _
      rw [hStored, hHanded, hStep, List.append_assoc, hRest, List.append_assoc]

/-- What is handed over within the room is accepted. -/
theorem acceptedBytes_eq {es : List Sent}
    (h : ∀ e ∈ es, e.handed.length ≤ e.room) :
    acceptedBytes es = handedBytes es := by
  induction es with
  | nil => rfl
  | cons e es ih =>
      have hFirst : e.accepted = e.handed :=
        List.take_of_length_le (h e List.mem_cons_self)
      have hRest := ih fun e he => h e (List.mem_cons_of_mem _ he)
      simp only [acceptedBytes, handedBytes, List.flatMap_cons] at hRest ⊢
      rw [hFirst, hRest]

/-- When a call's bytes are handed to the driver, there is room for all that are
in the ring. -/
def RoomForAll (tx : TxRing) (c : TxCall) : Prop :=
  min (tx.ring.used + c.brought) (tuxctlBufsize - 1) ≤ c.room

instance (tx : TxRing) (c : TxCall) : Decidable (RoomForAll tx c) :=
  inferInstanceAs (Decidable (_ ≤ _))

/-- No call hands over more than the reported room. -/
theorem handed_le_iff (cs : List TxCall) :
    ∀ tx : TxRing, tx.ring.Ok →
      ((∀ e ∈ txMachine.events tx cs, e.handed.length ≤ e.room) ↔
        txMachine.Always RoomForAll tx cs) := by
  induction cs with
  | nil =>
      intro tx _
      exact ⟨fun _ => trivial, fun _ e he => absurd he List.not_mem_nil⟩
  | cons c cs ih =>
      intro tx hOk
      obtain ⟨hNext, _, hLength⟩ := call_conserves c hOk
      have hHere : ((c.filled tx).writeWakeup c.room).1.length ≤ c.room ↔
          RoomForAll tx c := by
        rw [hLength, RoomForAll]
        omega
      have hEvents : txMachine.events tx (c :: cs) =
          ⟨c.stored tx, c.room, ((c.filled tx).writeWakeup c.room).1⟩ ::
            txMachine.events (txMachine.step tx c) cs := rfl
      rw [hEvents, List.forall_mem_cons, hHere, ih _ hNext]
      exact Iff.rfl

/-- No call hands over more than the reported room, and what the driver has
accepted, and then what is in the ring, is what was stored. -/
def Transmits (tx : TxRing) (cs : List TxCall) : Prop :=
  (∀ e ∈ txMachine.events tx cs, e.handed.length ≤ e.room) ∧
    tx.ring.contents ++ storedBytes (txMachine.events tx cs) =
      acceptedBytes (txMachine.events tx cs) ++
        (txMachine.run tx cs).ring.contents

/-- **When the bytes get to the driver.**  From a ring in any position, calls
hand over no more than the reported room and lose no byte exactly if, in each of
them, there is room for all the bytes in the ring. -/
theorem transmit_iff (hOk : tx.ring.Ok) (cs : List TxCall) :
    Transmits tx cs ↔ txMachine.Always RoomForAll tx cs := by
  constructor
  · intro h
    exact (handed_le_iff cs tx hOk).1 h.1
  · intro h
    have hHanded := (handed_le_iff cs tx hOk).2 h
    refine ⟨hHanded, ?_⟩
    rw [acceptedBytes_eq hHanded]
    exact txMachine_conserves cs tx hOk

/-- Three bytes around the end of the array, and room for each. -/
theorem transmit_iff_wrapped :
    Transmits ⟨fun _ => 0, 62, 62⟩ [.put [1, 2, 3] 4, .writeWakeup 0] :=
  (transmit_iff ⟨by decide, by decide⟩ _).2 (by decide)

/-- Two bytes and room for one: both are handed over, and the second is lost. -/
theorem second_byte_lost :
    ¬ Transmits ⟨fun _ => 0, 0, 0⟩ [.put [1, 2] 1] ∧
      txMachine.events ⟨fun _ => 0, 0, 0⟩ [.put [1, 2] 1] =
        [⟨[1, 2], 1, [1, 2]⟩] ∧
      acceptedBytes (txMachine.events ⟨fun _ => 0, 0, 0⟩ [.put [1, 2] 1]) =
        [1] := by
  refine ⟨?_, by decide, by decide⟩
  rintro ⟨hHanded, _⟩
  exact absurd (hHanded ⟨[1, 2], 1, [1, 2]⟩ (by decide)) (by decide)

end Calls

end CompE.Tux
