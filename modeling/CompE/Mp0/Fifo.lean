import CompE.Library.BoundedQueue
import CompE.Library.Ring
import Mathlib.Algebra.Ring.Nat

/-!
# `fifo_synch_1r1w`

A memory of `2 ^ ptr_width_p` words, a read and a write pointer of one bit
more, and a register for the word that is next to leave.  Pointers with equal
low bits mean an empty queue if their top bits agree and a full one if they do
not.

The words in the queue are the ring from `read_ptr` up to `write_ptr`
(`contents`).  The register always holds the first of them: it is loaded from
the memory on a dequeue, and straight from the input when the word that comes
in is the only one.
-/

namespace CompE.Mp0

open CompE.Library

/-- The registers and the memory of `fifo_synch_1r1w`. -/
structure Fifo (Word : Type) (ptrWidth : Nat) where
  queue : BitVec ptrWidth → Word
  readPtr : BitVec (ptrWidth + 1)
  writePtr : BitVec (ptrWidth + 1)
  outputBufferR : Word

/-- The inputs of `fifo_synch_1r1w`. -/
structure FifoPorts (Word : Type) where
  dataI : Word
  validI : Bool
  yumiI : Bool

namespace Fifo

variable {Word : Type} {ptrWidth : Nat}

/-! ## Signals -/

/-- `ptr[ptr_width_p-1:0]`. -/
def low (ptr : BitVec (ptrWidth + 1)) : BitVec ptrWidth := ptr.setWidth ptrWidth

section Signals

variable (f : Fifo Word ptrWidth) (i : FifoPorts Word)

def ptrEq : Bool := low f.readPtr == low f.writePtr

def signMatch : Bool :=
  f.readPtr.getLsbD ptrWidth == f.writePtr.getLsbD ptrWidth

def full : Bool := f.ptrEq && !f.signMatch

def empty : Bool := f.ptrEq && f.signMatch

def readyO : Bool := !f.full

def validO : Bool := !f.empty

def dataO : Word := f.outputBufferR

def enqueue : Bool := f.readyO && i.validI

def dequeue : Bool := f.validO && i.yumiI

def writePtrNext : BitVec (ptrWidth + 1) := f.writePtr + 1

def readPtrNext : BitVec (ptrWidth + 1) := f.readPtr + 1

/-- One clock edge outside reset. -/
def clock : Fifo Word ptrWidth :=
  match f.enqueue i, f.dequeue i with
  | false, false => f
  | false, true =>
      { f with
        outputBufferR := f.queue (low f.readPtrNext)
        readPtr := f.readPtrNext }
  | true, false =>
      { f with
        queue := Function.update f.queue (low f.writePtr) i.dataI
        writePtr := f.writePtrNext
        outputBufferR := if f.empty then i.dataI else f.outputBufferR }
  | true, true =>
      { queue := Function.update f.queue (low f.writePtr) i.dataI
        writePtr := f.writePtrNext
        outputBufferR :=
          if low f.readPtrNext = low f.writePtr then i.dataI
          else f.queue (low f.readPtrNext)
        readPtr := f.readPtrNext }

/-- What is seen at the ports. -/
def cycle : BoundedQueue.Cycle Word where
  valid := i.validI
  input := i.dataI
  yumi := i.yumiI
  readyOut := f.readyO
  validOut := f.validO
  output := f.dataO

end Signals

/-- After reset both pointers are zero; the memory and the output register may
hold anything. -/
structure IsReset (f : Fifo Word ptrWidth) : Prop where
  readPtr : f.readPtr = 0
  writePtr : f.writePtr = 0

/-! ## Pointers as counters -/

/-- The number of words in the queue. -/
def count (f : Fifo Word ptrWidth) : Nat := (f.writePtr - f.readPtr).toNat

/-- The memory by unbounded indices. -/
def cells (f : Fifo Word ptrWidth) (k : Nat) : Word :=
  f.queue (BitVec.ofNat ptrWidth k)

/-- The words in the queue, first to last. -/
def contents (f : Fifo Word ptrWidth) : List Word :=
  Ring.window f.cells (2 ^ ptrWidth) f.readPtr.toNat f.count

private theorem toNat_low (ptr : BitVec (ptrWidth + 1)) :
    (low ptr).toNat = ptr.toNat % 2 ^ ptrWidth :=
  BitVec.toNat_setWidth ptrWidth ptr

private theorem ptr_lt (ptr : BitVec (ptrWidth + 1)) : ptr.toNat < 2 * 2 ^ ptrWidth := by
  have h := ptr.isLt
  rw [Nat.pow_succ] at h
  omega

private theorem two_pow_succ (n : Nat) : 2 ^ (n + 1) = 2 * 2 ^ n := by
  rw [Nat.pow_succ, Nat.mul_comm]

/-- The low bits of a number below twice the modulus. -/
theorem mod_of_lt_double {x n : Nat} (h : x < 2 * n) :
    x < n ∧ x % n = x ∨ n ≤ x ∧ x % n = x - n := by
  by_cases hLow : x < n
  · exact Or.inl ⟨hLow, Nat.mod_eq_of_lt hLow⟩
  · refine Or.inr ⟨by omega, ?_⟩
    rw [Nat.mod_eq_sub_mod (by omega), Nat.mod_eq_of_lt (by omega)]

/-- Incrementing a pointer wraps around at the end. -/
theorem toNat_succ (ptr : BitVec (ptrWidth + 1)) :
    ptr.toNat + 1 = 2 * 2 ^ ptrWidth ∧ (ptr + 1).toNat = 0 ∨
      ptr.toNat + 1 < 2 * 2 ^ ptrWidth ∧ (ptr + 1).toNat = ptr.toNat + 1 := by
  have hLt := ptr_lt ptr
  have hOne : (1 : BitVec (ptrWidth + 1)).toNat = 1 := by simp
  rw [BitVec.toNat_add, hOne, two_pow_succ]
  by_cases hWrap : ptr.toNat + 1 = 2 * 2 ^ ptrWidth
  · exact Or.inl ⟨hWrap, by rw [hWrap, Nat.mod_self]⟩
  · have hNext : ptr.toNat + 1 < 2 * 2 ^ ptrWidth := by omega
    exact Or.inr ⟨hNext, Nat.mod_eq_of_lt hNext⟩

private theorem sign_eq (ptr : BitVec (ptrWidth + 1)) :
    ptr.getLsbD ptrWidth = decide (2 ^ ptrWidth ≤ ptr.toNat) := by
  have hMsb : ptr.msb = ptr.getLsbD ptrWidth := BitVec.msb_eq_getLsbD_last ptr
  rw [← hMsb, BitVec.msb_eq_decide]
  rfl

private theorem count_cases (f : Fifo Word ptrWidth) :
    f.readPtr.toNat ≤ f.writePtr.toNat ∧
        f.count = f.writePtr.toNat - f.readPtr.toNat ∨
      f.writePtr.toNat < f.readPtr.toNat ∧
        f.count = f.writePtr.toNat + 2 * 2 ^ ptrWidth - f.readPtr.toNat := by
  have hRead := ptr_lt f.readPtr
  have hWrite := ptr_lt f.writePtr
  rw [count, BitVec.toNat_sub, two_pow_succ]
  by_cases hLe : f.readPtr.toNat ≤ f.writePtr.toNat
  · have hSum : 2 * 2 ^ ptrWidth - f.readPtr.toNat + f.writePtr.toNat =
        f.writePtr.toNat - f.readPtr.toNat + 2 * 2 ^ ptrWidth := by omega
    refine Or.inl ⟨hLe, ?_⟩
    rw [hSum, Nat.add_mod_right, Nat.mod_eq_of_lt (by omega)]
  · refine Or.inr ⟨by omega, ?_⟩
    rw [Nat.mod_eq_of_lt (by omega)]
    omega

private theorem ptrEq_eq (f : Fifo Word ptrWidth) :
    f.ptrEq = decide (f.readPtr.toNat % 2 ^ ptrWidth =
      f.writePtr.toNat % 2 ^ ptrWidth) := by
  rw [ptrEq, Bool.eq_iff_iff, beq_iff_eq, decide_eq_true_eq, ← toNat_low,
    ← toNat_low, BitVec.toNat_inj]

/-- The top bits tell an empty queue from a full one. -/
theorem empty_eq (f : Fifo Word ptrWidth) :
    f.empty = decide (f.count = 0) := by
  have hRead := ptr_lt f.readPtr
  have hWrite := ptr_lt f.writePtr
  have hCount := count_cases f
  have hReadLow := mod_of_lt_double hRead
  have hWriteLow := mod_of_lt_double hWrite
  rw [empty, ptrEq_eq, signMatch, sign_eq, sign_eq, Bool.eq_iff_iff]
  simp only [Bool.and_eq_true, beq_iff_eq, decide_eq_true_eq, decide_eq_decide]
  omega

private theorem full_eq {f : Fifo Word ptrWidth} (h : f.count ≤ 2 ^ ptrWidth) :
    f.full = decide (f.count = 2 ^ ptrWidth) := by
  have hRead := ptr_lt f.readPtr
  have hWrite := ptr_lt f.writePtr
  have hCount := count_cases f
  have hReadLow := mod_of_lt_double hRead
  have hWriteLow := mod_of_lt_double hWrite
  rw [full, ptrEq_eq, signMatch, sign_eq, sign_eq, Bool.eq_iff_iff]
  simp only [Bool.and_eq_true, Bool.not_eq_true', decide_eq_true_eq,
    beq_eq_false_iff_ne, ne_eq, decide_eq_decide]
  omega

/-- `write_ptr` is `count` cells ahead of `read_ptr`. -/
theorem low_writePtr (f : Fifo Word ptrWidth) :
    (low f.writePtr).toNat = (f.readPtr.toNat + f.count) % 2 ^ ptrWidth := by
  have hDvd : 2 ^ ptrWidth ∣ 2 ^ (ptrWidth + 1) :=
    Nat.pow_dvd_pow 2 (Nat.le_succ ptrWidth)
  calc (low f.writePtr).toNat
      = (f.readPtr + (f.writePtr - f.readPtr)).toNat % 2 ^ ptrWidth := by
        rw [toNat_low, BitVec.add_comm, BitVec.sub_add_cancel]
    _ = (f.readPtr.toNat + f.count) % 2 ^ ptrWidth := by
        rw [BitVec.toNat_add, Nat.mod_mod_of_dvd _ hDvd, count]

private theorem low_readPtrNext (f : Fifo Word ptrWidth) :
    (low f.readPtrNext).toNat = (f.readPtr.toNat + 1) % 2 ^ ptrWidth := by
  have hDvd : 2 ^ ptrWidth ∣ 2 ^ (ptrWidth + 1) :=
    Nat.pow_dvd_pow 2 (Nat.le_succ ptrWidth)
  have hOne : (1 : BitVec (ptrWidth + 1)).toNat = 1 := by simp
  rw [toNat_low, readPtrNext, BitVec.toNat_add, Nat.mod_mod_of_dvd _ hDvd, hOne]

/-! ## The contents across a clock edge -/

/-- The ring from the next read pointer. -/
theorem window_readPtrNext (f : Fifo Word ptrWidth) (g : Nat → Word) (n : Nat) :
    Ring.window g (2 ^ ptrWidth) f.readPtrNext.toNat n =
      Ring.window g (2 ^ ptrWidth) (f.readPtr.toNat + 1) n := by
  rw [← Ring.window_mod, ← toNat_low, low_readPtrNext, Ring.window_mod]

/-- A cell is the memory word at the low bits of its index. -/
theorem queue_eq_cells (f : Fifo Word ptrWidth) (p : BitVec ptrWidth) :
    f.queue p = f.cells p.toNat := by
  rw [cells, BitVec.ofNat_toNat, BitVec.setWidth_eq]

/-- Writing at `write_ptr` appends. -/
theorem window_push (f : Fifo Word ptrWidth) (v : Word)
    (hRoom : f.count < 2 ^ ptrWidth) :
    Ring.window
        (fun k => Function.update f.queue (low f.writePtr) v (BitVec.ofNat _ k))
        (2 ^ ptrWidth) f.readPtr.toNat (f.count + 1) =
      f.contents ++ [v] := by
  rw [contents, ← Ring.window_push f.cells f.readPtr.toNat v hRoom]
  apply Ring.window_congr
  intro k _
  have hLt : (f.readPtr.toNat + k) % 2 ^ ptrWidth < 2 ^ ptrWidth :=
    Nat.mod_lt _ (Nat.two_pow_pos ptrWidth)
  by_cases hCell : (f.readPtr.toNat + k) % 2 ^ ptrWidth =
      (f.readPtr.toNat + f.count) % 2 ^ ptrWidth
  · have hHere : BitVec.ofNat ptrWidth ((f.readPtr.toNat + k) % 2 ^ ptrWidth) =
        low f.writePtr := by
      rw [hCell, ← low_writePtr, BitVec.ofNat_toNat, BitVec.setWidth_eq]
    rw [hHere, hCell, Function.update_self, Function.update_self]
  · have hOther : BitVec.ofNat ptrWidth ((f.readPtr.toNat + k) % 2 ^ ptrWidth) ≠
        low f.writePtr := by
      intro hEq
      apply hCell
      rw [← low_writePtr, ← hEq, BitVec.toNat_ofNat, Nat.mod_eq_of_lt hLt]
    rw [Function.update_of_ne hOther, Function.update_of_ne hCell]
    rfl

/-- The queue holds the words `t`, and the output register the first. -/
structure Holds (f : Fifo Word ptrWidth) (t : List Word) : Prop where
  room : f.count ≤ 2 ^ ptrWidth
  words : f.contents = t
  head : ∀ w, t.head? = some w → f.outputBufferR = w

theorem Holds.length {f : Fifo Word ptrWidth} {t : List Word} (h : Holds f t) :
    t.length = f.count := by
  rw [← h.words, contents, Ring.window_length]

theorem IsReset.holds {f : Fifo Word ptrWidth} (h : f.IsReset) :
    Holds f [] := by
  have hCount : f.count = 0 := by
    simp [count, h.readPtr, h.writePtr]
  exact
    { room := by rw [hCount]; exact Nat.zero_le _
      words := by rw [contents, hCount, Ring.window_zero]
      head := by intro w hw; simp at hw }

/-- The rest of the ring behind its first word. -/
theorem Holds.rest {f : Fifo Word ptrWidth} {w : Word} {rest : List Word}
    (h : Holds f (w :: rest)) :
    Ring.window f.cells (2 ^ ptrWidth) f.readPtrNext.toNat rest.length =
      rest := by
  have hLength := h.length
  have hContents := h.words
  rw [List.length_cons] at hLength
  rw [contents, ← hLength, Ring.window_succ, List.cons.injEq] at hContents
  rw [window_readPtrNext]
  exact hContents.2

/-- The memory word behind the first is the second word of the queue. -/
theorem Holds.second {f : Fifo Word ptrWidth} {w v : Word} {rest : List Word}
    (h : Holds f (w :: v :: rest)) : f.queue (low f.readPtrNext) = v := by
  have hRest := h.rest
  rw [List.length_cons, window_readPtrNext, Ring.window_succ,
    List.cons.injEq] at hRest
  rw [queue_eq_cells, low_readPtrNext]
  exact hRest.1

theorem Holds.dequeued {f : Fifo Word ptrWidth} {w : Word} {rest : List Word}
    (h : Holds f (w :: rest)) :
    Holds
      { f with
        outputBufferR := f.queue (low f.readPtrNext)
        readPtr := f.readPtrNext } rest := by
  have hLength := h.length
  have hRoom := h.room
  have hCount : (f.writePtr - f.readPtrNext).toNat = rest.length := by
    have hOld := count_cases f
    have hNew := count_cases { f with readPtr := f.readPtrNext }
    have hSucc := toNat_succ f.readPtr
    have hWrite := ptr_lt f.writePtr
    simp only [count, readPtrNext, List.length_cons] at *
    omega
  exact
    { room := by
        rw [List.length_cons] at hLength
        simp only [count, hCount]
        omega
      words := by
        simp only [contents, count, hCount]
        exact h.rest
      head := by
        intro v hv
        cases rest with
        | nil => simp at hv
        | cons v' rest' =>
            rw [List.head?_cons, Option.some.injEq] at hv
            rw [← hv]
            exact h.second }

theorem Holds.enqueued {f : Fifo Word ptrWidth} {t : List Word}
    (h : Holds f t) (hRoom : t.length < 2 ^ ptrWidth) (v : Word) :
    Holds
      { f with
        queue := Function.update f.queue (low f.writePtr) v
        writePtr := f.writePtrNext
        outputBufferR := if f.empty then v else f.outputBufferR }
      (t ++ [v]) := by
  have hLength := h.length
  have hCount : (f.writePtrNext - f.readPtr).toNat = f.count + 1 := by
    have hOld := count_cases f
    have hNew := count_cases { f with writePtr := f.writePtrNext }
    have hSucc := toNat_succ f.writePtr
    have hRead := ptr_lt f.readPtr
    simp only [count, writePtrNext] at *
    omega
  exact
    { room := by
        show (f.writePtrNext - f.readPtr).toNat ≤ 2 ^ ptrWidth
        omega
      words := by
        rw [← h.words, ← window_push f v (by omega), ← hCount]
        rfl
      head := by
        intro w hw
        rw [empty_eq]
        cases t with
        | nil =>
            rw [List.length_nil] at hLength
            rw [List.nil_append, List.head?_cons, Option.some.injEq] at hw
            simp [← hLength, hw]
        | cons w' rest =>
            have hSome : f.count ≠ 0 := by
              rw [← hLength, List.length_cons]
              omega
            rw [List.cons_append, List.head?_cons, Option.some.injEq] at hw
            simp only [hSome, decide_false, Bool.false_eq_true, if_false]
            exact h.head w (by rw [List.head?_cons, hw]) }

/-- The word that comes in goes straight to the output register when the last
one leaves. -/
theorem Holds.passed {f : Fifo Word ptrWidth} {w : Word} {rest : List Word}
    (h : Holds f (w :: rest)) (hRoom : (w :: rest).length < 2 ^ ptrWidth)
    (v : Word) :
    Holds
      { queue := Function.update f.queue (low f.writePtr) v
        writePtr := f.writePtrNext
        outputBufferR :=
          if low f.readPtrNext = low f.writePtr then v
          else f.queue (low f.readPtrNext)
        readPtr := f.readPtrNext } (rest ++ [v]) := by
  have hLength := h.length
  have hCount : (f.writePtrNext - f.readPtrNext).toNat = rest.length + 1 := by
    have hOld := count_cases f
    have hNew := count_cases
      { f with readPtr := f.readPtrNext, writePtr := f.writePtrNext }
    have hReadSucc := toNat_succ f.readPtr
    have hWriteSucc := toNat_succ f.writePtr
    simp only [count, readPtrNext, writePtrNext, List.length_cons] at *
    omega
  have hContents := window_push f v (by omega)
  rw [← hLength, h.words, List.length_cons, Ring.window_succ,
    List.cons_append, List.cons.injEq] at hContents
  exact
    { room := by
        rw [List.length_cons] at hRoom
        simp only [count, hCount]
        omega
      words := by
        simp only [contents, count, hCount]
        rw [← hContents.2]
        exact window_readPtrNext f _ _
      head := by
        intro u hu
        have hPlace : low f.readPtrNext = low f.writePtr ↔ rest = [] := by
          rw [← BitVec.toNat_inj, low_readPtrNext, low_writePtr, ← hLength]
          cases rest with
          | nil => simp
          | cons v' rest' =>
              have hNe : (f.readPtr.toNat + 1) % 2 ^ ptrWidth ≠
                  (f.readPtr.toNat + (w :: v' :: rest').length) %
                    2 ^ ptrWidth :=
                Ring.mod_ne_of_lt (by simp) hRoom
              simp only [hNe, reduceCtorEq]
        cases rest with
        | nil =>
            rw [List.nil_append, List.head?_cons, Option.some.injEq] at hu
            rw [if_pos (hPlace.2 rfl), hu]
        | cons v' rest' =>
            rw [List.cons_append, List.head?_cons, Option.some.injEq] at hu
            rw [if_neg (fun hEq => by simp at hPlace; exact hPlace hEq), ← hu]
            exact h.second }

/-! ## The queue over runs -/

/-- The FIFO over its clock cycles, with any inputs. -/
def fifoMachine (Word : Type) (ptrWidth : Nat) :
    Machine (Fifo Word ptrWidth) (FifoPorts Word)
      (BoundedQueue.Cycle Word) where
  step := clock
  emit := fun f i => [f.cycle i]
  legal := fun _ _ => True

private theorem enqueued_cycle (f : Fifo Word ptrWidth) (i : FifoPorts Word) :
    (f.cycle i).enqueued = if f.enqueue i then [i.dataI] else [] := by
  rw [enqueue, Bool.and_comm]
  rfl

private theorem dequeued_cycle (f : Fifo Word ptrWidth) (i : FifoPorts Word) :
    (f.cycle i).dequeued = if f.dequeue i then [f.dataO] else [] := by
  rw [dequeue, Bool.and_comm]
  rfl

/-- One cycle shows the queue and does to it what the queue does. -/
theorem Holds.step {f : Fifo Word ptrWidth} {t : List Word} (h : Holds f t)
    (i : FifoPorts Word) :
    (BoundedQueue.queue Word (2 ^ ptrWidth)).good t (f.cycle i) ∧
      Holds (f.clock i)
        ((BoundedQueue.queue Word (2 ^ ptrWidth)).next t (f.cycle i)) := by
  have hLength := h.length
  have hRoom := h.room
  have hReady : f.readyO = decide (t.length < 2 ^ ptrWidth) := by
    rw [readyO, full_eq hRoom, Bool.eq_iff_iff]
    simp only [Bool.not_eq_true', decide_eq_false_iff_not, decide_eq_true_eq]
    omega
  have hValid : f.validO = decide (t ≠ []) := by
    rw [validO, empty_eq, ← hLength, Bool.eq_iff_iff]
    simp
  have hAccepts : f.enqueue i = true → t.length < 2 ^ ptrWidth := by
    rw [enqueue, hReady, Bool.and_eq_true, decide_eq_true_eq]
    exact And.left
  have hOffers : f.dequeue i = true → t ≠ [] := by
    rw [dequeue, hValid, Bool.and_eq_true, decide_eq_true_eq]
    exact And.left
  refine ⟨⟨hReady, hValid, h.head⟩, ?_⟩
  simp only [BoundedQueue.queue, enqueued_cycle, dequeued_cycle, clock]
  cases hIn : f.enqueue i with
  | false =>
      cases hOut : f.dequeue i with
      | false => simpa using h
      | true =>
          obtain ⟨w, rest, rfl⟩ := List.exists_cons_of_ne_nil (hOffers hOut)
          simpa using h.dequeued
  | true =>
      cases hOut : f.dequeue i with
      | false => simpa using h.enqueued (hAccepts hIn) i.dataI
      | true =>
          obtain ⟨w, rest, rfl⟩ := List.exists_cons_of_ne_nil (hOffers hOut)
          simpa using h.passed (hAccepts hIn) i.dataI

/--
**The FIFO.**  After reset it is a queue of `2 ^ ptr_width_p` words, for every
pointer width and every input sequence: each cycle shows what the queue shows,
the words in the memory are those of the queue, and no word is lost, duplicated
or reordered.
-/
theorem fifo_refines {f : Fifo Word ptrWidth} (hReset : f.IsReset)
    (is : List (FifoPorts Word)) :
    (BoundedQueue.queue Word (2 ^ ptrWidth)).Accepts []
        ((fifoMachine Word ptrWidth).events f is) ∧
      ((fifoMachine Word ptrWidth).run f is).contents =
        (BoundedQueue.queue Word (2 ^ ptrWidth)).after []
          ((fifoMachine Word ptrWidth).events f is) ∧
      BoundedQueue.enqueued ((fifoMachine Word ptrWidth).events f is) =
        BoundedQueue.dequeued ((fifoMachine Word ptrWidth).events f is) ++
          ((fifoMachine Word ptrWidth).run f is).contents := by
  have hLegal : (fifoMachine Word ptrWidth).Legal f is :=
    (fifoMachine Word ptrWidth).always_of_forall (fun _ _ => trivial) f is
  obtain ⟨hAcc, hHolds⟩ := (fifoMachine Word ptrWidth).simulates
    (BoundedQueue.queue Word (2 ^ ptrWidth)) (R := Holds)
    (fun g t i h _ => ⟨⟨(h.step i).1, trivial⟩, (h.step i).2⟩)
    is f [] hReset.holds hLegal
  refine ⟨hAcc, hHolds.words, ?_⟩
  rw [hHolds.words, ← BoundedQueue.conservation _ _ hAcc, List.nil_append]

/-- Two words deep: filled, passed through while full, and drained. -/
theorem fifo_refines_wrapped :
    let f : Fifo Nat 1 := ⟨fun _ => 0, 0, 0, 0⟩
    let is : List (FifoPorts Nat) :=
      [⟨1, true, false⟩, ⟨2, true, true⟩, ⟨3, true, false⟩, ⟨4, true, true⟩,
        ⟨5, true, true⟩, ⟨6, false, true⟩]
    BoundedQueue.enqueued ((fifoMachine Nat 1).events f is) =
        BoundedQueue.dequeued ((fifoMachine Nat 1).events f is) ++
          ((fifoMachine Nat 1).run f is).contents ∧
      BoundedQueue.dequeued ((fifoMachine Nat 1).events f is) =
        [1, 2, 3, 5] :=
  ⟨(fifo_refines ⟨rfl, rfl⟩ _).2.2, by decide⟩

end Fifo

end CompE.Mp0
