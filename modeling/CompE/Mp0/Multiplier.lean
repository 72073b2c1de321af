import CompE.Library.Machine
import CompE.Library.ShiftAdd

/-!
# `add_shift_multiplier`

A sequential multiplier of two words of `width_p` bits.  The registers `C`, `A`
and `Q` are one long register: a round adds the multiplicand to `A` if the
lowest bit of `Q` is set, in one cycle, and moves `{C, A, Q}` down by one bit in
the next.  It is ready before the first multiplication and after each one, and
takes no notice of `start_i` in between.

The long register is the partial product of adding and shifting
(`Running.round`), so that after `width_p` rounds it is the product
(`multiplies`).
-/

namespace CompE.Mp0.Multiplier

open CompE.Library

/-- `op_e`. -/
inductive Op where
  | none
  | add
  | shift
  | done
  deriving DecidableEq

/-- `mstate_s`.  `iteration` counts up to `width_p`; both are an `int`. -/
structure MState (width : Nat) where
  ready : Bool
  done : Bool
  iteration : Nat
  op : Op
  m : BitVec width
  c : Bool
  a : BitVec width
  q : BitVec width

/-- The inputs of `add_shift_multiplier`. -/
structure Ports (width : Nat) where
  resetN : Bool
  multiplicand : BitVec width
  multiplier : BitVec width
  start : Bool

variable {width : Nat}

namespace MState

/-! ## The design -/

/-- `reset`. -/
def reset : MState width where
  ready := true
  done := false
  iteration := 0
  op := .none
  m := 0
  c := false
  a := 0
  q := 0

/-- `init`. -/
def init (multiplicand multiplier : BitVec width) : MState width where
  ready := false
  done := false
  iteration := 0
  op := .add
  m := multiplicand
  c := false
  a := 0
  q := multiplier

/-- `add`.  `{next.C, next.A}` gives the sum one more bit. -/
def add (cur : MState width) : MState width :=
  if cur.q.getLsbD 0 then
    let sum := cur.a.setWidth (width + 1) + cur.m.setWidth (width + 1)
    { cur with op := .shift, c := sum.getLsbD width, a := sum.setWidth width }
  else { cur with op := .shift, c := false }

/-- `{cur.C, cur.A, cur.Q[width_p-1:1]}`: all but the lowest bit. -/
def moved (cur : MState width) : BitVec (width + width) :=
  (BitVec.ofBool cur.c ++ cur.a ++ cur.q).extractLsb' 1 (width + width)

/-- `shift`. -/
def shift (cur : MState width) : MState width :=
  let next :=
    { cur with
      a := cur.moved.extractLsb' width width
      q := cur.moved.extractLsb' 0 width
      op := .add
      iteration := cur.iteration + 1 }
  if next.iteration = width then
    { next with op := .done, done := true, ready := true }
  else next

section Clock

variable (ms : MState width) (i : Ports width)

def readyO : Bool := ms.ready

def doneO : Bool := ms.done

/-- `{ms.A, ms.Q}`. -/
def productO : BitVec (width + width) := ms.a ++ ms.q

def updateState : Bool :=
  !i.resetN || i.start || ms.op == .add || ms.op == .shift

/-- One clock edge. -/
def clock : MState width :=
  if !i.resetN then reset
  else if ms.updateState i then
    if i.start && ms.readyO then init i.multiplicand i.multiplier
    else
      match ms.op with
      | .add => ms.add
      | .shift => ms.shift
      | .none | .done => reset
  else ms

end Clock

end MState

/-- What is seen of a cycle besides the product. -/
structure Seen where
  op : Op
  ready : Bool
  done : Bool
  deriving DecidableEq

def machine (width : Nat) : Machine (MState width) (Ports width) Seen where
  step := MState.clock
  emit ms _ := [⟨ms.op, ms.readyO, ms.doneO⟩]
  legal _ _ := True

/-! ## The registers as numbers -/

theorem toNat_append {v w : Nat} (x : BitVec v) (y : BitVec w) :
    (x ++ y).toNat = x.toNat * 2 ^ w + y.toNat := by
  rw [BitVec.toNat_append, ← Nat.shiftLeft_add_eq_or_of_lt y.isLt,
    Nat.shiftLeft_eq]

/-- The top bit and the others. -/
theorem toNat_split {w : Nat} (x : BitVec (w + 1)) :
    (x.getLsbD w).toNat * 2 ^ w + (x.setWidth w).toNat = x.toNat := by
  have hTop : x.toNat / 2 ^ w < 2 := by
    rw [Nat.div_lt_iff_lt_mul (Nat.two_pow_pos w), Nat.mul_comm, ← Nat.pow_succ]
    exact x.isLt
  rw [BitVec.getLsbD, Nat.toNat_testBit, Nat.mod_eq_of_lt hTop,
    BitVec.toNat_setWidth, Nat.mul_comm, Nat.div_add_mod]

namespace MState

variable (ms : MState width)

/-- `{A, Q}` as a number. -/
def value : Nat := ms.a.toNat * 2 ^ width + ms.q.toNat

/-- `{C, A, Q}` as a number. -/
def carried : Nat :=
  (ms.c.toNat * 2 ^ width + ms.a.toNat) * 2 ^ width + ms.q.toNat

private theorem toNat_productO : ms.productO.toNat = ms.value := toNat_append _ _

/-- An addition of the multiplicand, if the lowest bit asks for it. -/
theorem carried_add (h : 0 < width) :
    ms.add.carried = ms.value + ms.value % 2 * (ms.m.toNat * 2 ^ width) := by
  have hBit : ms.value % 2 = (ms.q.getLsbD 0).toNat := by
    obtain ⟨n, rfl⟩ : ∃ n, width = n + 1 := ⟨width - 1, by omega⟩
    have hEven : ms.a.toNat * 2 ^ (n + 1) = 2 * (ms.a.toNat * 2 ^ n) := by
      rw [Nat.pow_succ]
      ring
    rw [value, hEven, Nat.mul_add_mod, BitVec.getLsbD, Nat.toNat_testBit,
      Nat.pow_zero, Nat.div_one]
  rw [hBit, add]
  cases ms.q.getLsbD 0 with
  | false =>
      simp only [Bool.false_eq_true, if_false, carried, value, Bool.toNat_false]
      ring
  | true =>
      have hSum : (ms.a.setWidth (width + 1) + ms.m.setWidth (width + 1)).toNat =
          ms.a.toNat + ms.m.toNat := by
        have hA := ms.a.isLt
        have hM := ms.m.isLt
        have hPow := Nat.pow_succ 2 width
        rw [BitVec.toNat_add, BitVec.toNat_setWidth_of_le (by omega),
          BitVec.toNat_setWidth_of_le (by omega), Nat.mod_eq_of_lt (by omega)]
      have hSplit := toNat_split
        (ms.a.setWidth (width + 1) + ms.m.setWidth (width + 1))
      simp only [if_true, carried, hSplit, hSum, value, Bool.toNat_true]
      ring

/-- A shift halves. -/
theorem value_shift : ms.shift.value = ms.carried / 2 := by
  have hMoved : ms.moved.toNat = ms.carried / 2 := by
    have hAll : (BitVec.ofBool ms.c ++ ms.a ++ ms.q).toNat = ms.carried := by
      rw [toNat_append, toNat_append, BitVec.toNat_ofBool, carried]
    have hLt := (BitVec.ofBool ms.c ++ ms.a ++ ms.q).isLt
    have hPow : 2 ^ (1 + width + width) = 2 * 2 ^ (width + width) := by
      rw [Nat.add_assoc, Nat.add_comm, Nat.pow_succ, Nat.mul_comm]
    rw [moved, BitVec.extractLsb'_toNat, hAll, Nat.shiftRight_eq_div_pow,
      Nat.pow_one, Nat.mod_eq_of_lt (by omega)]
  have hHalves : ms.shift.value =
      (ms.moved.extractLsb' width width).toNat * 2 ^ width +
        (ms.moved.extractLsb' 0 width).toNat := by
    unfold shift value
    simp only
    split <;> rfl
  have hUpper : ms.moved.toNat / 2 ^ width < 2 ^ width := by
    rw [Nat.div_lt_iff_lt_mul (Nat.two_pow_pos width), ← Nat.pow_add]
    exact ms.moved.isLt
  rw [hHalves, BitVec.extractLsb'_toNat, BitVec.extractLsb'_toNat,
    Nat.shiftRight_eq_div_pow, Nat.shiftRight_zero, Nat.mod_eq_of_lt hUpper,
    Nat.mul_comm, Nat.div_add_mod, hMoved]

end MState

/-! ## Rounds -/

/-- `k` rounds are over, and others are to come. -/
structure Running (a b : BitVec width) (k : Nat) (ms : MState width) : Prop where
  ready : ms.ready = false
  done : ms.done = false
  op : ms.op = .add
  iteration : ms.iteration = k
  m : ms.m = a
  value : ms.value = ShiftAdd.partialProduct width a.toNat b.toNat k

/-- The multiplication is over. -/
structure Finished (a b : BitVec width) (ms : MState width) : Prop where
  ready : ms.readyO = true
  done : ms.doneO = true
  product : ms.productO.toNat = a.toNat * b.toNat

private theorem running_init (a b : BitVec width) :
    Running a b 0 (MState.init a b) where
  ready := rfl
  done := rfl
  op := rfl
  iteration := rfl
  m := rfl
  value := by
    rw [ShiftAdd.partialProduct_zero, MState.value]
    simp [MState.init]

/-- Outside reset a multiplier that is not ready does what its state says,
whatever is on the other inputs. -/
theorem clock_busy {ms : MState width} {i : Ports width}
    (hReset : i.resetN = true) (hReady : ms.ready = false) :
    (ms.op = .add → ms.clock i = ms.add) ∧
      (ms.op = .shift → ms.clock i = ms.shift) := by
  constructor
  · intro hOp
    simp [MState.clock, MState.updateState, MState.readyO, hReset, hReady, hOp]
  · intro hOp
    simp [MState.clock, MState.updateState, MState.readyO, hReset, hReady, hOp]

section Round

variable {a b : BitVec width} {k : Nat} {ms : MState width}

/-- What an addition leaves as it is. -/
theorem add_frame (ms : MState width) :
    ms.add.ready = ms.ready ∧ ms.add.done = ms.done ∧ ms.add.op = .shift ∧
      ms.add.iteration = ms.iteration ∧ ms.add.m = ms.m := by
  unfold MState.add
  split
  · exact ⟨rfl, rfl, rfl, rfl, rfl⟩
  · exact ⟨rfl, rfl, rfl, rfl, rfl⟩

/-- The value after an addition and a shift. -/
theorem Running.value_round (h : Running a b k ms) (hMore : k < width) :
    ms.add.shift.value =
      ShiftAdd.partialProduct width a.toNat b.toNat (k + 1) := by
  rw [MState.value_shift, MState.carried_add ms (by omega), h.value, h.m,
    ShiftAdd.partialProduct_succ _ _ hMore]

theorem Running.round (h : Running a b k ms) (hMore : k + 1 < width) :
    Running a b (k + 1) ms.add.shift := by
  have hValue := h.value_round (by omega)
  obtain ⟨hReady, hDone, _, hIteration, hM⟩ := add_frame ms
  have hNot : ¬ ms.add.iteration + 1 = width := by
    rw [hIteration, h.iteration]
    omega
  have hNext : ms.add.shift =
      { ms.add with
        a := ms.add.moved.extractLsb' width width
        q := ms.add.moved.extractLsb' 0 width
        op := .add
        iteration := ms.add.iteration + 1 } := by
    unfold MState.shift
    exact if_neg hNot
  constructor
  · rw [hNext]
    exact hReady.trans h.ready
  · rw [hNext]
    exact hDone.trans h.done
  · rw [hNext]
  · rw [hNext, hIteration, h.iteration]
  · rw [hNext]
    exact hM.trans h.m
  · exact hValue

theorem Running.last_round (h : Running a b k ms) (hLast : k + 1 = width) :
    Finished a b ms.add.shift := by
  have hValue := h.value_round (by omega)
  obtain ⟨_, _, _, hIteration, _⟩ := add_frame ms
  have hAll : ms.add.iteration + 1 = width := by
    rw [hIteration, h.iteration, hLast]
  have hNext : ms.add.shift.ready = true ∧ ms.add.shift.done = true := by
    unfold MState.shift
    simp only [if_pos hAll, and_self]
  refine ⟨hNext.1, hNext.2, ?_⟩
  rw [MState.toNat_productO, hValue, hLast,
    ShiftAdd.partialProduct_last _ b.isLt]

end Round

/-- What is seen of `n` rounds. -/
def roundsSeen (n : Nat) : List Seen :=
  (List.replicate n [⟨.add, false, false⟩, ⟨.shift, false, false⟩]).flatten

private theorem roundsSeen_succ (n : Nat) :
    roundsSeen (n + 1) =
      ⟨.add, false, false⟩ :: ⟨.shift, false, false⟩ :: roundsSeen n := by
  rw [roundsSeen, List.replicate_succ, List.flatten_cons]
  rfl

/-- The inputs of two clocks. -/
theorem two_clocks {is : List (Ports width)} {n : Nat} (h : is.length = 2 * (n + 1)) :
    ∃ i j rest, is = i :: j :: rest ∧ rest.length = 2 * n := by
  obtain ⟨i, js, rfl⟩ := List.exists_cons_of_length_pos (l := is) (by omega)
  rw [List.length_cons] at h
  obtain ⟨j, rest, rfl⟩ := List.exists_cons_of_length_pos (l := js) (by omega)
  rw [List.length_cons] at h
  exact ⟨i, j, rest, rfl, by omega⟩

/-- The rounds that are left, one after the other. -/
theorem Running.rounds {a b : BitVec width} (n : Nat) :
    ∀ {k : Nat} {ms : MState width}, Running a b k ms → k + (n + 1) = width →
      ∀ is : List (Ports width), is.length = 2 * (n + 1) →
        (∀ i ∈ is, i.resetN = true) →
          (machine width).events ms is = roundsSeen (n + 1) ∧
            Finished a b ((machine width).run ms is) := by
  induction n with
  | zero =>
      intro k ms h hLast is hLength hReset
      obtain ⟨i, j, rest, rfl, hRest⟩ := two_clocks hLength
      obtain rfl := List.eq_nil_of_length_eq_zero hRest
      have hFrame := add_frame ms
      have hAdd := (clock_busy (hReset i (by simp)) h.ready).1 h.op
      have hShift := (clock_busy (hReset j (by simp))
        (hFrame.1.trans h.ready)).2 hFrame.2.2.1
      have hEnd := h.last_round (by omega)
      simp only [machine, Machine.events, Machine.run, hAdd, hShift]
      refine ⟨?_, hEnd⟩
      simp [MState.readyO, MState.doneO, h.op, h.ready, h.done, hFrame,
        roundsSeen]
  | succ n ih =>
      intro k ms h hLast is hLength hReset
      obtain ⟨i, j, rest, rfl, hLeft⟩ := two_clocks hLength
      have hFrame := add_frame ms
      have hAdd := (clock_busy (hReset i (by simp)) h.ready).1 h.op
      have hShift := (clock_busy (hReset j (by simp))
        (hFrame.1.trans h.ready)).2 hFrame.2.2.1
      have hRest := ih (h.round (by omega)) (by omega) rest hLeft
        (fun i hi => hReset i (by simp [hi]))
      rw [roundsSeen_succ]
      simp only [machine, Machine.events, Machine.run, hAdd, hShift] at hRest ⊢
      refine ⟨?_, hRest.2⟩
      rw [hRest.1]
      simp [MState.readyO, MState.doneO, h.op, h.ready, h.done, hFrame]

/-- **The product, after as many additions and shifts as there are bits.**
From any state, also one that no run leads to, and after any inputs: if the
multiplier is ready and is started, then as long as there is no reset it is
neither ready nor done for `width_p` additions and `width_p` shifts, taking
turns, whatever is on `start_i` and the operands; then it is both, and the
product is that of the operands at the start. -/
theorem multiplies (hWidth : 0 < width) (power : MState width)
    (history : List (Ports width)) (start : Ports width)
    (is : List (Ports width))
    (hReady : ((machine width).run power history).readyO = true)
    (hStart : start.resetN = true ∧ start.start = true)
    (hLength : is.length = 2 * width) (hReset : ∀ i ∈ is, i.resetN = true) :
    let ms := ((machine width).run power history).clock start
    (machine width).events ms is = roundsSeen width ∧
      Finished start.multiplicand start.multiplier
        ((machine width).run ms is) := by
  intro ms
  have hInit : ms = MState.init start.multiplicand start.multiplier := by
    simp [ms, MState.clock, MState.updateState, hReady, hStart]
  obtain ⟨n, rfl⟩ : ∃ n, width = n + 1 := ⟨width - 1, by omega⟩
  rw [hInit]
  exact (running_init start.multiplicand start.multiplier).rounds n (by omega)
    is hLength hReset

/-- Three times five on four bits, after a multiplication that was reset, with
`start_i` high and other operands all the time. -/
theorem multiplies_threeTimesFive :
    let power : MState 4 := ⟨true, true, 7, .done, 9, true, 2, 1⟩
    let history : List (Ports 4) :=
      [⟨true, 15, 15, true⟩, ⟨true, 1, 1, false⟩, ⟨false, 0, 0, true⟩]
    let start : Ports 4 := ⟨true, 3, 5, true⟩
    let is : List (Ports 4) := List.replicate 8 ⟨true, 14, 13, true⟩
    (machine 4).events (((machine 4).run power history).clock start) is =
        roundsSeen 4 ∧
      Finished 3 5
        ((machine 4).run (((machine 4).run power history).clock start) is) :=
  multiplies (by decide) _ _ ⟨true, 3, 5, true⟩ _ (by decide) (by decide)
    (by decide) (by decide)

end CompE.Mp0.Multiplier
