import CompE.Library.Burst
import CompE.Library.Trace

/-!
# `cacheline_adaptor`

The adaptor between the arbiter and the memory: a line of 256 bits on one side,
four words of 64 bits on the other.  The outputs are functions of the state and
the inputs.  The first state of a transfer waits for `resp_i`; the three that
follow do not look at it, so the memory has to send or take the other words in
the next three cycles.

`adaptor_transfers` follows the ports over any sequence of transfers and gaps
between them.
-/

namespace CompE.Caches

open CompE.Library
open scoped CompE.Library.Burst

/-- The states of `cacheline_adaptor`.  No transition leads to `store`. -/
inductive AdaptorState where
  | idle
  | load0
  | load1
  | load2
  | load3
  | load4
  | store
  | store0
  | store1
  | store2
  | store3
  | store4
  deriving DecidableEq, Repr

/-- The registers of `cacheline_adaptor`.  `reset_n` is not used: `temp` may
hold anything at power-up. -/
structure CachelineAdaptor where
  state : AdaptorState
  temp : BitVec 256

/-- The inputs. -/
structure AdaptorPorts where
  lineI : BitVec 256
  addressI : BitVec 32
  readI : Bool
  writeI : Bool
  burstI : BitVec 64
  respI : Bool

/-- The outputs. -/
structure AdaptorOutputs where
  lineO : BitVec 256
  respO : Bool
  burstO : BitVec 64
  addressO : BitVec 32
  readO : Bool
  writeO : Bool
  deriving DecidableEq

namespace CachelineAdaptor

/-- `next_temp`. -/
def nextTemp (c : CachelineAdaptor) (i : AdaptorPorts) : BitVec 256 :=
  match c.state with
  | .load0 => Burst.setWord c.temp 0 i.burstI
  | .load1 => Burst.setWord c.temp 1 i.burstI
  | .load2 => Burst.setWord c.temp 2 i.burstI
  | .load3 => Burst.setWord c.temp 3 i.burstI
  | _ => c.temp

/-- The outputs of the cycle. -/
def outputs (c : CachelineAdaptor) (i : AdaptorPorts) : AdaptorOutputs :=
  let defaults : AdaptorOutputs :=
    { lineO := c.temp
      respO := false
      burstO := 0#64
      addressO := i.addressI
      readO := false
      writeO := false }
  match c.state with
  | .load0 | .load1 | .load2 | .load3 => { defaults with readO := true }
  | .load4 => { defaults with respO := true }
  | .store0 => { defaults with burstO := Burst.word i.lineI 0, writeO := true }
  | .store1 => { defaults with burstO := Burst.word i.lineI 1, writeO := true }
  | .store2 => { defaults with burstO := Burst.word i.lineI 2, writeO := true }
  | .store3 => { defaults with burstO := Burst.word i.lineI 3, writeO := true }
  | .store4 => { defaults with respO := true }
  | .idle | .store => defaults

/-- `next_state`. -/
def nextState (c : CachelineAdaptor) (i : AdaptorPorts) : AdaptorState :=
  match c.state with
  | .idle => if i.readI then .load0 else if i.writeI then .store0 else .idle
  | .load0 => if i.respI then .load1 else .load0
  | .load1 => .load2
  | .load2 => .load3
  | .load3 => .load4
  | .load4 => .idle
  | .store => if i.respI then .store0 else .store
  | .store0 => if i.respI then .store1 else .store0
  | .store1 => .store2
  | .store2 => .store3
  | .store3 => .store4
  | .store4 => .idle

/-- The adaptor cycle by cycle; the environment is the input sequence. -/
def machine : Machine CachelineAdaptor AdaptorPorts AdaptorOutputs where
  step c i := ⟨c.nextState i, c.nextTemp i⟩
  emit c i := [c.outputs i]
  legal _ _ := True

/-! ## Transfers -/

/-- A transfer at the ports.  The client holds its request, the address and
the line until `resp_o`.  The memory waits, then sends or takes four words in
consecutive cycles that it marks with `resp_i`; what is on `burst_i` while it
sends nothing is left open. -/
structure Transfer where
  isLoad : Bool
  address : BitVec 32
  line : BitVec 256
  /-- `burst_i` in the cycle of the request -/
  first : BitVec 64
  /-- `burst_i` while the memory waits -/
  waits : List (BitVec 64)
  /-- `burst_i` in the four beats: the words of a load -/
  beats : Fin 4 → BitVec 64
  /-- `burst_i` in the cycle of `resp_o` -/
  last : BitVec 64

/-- A cycle between two transfers: no request; the other inputs may be
anything. -/
structure Gap where
  line : BitVec 256
  address : BitVec 32
  burst : BitVec 64
  resp : Bool

def Gap.ports (g : Gap) : AdaptorPorts :=
  { lineI := g.line, addressI := g.address, readI := false, writeI := false
    burstI := g.burst, respI := g.resp }

namespace Transfer

/-- The inputs of a cycle of the transfer. -/
def ports (t : Transfer) (burst : BitVec 64) (resp : Bool) : AdaptorPorts :=
  { lineI := t.line, addressI := t.address, readI := t.isLoad
    writeI := !t.isLoad, burstI := burst, respI := resp }

def inputs (t : Transfer) : List AdaptorPorts :=
  t.ports t.first false ::
    (t.waits.map (t.ports · false) ++
      [t.ports (t.beats 0) true, t.ports (t.beats 1) true,
        t.ports (t.beats 2) true, t.ports (t.beats 3) true,
        t.ports t.last false])

end Transfer

/-- What the outputs of a cycle should be; `line_o` and `burst_o` matter only
where they are given. -/
structure Expected where
  resp : Bool
  read : Bool
  write : Bool
  address : BitVec 32
  burst : Option (BitVec 64)
  line : Option (BitVec 256)

structure Meets (o : AdaptorOutputs) (e : Expected) : Prop where
  resp : o.respO = e.resp
  read : o.readO = e.read
  write : o.writeO = e.write
  address : o.addressO = e.address
  burst : ∀ w, e.burst = some w → o.burstO = w
  line : ∀ l, e.line = some l → o.lineO = l

namespace Transfer

/-- No transfer with the memory. -/
def quiet (address : BitVec 32) : Expected :=
  { resp := false, read := false, write := false, address := address
    burst := none, line := none }

/-- The memory is asked for word `k`, or is given it. -/
def moving (t : Transfer) (k : Fin 4) : Expected :=
  { resp := false, read := t.isLoad, write := !t.isLoad, address := t.address
    burst := if t.isLoad then none else some (Burst.word t.line k)
    line := none }

/-- The answer: a load delivers the line of the four beats. -/
def answer (t : Transfer) : Expected :=
  { resp := true, read := false, write := false, address := t.address
    burst := none
    line := if t.isLoad then some (Burst.ofWords t.beats) else none }

/-- The request cycle, the wait, the four beats, the answer. -/
def expected (t : Transfer) : List Expected :=
  quiet t.address ::
    (t.waits.map (fun _ => t.moving 0) ++
      [t.moving 0, t.moving 1, t.moving 2, t.moving 3, t.answer])

end Transfer

/-! ## The parts of a transfer -/

/-- Between transfers. -/
def Idle (c : CachelineAdaptor) : Prop := c.state = .idle

/-- The first state of a transfer with the memory. -/
def Waiting (t : Transfer) (c : CachelineAdaptor) : Prop :=
  c.state = if t.isLoad then .load0 else .store0

section Parts

variable (t : Transfer) (temp : BitVec 256)

private theorem meets_load {st : AdaptorState} (hLoad : t.isLoad = true) (k : Fin 4)
    (burst : BitVec 64) (resp : Bool)
    (h : st = .load0 ∨ st = .load1 ∨ st = .load2 ∨ st = .load3) :
    Meets (outputs ⟨st, temp⟩ (t.ports burst resp)) (t.moving k) := by
  rcases h with rfl | rfl | rfl | rfl <;>
    constructor <;>
      simp [outputs, Transfer.moving, Transfer.ports, hLoad]

private theorem meets_store {st : AdaptorState} (hStore : t.isLoad = false) (k : Fin 4)
    (burst : BitVec 64) (resp : Bool)
    (h : (outputs ⟨st, temp⟩ (t.ports burst resp)) =
      { lineO := temp, respO := false, burstO := Burst.word t.line k
        addressO := t.address, readO := false, writeO := true }) :
    Meets (outputs ⟨st, temp⟩ (t.ports burst resp)) (t.moving k) := by
  rw [h]
  constructor <;> simp [Transfer.moving, hStore]

theorem shows_request (c : CachelineAdaptor) (h : Idle c) {is : List AdaptorPorts}
    {es : List Expected} {P : CachelineAdaptor → Prop}
    (hRest : ∀ c', Waiting t c' → machine.Shows Meets P c' is es) :
    machine.Shows Meets P c (t.ports t.first false :: is)
      (Transfer.quiet t.address :: es) := by
  obtain ⟨st, temp⟩ := c
  cases h
  refine .cycle rfl ?_ (hRest _ ?_)
  · constructor <;> simp [outputs, Transfer.quiet, Transfer.ports]
  · cases hLoad : t.isLoad <;>
      simp [Waiting, machine, nextState, Transfer.ports, hLoad]

/-- The memory may wait as long as it likes. -/
theorem shows_waits (c : CachelineAdaptor) (h : Waiting t c) :
    machine.Shows Meets (Waiting t) c (t.waits.map (t.ports · false))
      (t.waits.map fun _ => t.moving 0) := by
  rw [List.map_eq_flatMap, List.map_eq_flatMap]
  refine Machine.Shows.flatMap (fun burst c h => ?_) t.waits c h
  obtain ⟨st, temp⟩ := c
  cases hLoad : t.isLoad with
  | true =>
      simp only [Waiting, hLoad, if_true] at h
      subst h
      refine .cycle rfl (meets_load t temp hLoad 0 _ _ (.inl rfl)) (.nil ?_)
      simp [Waiting, hLoad, machine, nextState, Transfer.ports]
  | false =>
      simp only [Waiting, hLoad, Bool.false_eq_true, if_false] at h
      subst h
      refine .cycle rfl (meets_store t temp hLoad 0 _ _ rfl) (.nil ?_)
      simp [Waiting, hLoad, machine, nextState, Transfer.ports]

/-- The four words of a load and its answer. -/
theorem shows_loadBeats (hLoad : t.isLoad = true) :
    machine.Shows Meets Idle ⟨.load0, temp⟩
      [t.ports (t.beats 0) true, t.ports (t.beats 1) true,
        t.ports (t.beats 2) true, t.ports (t.beats 3) true,
        t.ports t.last false]
      [t.moving 0, t.moving 1, t.moving 2, t.moving 3, t.answer] := by
  refine .cycle rfl (meets_load t _ hLoad 0 _ _ (by simp)) ?_
  refine .cycle rfl (meets_load t _ hLoad 1 _ _ (.inr (.inl rfl))) ?_
  refine .cycle rfl (meets_load t _ hLoad 2 _ _ (.inr (.inr (.inl rfl)))) ?_
  refine .cycle rfl (meets_load t _ hLoad 3 _ _ (.inr (.inr (.inr rfl)))) ?_
  refine .cycle rfl ?_ (.nil rfl)
  refine { resp := rfl, read := rfl, write := rfl, address := rfl
           burst := nofun, line := ?_ }
  intro l hl
  simp only [Transfer.answer, hLoad, if_true, Option.some.injEq] at hl
  rw [← hl]
  exact Burst.setWord_four temp t.beats

/-- The four words of a store and its answer. -/
theorem shows_storeBeats (hStore : t.isLoad = false) :
    machine.Shows Meets Idle ⟨.store0, temp⟩
      [t.ports (t.beats 0) true, t.ports (t.beats 1) true,
        t.ports (t.beats 2) true, t.ports (t.beats 3) true,
        t.ports t.last false]
      [t.moving 0, t.moving 1, t.moving 2, t.moving 3, t.answer] := by
  refine .cycle rfl (meets_store t _ hStore 0 _ _ rfl) ?_
  refine .cycle rfl (meets_store t _ hStore 1 _ _ rfl) ?_
  refine .cycle rfl (meets_store t _ hStore 2 _ _ rfl) ?_
  refine .cycle rfl (meets_store t _ hStore 3 _ _ rfl) ?_
  refine .cycle rfl ?_ (.nil rfl)
  refine { resp := rfl, read := rfl, write := rfl, address := rfl
           burst := nofun, line := ?_ }
  intro l hl
  simp [Transfer.answer, hStore] at hl

end Parts

/-- One transfer, from idle to idle. -/
theorem Transfer.shows (t : Transfer) (c : CachelineAdaptor) (h : Idle c) :
    machine.Shows Meets Idle c t.inputs t.expected := by
  refine shows_request t c h fun c' hWaiting => ?_
  refine (shows_waits t c' hWaiting).append fun c'' h => ?_
  obtain ⟨st, temp⟩ := c''
  cases hLoad : t.isLoad with
  | true =>
      simp only [Waiting, hLoad, if_true] at h
      subst h
      exact shows_loadBeats t temp hLoad
  | false =>
      simp only [Waiting, hLoad, Bool.false_eq_true, if_false] at h
      subst h
      exact shows_storeBeats t temp hLoad

/-! ## Sequences of transfers -/

/-- What happens at the ports: a gap cycle or a transfer. -/
inductive Activity where
  | gap (g : Gap)
  | transfer (t : Transfer)

def Activity.inputs : Activity → List AdaptorPorts
  | .gap g => [g.ports]
  | .transfer t => t.inputs

def Activity.expected : Activity → List Expected
  | .gap g => [Transfer.quiet g.address]
  | .transfer t => t.expected

def Activity.isTransfer : Activity → Bool
  | .gap _ => false
  | .transfer _ => true

theorem Activity.shows (a : Activity) (c : CachelineAdaptor) (h : Idle c) :
    machine.Shows Meets Idle c a.inputs a.expected := by
  cases a with
  | gap g =>
      obtain ⟨st, temp⟩ := c
      cases h
      refine .cycle rfl ?_ (.nil rfl)
      constructor <;> simp [outputs, Transfer.quiet, Gap.ports]
  | transfer t => exact t.shows c h

/-- A transfer is answered once. -/
theorem Activity.countP_resp (a : Activity) :
    a.expected.countP (·.resp) = if a.isTransfer then 1 else 0 := by
  cases a with
  | gap g => rfl
  | transfer t =>
      simp [Activity.expected, Activity.isTransfer, Transfer.expected,
        Transfer.quiet, Transfer.moving, Transfer.answer]

/--
**Transfers of the adaptor.**  From idle, whatever `temp` holds, over any
sequence of gaps and transfers with any waits of the memory: in every cycle the
ports are as expected, so that each load is answered with the line of its four
beats, the first one lowest, and each store gives its four words, lowest first,
in the cycles in which the memory takes them, and `resp_o` is high in one cycle
for each transfer.
-/
theorem adaptor_transfers (temp : BitVec 256) (as : List Activity) :
    List.Forall₂ Meets
        (machine.events ⟨.idle, temp⟩ (as.flatMap Activity.inputs))
        (as.flatMap Activity.expected) ∧
      (machine.events ⟨.idle, temp⟩ (as.flatMap Activity.inputs)).countP
          (·.respO) =
        as.countP Activity.isTransfer := by
  obtain ⟨hMeets, -⟩ := Machine.Shows.flatMap
    (fun a c h => Activity.shows a c h) as ⟨.idle, temp⟩ rfl
  refine ⟨hMeets, ?_⟩
  have hResp : ∀ {os : List AdaptorOutputs} {es : List Expected},
      List.Forall₂ Meets os es →
        os.countP (·.respO) = es.countP (·.resp) := by
    intro os es h
    induction h with
    | nil => rfl
    | cons hHead _ ih => rw [List.countP_cons, List.countP_cons, ih, hHead.resp]
  rw [hResp hMeets]
  clear hMeets
  induction as with
  | nil => rfl
  | cons a as ih =>
      rw [List.flatMap_cons, List.countP_append, ih, Activity.countP_resp,
        List.countP_cons, Nat.add_comm]

end CachelineAdaptor

end CompE.Caches
