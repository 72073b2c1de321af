import CompE.Library.Burst
import CompE.Library.Trace

/-!
# `cacheline_adaptor`

The first adaptor between a cache and a burst memory.  All outputs are
registers that are written on the falling edge, with the state that the rising
edge before it has taken over.  A cycle here is the falling edge with the
inputs that were driven behind the rising edge, and the rising edge after it,
where the outputs are sampled.

The adaptor moves on only while the request line of its kind is low, which is
how the testbench drives it: a pulse that ends with the first beat of a load,
and one cycle behind the first beat of a store.

Nothing sets `resp_o` low: it stays high from the first answer on.
`adaptor_sequences_iff` says what is right in every sequence of transfers and
when `resp_o` is.
-/

namespace CompE.Mp0

open CompE.Library
open scoped CompE.Library.Burst

/-- The states of `cacheline_adaptor`.  No transition leads to `LOAD_INIT`. -/
inductive AdaptorState where
  | init
  | loadInit
  | load1
  | load2
  | load3
  | load4
  | loadDone
  | store1
  | store2
  | store3
  | storeDone
  deriving DecidableEq, Repr

/-- The output registers of `cacheline_adaptor`. -/
structure AdaptorOutputs where
  lineO : BitVec 256
  respO : Bool
  burstO : BitVec 64
  addressO : BitVec 32
  readO : Bool
  writeO : Bool
  deriving DecidableEq

/-- The registers of `cacheline_adaptor`. -/
structure CachelineAdaptor where
  state : AdaptorState
  nextStates : AdaptorState
  out : AdaptorOutputs

/-- The inputs. -/
structure AdaptorPorts where
  resetN : Bool
  lineI : BitVec 256
  addressI : BitVec 32
  readI : Bool
  writeI : Bool
  burstI : BitVec 64
  respI : Bool

namespace CachelineAdaptor

/-- A load state: the word goes into the line, unless the request is still
there. -/
def takeWord (a : CachelineAdaptor) (i : AdaptorPorts) (k : Fin 4)
    (next : AdaptorState) : CachelineAdaptor :=
  if i.respI && !i.readI then
    { a with
      nextStates := next
      out := { a.out with lineO := Burst.setWord a.out.lineO k i.burstI } }
  else a

/-- A store state: the next word goes out, unless the request is still
there. -/
def giveWord (a : CachelineAdaptor) (i : AdaptorPorts) (k : Fin 4)
    (next : AdaptorState) : CachelineAdaptor :=
  if i.respI && !i.writeI then
    { a with
      nextStates := next
      out := { a.out with burstO := Burst.word i.lineI k } }
  else a

/-- The falling edge. -/
def negedge (a : CachelineAdaptor) (i : AdaptorPorts) : CachelineAdaptor :=
  match a.state with
  | .init =>
      if !i.readI && i.writeI && i.resetN then
        { a with
          nextStates := .store1
          out := { a.out with
            addressO := i.addressI
            writeO := true
            burstO := Burst.word i.lineI 0 } }
      else if i.readI && !i.writeI && i.resetN then
        { a with
          nextStates := .load1
          out := { a.out with addressO := i.addressI, readO := true } }
      else { a with nextStates := .init }
  | .loadInit => { a with nextStates := .load1 }
  | .load1 => a.takeWord i 0 .load2
  | .load2 => a.takeWord i 1 .load3
  | .load3 => a.takeWord i 2 .load4
  | .load4 =>
      if i.respI && !i.readI then
        { a with
          nextStates := .loadDone
          out := { a.out with
            lineO := Burst.setWord a.out.lineO 3 i.burstI
            respO := true } }
      else a
  | .loadDone =>
      { a with
        nextStates := .init
        out := { a.out with respO := true, readO := false, writeO := false } }
  | .store1 => a.giveWord i 1 .store2
  | .store2 => a.giveWord i 2 .store3
  | .store3 => a.giveWord i 3 .storeDone
  | .storeDone =>
      { a with
        nextStates := .init
        out := { a.out with respO := true, readO := false, writeO := false } }

/-- The rising edge. -/
def posedge (a : CachelineAdaptor) : CachelineAdaptor :=
  { a with state := a.nextStates }

/-- The adaptor cycle by cycle; the environment is the input sequence. -/
def machine : Machine CachelineAdaptor AdaptorPorts AdaptorOutputs where
  step a i := (a.negedge i).posedge
  emit a i := [(a.negedge i).out]
  legal _ _ := True

/-! ## Transfers -/

/-- A transfer as the testbench makes it, with a memory that may also wait
between the beats.  The address and the line are held; what is on `burst_i`
outside the beats is left open. -/
structure Transfer where
  isLoad : Bool
  address : BitVec 32
  line : BitVec 256
  /-- `burst_i` in the cycle of the request -/
  first : BitVec 64
  /-- `burst_i` while the memory waits in front of beat `k` -/
  waits : Fin 4 → List (BitVec 64)
  /-- `burst_i` in the four beats: the words of a load -/
  beats : Fin 4 → BitVec 64
  /-- `burst_i` in the cycle behind the last beat -/
  last : BitVec 64

/-- A cycle between two transfers, in reset or not. -/
structure Gap where
  resetN : Bool
  line : BitVec 256
  address : BitVec 32
  burst : BitVec 64
  resp : Bool

def Gap.ports (g : Gap) : AdaptorPorts :=
  { resetN := g.resetN, lineI := g.line, addressI := g.address, readI := false
    writeI := false, burstI := g.burst, respI := g.resp }

namespace Transfer

/-- The inputs of a cycle; `request` tells whether the pulse lasts. -/
def ports (t : Transfer) (request : Bool) (burst : BitVec 64) (resp : Bool) :
    AdaptorPorts :=
  { resetN := true, lineI := t.line, addressI := t.address
    readI := t.isLoad && request, writeI := !t.isLoad && request
    burstI := burst, respI := resp }

/-- Beats 1 to 3, each with the wait in front of it. -/
def laterBeat (t : Transfer) (k : Fin 4) : List AdaptorPorts :=
  (t.waits k).map (t.ports false · false) ++ [t.ports false (t.beats k) true]

/-- The pulse of a store lasts through the first beat. -/
def inputs (t : Transfer) : List AdaptorPorts :=
  [t.ports true t.first false] ++ (t.waits 0).map (t.ports true · false) ++
    [t.ports (!t.isLoad) (t.beats 0) true] ++ t.laterBeat 1 ++ t.laterBeat 2 ++
      t.laterBeat 3 ++ [t.ports false t.last false]

end Transfer

/-- What the outputs of a cycle should be; `address_o`, `burst_o` and `line_o`
matter only where they are given. -/
structure Expected where
  resp : Bool
  read : Bool
  write : Bool
  address : Option (BitVec 32)
  burst : Option (BitVec 64)
  line : Option (BitVec 256)

/-- The outputs but for `resp_o`. -/
structure Delivers (o : AdaptorOutputs) (e : Expected) : Prop where
  read : o.readO = e.read
  write : o.writeO = e.write
  address : ∀ x, e.address = some x → o.addressO = x
  burst : ∀ w, e.burst = some w → o.burstO = w
  line : ∀ l, e.line = some l → o.lineO = l

structure Meets (o : AdaptorOutputs) (e : Expected) : Prop
    extends Delivers o e where
  resp : o.respO = e.resp

/-- No transfer. -/
def quiet (resp : Bool) : Expected :=
  { resp := resp, read := false, write := false, address := none
    burst := none, line := none }

namespace Transfer

/-- The memory is asked for the words of a load, or given word `k`. -/
def moving (t : Transfer) (resp : Bool) (k : Fin 4) : Expected :=
  { resp := resp, read := t.isLoad, write := !t.isLoad
    address := some t.address
    burst := if t.isLoad then none else some (Burst.word t.line k)
    line := none }

/-- The line of a load. -/
def loaded (t : Transfer) : Option (BitVec 256) :=
  if t.isLoad then some (Burst.ofWords t.beats) else none

/-- The last beat; a load is answered in it. -/
def lastBeat (t : Transfer) (resp : Bool) : Expected :=
  { t.moving resp 3 with resp := t.isLoad || resp, line := t.loaded }

/-- Behind the last beat. -/
def answer (t : Transfer) : Expected :=
  { resp := true, read := false, write := false, address := some t.address
    burst := none, line := t.loaded }

/-- The waits in front of beat `k`, in which the word before it is out. -/
def laterWaits (t : Transfer) (resp : Bool) (k before : Fin 4) :
    List Expected :=
  (t.waits k).map fun _ => t.moving resp before

def expected (t : Transfer) (resp : Bool) : List Expected :=
  [t.moving resp 0] ++ t.laterWaits resp 0 0 ++
    [t.moving resp 0] ++ (t.laterWaits resp 1 0 ++ [t.moving resp 1]) ++
      (t.laterWaits resp 2 1 ++ [t.moving resp 2]) ++
        (t.laterWaits resp 3 2 ++ [t.lastBeat resp]) ++ [t.answer]

/-- Whether all four beats are transferred at the end of a cycle. -/
def complete (t : Transfer) : List Bool :=
  [false] ++ (t.waits 0).map (fun _ => false) ++ [false] ++
    ((t.waits 1).map (fun _ => false) ++ [false]) ++
      ((t.waits 2).map (fun _ => false) ++ [false]) ++
        ((t.waits 3).map (fun _ => false) ++ [true]) ++ [true]

end Transfer

/-! ## One transfer -/

/-- Between transfers. -/
structure Ready (resp : Bool) (a : CachelineAdaptor) : Prop where
  state : a.state = .init
  resp : a.out.respO = resp
  read : a.out.readO = false
  write : a.out.writeO = false

/-- The state in which beat `k` is awaited.  A store goes on behind its first
beat only, so beats 0 and 1 find it in the same state. -/
def stage (isLoad : Bool) (k : Fin 4) : AdaptorState :=
  if isLoad then
    match k with
    | 0 => .load1
    | 1 => .load2
    | 2 => .load3
    | 3 => .load4
  else
    match k with
    | 0 => .store1
    | 1 => .store1
    | 2 => .store2
    | 3 => .store3

/-- The word that is out while beat `k` is awaited. -/
def wordOut : Fin 4 → Fin 4
  | 0 => 0
  | 1 => 0
  | 2 => 1
  | 3 => 2

/-- Waiting for beat `k` of a transfer. -/
structure Serving (t : Transfer) (resp : Bool) (k : Fin 4)
    (a : CachelineAdaptor) : Prop where
  state : a.state = stage t.isLoad k
  next : a.nextStates = stage t.isLoad k
  resp : a.out.respO = resp
  read : a.out.readO = t.isLoad
  write : a.out.writeO = !t.isLoad
  address : a.out.addressO = t.address
  burst : t.isLoad = false → a.out.burstO = Burst.word t.line (wordOut k)
  words : t.isLoad = true → ∀ j < k, Burst.word a.out.lineO j = t.beats j

/-- Behind the last beat. -/
structure Finishing (t : Transfer) (a : CachelineAdaptor) : Prop where
  state : a.state = if t.isLoad then .loadDone else .storeDone
  address : a.out.addressO = t.address
  line : ∀ l, t.loaded = some l → a.out.lineO = l

section Parts

variable {t : Transfer} {resp : Bool} {a : CachelineAdaptor}

theorem Serving.meets {k : Fin 4} (h : Serving t resp k a) :
    Meets a.out (t.moving resp (wordOut k)) where
  resp := h.resp
  read := h.read
  write := h.write
  address := by
    intro x hx
    rw [h.address]
    exact Option.some.inj hx
  burst := by
    intro w hw
    cases hLoad : t.isLoad with
    | true => simp [Transfer.moving, hLoad] at hw
    | false =>
        simp only [Transfer.moving, hLoad, Bool.false_eq_true, if_false,
          Option.some.injEq] at hw
        rw [h.burst hLoad, hw]
  line := nofun

/-- The request starts a transfer. -/
theorem shows_request (h : Ready resp a) :
    machine.Shows Meets (Serving t resp 0) a [t.ports true t.first false]
      [t.moving resp 0] := by
  obtain ⟨st, ns, out⟩ := a
  obtain ⟨rfl, hResp, hRead, hWrite⟩ := h
  have hServing : Serving t resp 0
      (machine.step ⟨.init, ns, out⟩ (t.ports true t.first false)) := by
    cases hLoad : t.isLoad <;>
      constructor <;>
        simp_all [machine, negedge, posedge, Transfer.ports, stage, wordOut]
  exact .cycle rfl hServing.meets (.nil hServing)

/-- A cycle by its falling edge. -/
theorem Shows.ofNegedge {i : AdaptorPorts} {b : CachelineAdaptor} {e : Expected}
    {P : CachelineAdaptor → Prop} (hEdge : a.negedge i = b)
    (hMeets : Meets b.out e) (hEnd : P b.posedge) :
    machine.Shows Meets P a [i] [e] := by
  subst hEdge
  exact .cycle rfl hMeets (.nil hEnd)

private theorem posedge_of_next (h : a.nextStates = a.state) : a.posedge = a := by
  obtain ⟨st, ns, out⟩ := a
  cases h
  rfl

/-- A cycle in which the falling edge changes nothing. -/
theorem Serving.stays {k : Fin 4} (h : Serving t resp k a) {i : AdaptorPorts}
    (hSame : a.negedge i = a) :
    machine.Shows Meets (Serving t resp k) a [i]
      [t.moving resp (wordOut k)] := by
  refine Shows.ofNegedge hSame h.meets ?_
  rw [posedge_of_next (h.next.trans h.state.symm)]
  exact h

/-- Nothing happens while the memory waits. -/
theorem Serving.wait {k : Fin 4} (h : Serving t resp k a) (request : Bool)
    (burst : BitVec 64) :
    machine.Shows Meets (Serving t resp k) a [t.ports request burst false]
      [t.moving resp (wordOut k)] := by
  apply h.stays
  have hState := h.state
  cases hLoad : t.isLoad <;> rw [hLoad] at hState <;>
    match k with
    | 0 | 1 | 2 | 3 =>
        simp [negedge, hState, stage, takeWord, giveWord, Transfer.ports]

theorem Serving.waits {k : Fin 4} (h : Serving t resp k a) (request : Bool)
    (bursts : List (BitVec 64)) :
    machine.Shows Meets (Serving t resp k) a
      (bursts.map (t.ports request · false))
      (bursts.map fun _ => t.moving resp (wordOut k)) := by
  rw [List.map_eq_flatMap, List.map_eq_flatMap]
  exact Machine.Shows.flatMap (fun burst _ h => h.wait request burst) bursts a h

/-- A beat of a load but the last one. -/
theorem Serving.takes {k : Fin 4} (h : Serving t resp k a)
    (hLoad : t.isLoad = true) (hk : k < 3) :
    Serving t resp (k + 1) (machine.step a (t.ports false (t.beats k) true)) := by
  have hState := h.state
  rw [hLoad] at hState
  have hTaken : a.negedge (t.ports false (t.beats k) true) =
      { a with
        nextStates := stage true (k + 1)
        out := { a.out with
          lineO := Burst.setWord a.out.lineO k (t.beats k) } } := by
    match k, hk with
    | 0, _ | 1, _ | 2, _ =>
        simp [negedge, hState, stage, takeWord, Transfer.ports]
  have hStep : machine.step a (t.ports false (t.beats k) true) =
      ⟨stage true (k + 1), stage true (k + 1),
        { a.out with lineO := Burst.setWord a.out.lineO k (t.beats k) }⟩ := by
    simp only [machine, hTaken, posedge]
  rw [hStep]
  refine
    { state := by rw [hLoad], next := by rw [hLoad]
      resp := h.resp, read := h.read, write := h.write, address := h.address
      burst := fun hStore => by simp [hLoad] at hStore
      words := fun _ j hj => ?_ }
  rw [Burst.word_setWord]
  split
  · rename_i hSame
    rw [hSame]
  · rename_i hOther
    refine h.words hLoad j ?_
    match k, hk with
    | 0, _ | 1, _ | 2, _ => omega

/-- A beat of a store but the first and the last one. -/
theorem Serving.gives {k : Fin 4} (h : Serving t resp k a)
    (hStore : t.isLoad = false) (hFirst : 0 < k) (hk : k < 3) :
    Serving t resp (k + 1) (machine.step a (t.ports false (t.beats k) true)) := by
  have hState := h.state
  rw [hStore] at hState
  have hGiven : a.negedge (t.ports false (t.beats k) true) =
      { a with
        nextStates := stage false (k + 1)
        out := { a.out with burstO := Burst.word t.line k } } := by
    match k, hFirst, hk with
    | 1, _, _ | 2, _, _ =>
        simp [negedge, hState, stage, giveWord, Transfer.ports]
  have hStep : machine.step a (t.ports false (t.beats k) true) =
      ⟨stage false (k + 1), stage false (k + 1),
        { a.out with burstO := Burst.word t.line k }⟩ := by
    simp only [machine, hGiven, posedge]
  rw [hStep]
  refine
    { state := by rw [hStore], next := by rw [hStore]
      resp := h.resp, read := h.read, write := h.write, address := h.address
      burst := fun _ => ?_
      words := fun hLoad => by simp [hStore] at hLoad }
  match k, hFirst, hk with
  | 1, _, _ | 2, _, _ => rfl

/-- The first beat; the pulse of a store lasts through it. -/
theorem Serving.beat_zero (h : Serving t resp 0 a) :
    machine.Shows Meets (Serving t resp 1) a
      [t.ports (!t.isLoad) (t.beats 0) true] [t.moving resp 0] := by
  cases hLoad : t.isLoad with
  | true =>
      have hNext := h.takes hLoad (by decide)
      exact .cycle rfl hNext.meets (.nil hNext)
  | false =>
      have hSame : a.negedge (t.ports true (t.beats 0) true) = a := by
        have hState := h.state
        rw [hLoad] at hState
        simp [negedge, hState, stage, giveWord, Transfer.ports, hLoad]
      have hStage : stage t.isLoad 0 = stage t.isLoad 1 := by
        rw [hLoad]
        rfl
      refine Shows.ofNegedge hSame h.meets ?_
      rw [posedge_of_next (h.next.trans h.state.symm)]
      exact { h with
        state := h.state.trans hStage
        next := h.next.trans hStage
        words := by simp [hLoad] }

/-- Beats 1 and 2. -/
theorem Serving.beat {k : Fin 4} (h : Serving t resp k a) (hFirst : 0 < k)
    (hk : k < 3) :
    machine.Shows Meets (Serving t resp (k + 1)) a
      [t.ports false (t.beats k) true] [t.moving resp k] := by
  have hOut : wordOut (k + 1) = k := by
    match k, hFirst, hk with
    | 1, _, _ | 2, _, _ => rfl
  have hNext : Serving t resp (k + 1)
      (machine.step a (t.ports false (t.beats k) true)) := by
    cases hLoad : t.isLoad with
    | true => exact h.takes hLoad hk
    | false => exact h.gives hLoad hFirst hk
  have hMeets := hNext.meets
  rw [hOut] at hMeets
  exact .cycle rfl hMeets (.nil hNext)

/-- The fourth word completes the line of a load. -/
theorem Serving.completes (h : Serving t resp 3 a) (hLoad : t.isLoad = true) :
    Burst.setWord a.out.lineO 3 (t.beats 3) = Burst.ofWords t.beats := by
  apply Burst.eq_of_words
  intro j
  rw [Burst.word_setWord, Burst.word_ofWords]
  split
  · rename_i hSame
    rw [hSame]
  · rename_i hOther
    exact h.words hLoad j (by omega)

theorem Serving.beat_last_load (h : Serving t resp 3 a)
    (hLoad : t.isLoad = true) :
    machine.Shows Meets (Finishing t) a [t.ports false (t.beats 3) true]
      [t.lastBeat resp] := by
  have hState := h.state
  rw [hLoad] at hState
  have hTaken : a.negedge (t.ports false (t.beats 3) true) =
      { a with
        nextStates := .loadDone
        out := { a.out with
          lineO := Burst.setWord a.out.lineO 3 (t.beats 3)
          respO := true } } := by
    simp [negedge, hState, stage, Transfer.ports]
  have hLoaded : ∀ l, t.loaded = some l → Burst.ofWords t.beats = l := by
    simp [Transfer.loaded, hLoad]
  rw [h.completes hLoad] at hTaken
  refine Shows.ofNegedge hTaken ?_ ?_
  · exact {
      resp := by simp [Transfer.lastBeat, hLoad]
      read := h.read
      write := h.write
      address := fun x hx => h.address.trans (Option.some.inj hx)
      burst := by simp [Transfer.lastBeat, Transfer.moving, hLoad]
      line := hLoaded }
  · exact ⟨by rw [hLoad]; rfl, h.address, hLoaded⟩

theorem Serving.beat_last_store (h : Serving t resp 3 a)
    (hStore : t.isLoad = false) :
    machine.Shows Meets (Finishing t) a [t.ports false (t.beats 3) true]
      [t.lastBeat resp] := by
  have hState := h.state
  rw [hStore] at hState
  have hGiven : a.negedge (t.ports false (t.beats 3) true) =
      { a with
        nextStates := .storeDone
        out := { a.out with burstO := Burst.word t.line 3 } } := by
    simp [negedge, hState, stage, giveWord, Transfer.ports]
  have hLoaded : t.loaded = none := by simp [Transfer.loaded, hStore]
  refine Shows.ofNegedge hGiven ?_ ?_
  · exact {
      resp := by simp [Transfer.lastBeat, hStore, h.resp]
      read := h.read
      write := h.write
      address := fun x hx => h.address.trans (Option.some.inj hx)
      burst := by simp [Transfer.lastBeat, Transfer.moving, hStore]
      line := by simp [Transfer.lastBeat, hLoaded] }
  · exact ⟨by rw [hStore]; rfl, h.address, by simp [hLoaded]⟩

/-- The last beat. -/
theorem Serving.beat_last (h : Serving t resp 3 a) :
    machine.Shows Meets (Finishing t) a [t.ports false (t.beats 3) true]
      [t.lastBeat resp] := by
  cases hLoad : t.isLoad with
  | true => exact h.beat_last_load hLoad
  | false => exact h.beat_last_store hLoad

theorem Finishing.shows (h : Finishing t a) :
    machine.Shows Meets (Ready true) a [t.ports false t.last false]
      [t.answer] := by
  have hState := h.state
  have hDone : a.negedge (t.ports false t.last false) =
      { a with
        nextStates := .init
        out := { a.out with
          respO := true, readO := false, writeO := false } } := by
    cases hLoad : t.isLoad <;> rw [hLoad] at hState <;>
      simp [negedge, hState]
  refine Shows.ofNegedge hDone ?_ ⟨rfl, rfl, rfl, rfl⟩
  exact {
    resp := rfl, read := rfl, write := rfl
    address := fun x hx => h.address.trans (Option.some.inj hx)
    burst := nofun
    line := h.line }

end Parts

/-- One transfer, with `resp_o` as the transfers before have left it. -/
theorem Transfer.shows (t : Transfer) {resp : Bool} (a : CachelineAdaptor)
    (h : Ready resp a) :
    machine.Shows Meets (Ready true) a t.inputs (t.expected resp) := by
  refine Machine.Shows.append (Q := Finishing t) ?_ fun _ h => h.shows
  refine Machine.Shows.append (Q := Serving t resp 3) ?_ fun _ h =>
    (h.waits false _).append fun _ h => h.beat_last
  refine Machine.Shows.append (Q := Serving t resp 2) ?_ fun _ h =>
    (h.waits false _).append fun _ h => h.beat (by decide) (by decide)
  refine Machine.Shows.append (Q := Serving t resp 1) ?_ fun _ h =>
    (h.waits false _).append fun _ h => h.beat (by decide) (by decide)
  refine Machine.Shows.append (Q := Serving t resp 0) ?_ fun _ h => h.beat_zero
  exact (shows_request h).append fun _ h => h.waits true _

/-! ## Sequences of transfers -/

/-- What happens at the ports: a gap cycle or a transfer. -/
inductive Activity where
  | gap (g : Gap)
  | transfer (t : Transfer)

namespace Activity

def inputs : Activity → List AdaptorPorts
  | .gap g => [g.ports]
  | .transfer t => t.inputs

def expected (resp : Bool) : Activity → List Expected
  | .gap _ => [quiet resp]
  | .transfer t => t.expected resp

/-- Whether the transfer in progress, if there is one, has transferred all
four beats. -/
def complete : Activity → List Bool
  | .gap _ => [true]
  | .transfer t => t.complete

def isTransfer : Activity → Bool
  | .gap _ => false
  | .transfer _ => true

/-- The outputs of a sequence; from the first transfer on `resp_o` is high. -/
def expectedAll : Bool → List Activity → List Expected
  | _, [] => []
  | resp, x :: xs => x.expected resp ++ expectedAll (resp || x.isTransfer) xs

theorem shows (x : Activity) {resp : Bool} {a : CachelineAdaptor}
    (h : Ready resp a) :
    machine.Shows Meets (Ready (resp || x.isTransfer)) a x.inputs
      (x.expected resp) := by
  cases x with
  | gap g =>
      have hSame : a.negedge g.ports = { a with nextStates := .init } := by
        simp [negedge, h.state, Gap.ports]
      refine Shows.ofNegedge hSame ?_ ?_
      · exact {
          resp := h.resp, read := h.read, write := h.write
          address := nofun, burst := nofun, line := nofun }
      · exact ⟨rfl, by simp [posedge, h.resp, isTransfer], h.read, h.write⟩
  | transfer t =>
      rw [isTransfer, Bool.or_true]
      exact t.shows a h

private theorem shows_all (xs : List Activity) : ∀ {resp : Bool} {a : CachelineAdaptor},
    Ready resp a →
      List.Forall₂ Meets (machine.events a (xs.flatMap inputs))
        (expectedAll resp xs) := by
  induction xs with
  | nil => intro resp a _; exact .nil
  | cons x xs ih =>
      intro resp a h
      obtain ⟨hHere, hNext⟩ := x.shows h
      rw [List.flatMap_cons, Machine.events_append]
      exact List.rel_append hHere (ih hNext)

end Activity

/-! ## Where `resp_o` is high -/

/-- An answer comes only when all four beats are transferred. -/
def AnswersOnly (resp : Bool) (complete : Bool) : Prop :=
  resp = true → complete = true

theorem Transfer.answers_first (t : Transfer) :
    List.Forall₂ (fun e d => AnswersOnly e.resp d) (t.expected false)
      t.complete := by
  have hWaits : ∀ k before, List.Forall₂ (fun e d => AnswersOnly e.resp d)
      (t.laterWaits false k before) ((t.waits k).map fun _ => false) := by
    intro k before
    rw [laterWaits, List.forall₂_map_left_iff, List.forall₂_map_right_iff,
      List.forall₂_same]
    intro burst _ hResp
    exact hResp
  have hBeat : ∀ k, List.Forall₂ (fun e d => AnswersOnly e.resp d)
      [t.moving false k] [false] := fun k => .cons id .nil
  have hDone : ∀ e : Expected, List.Forall₂ (fun e d => AnswersOnly e.resp d)
      [e] [true] := fun e => .cons (fun _ => rfl) .nil
  refine List.rel_append ?_ (hDone _)
  refine List.rel_append ?_ (List.rel_append (hWaits 3 2) (hDone _))
  refine List.rel_append ?_ (List.rel_append (hWaits 2 1) (hBeat 2))
  refine List.rel_append ?_ (List.rel_append (hWaits 1 0) (hBeat 1))
  exact List.rel_append (List.rel_append (hBeat 0) (hWaits 0 0)) (hBeat 0)

/-- The next transfer finds `resp_o` high in the cycle of its request. -/
theorem Transfer.not_answers_again (t : Transfer) (es : List Expected)
    (ds : List Bool) :
    ¬ List.Forall₂ (fun e d => AnswersOnly e.resp d) (t.expected true ++ es)
      (t.complete ++ ds) := by
  simp [expected, complete, moving, AnswersOnly]

private theorem answers_iff (xs : List Activity) : ∀ resp : Bool,
    List.Forall₂ (fun e d => AnswersOnly e.resp d)
        (Activity.expectedAll resp xs) (xs.flatMap Activity.complete) ↔
      xs.countP Activity.isTransfer ≤ if resp then 0 else 1 := by
  induction xs with
  | nil => intro resp; simp [Activity.expectedAll]
  | cons x xs ih =>
      intro resp
      rw [Activity.expectedAll, List.flatMap_cons]
      cases x with
      | gap g =>
          have hRest := ih resp
          simpa [Activity.expected, Activity.complete, Activity.isTransfer,
            AnswersOnly] using hRest
      | transfer t =>
          rw [List.countP_cons_of_pos rfl]
          cases resp with
          | true =>
              have hNot := t.not_answers_again
                (Activity.expectedAll (true || true) xs)
                (xs.flatMap Activity.complete)
              exact iff_of_false hNot (by simp)
          | false =>
              have hRest := ih true
              constructor
              · intro h
                have hLength := t.answers_first.length_eq
                have hDrop := List.forall₂_drop t.complete.length h
                rw [Activity.expected, Activity.complete, List.drop_left,
                  List.drop_left' hLength] at hDrop
                have hNone := hRest.1 hDrop
                simp at hNone ⊢
                exact hNone
              · intro h
                refine List.rel_append t.answers_first (hRest.2 ?_)
                simpa using h

/-- A sequence that goes as it should: the four beats of each transfer reach
their line or their address in order, and no answer comes early. -/
structure Sequenced (a : CachelineAdaptor) (xs : List Activity) : Prop where
  delivers : List.Forall₂ Delivers (machine.events a (xs.flatMap Activity.inputs))
    (xs.flatMap (Activity.expected false))
  answers : List.Forall₂ (fun o d => AnswersOnly o.respO d)
    (machine.events a (xs.flatMap Activity.inputs))
    (xs.flatMap Activity.complete)

/-- What an expectation says besides `resp_o`. -/
def Expected.data (e : Expected) : Expected := { e with resp := false }

theorem Activity.expected_data (x : Activity) (resp : Bool) :
    (x.expected resp).map Expected.data =
      (x.expected false).map Expected.data := by
  cases x with
  | gap g => rfl
  | transfer t =>
      simp [Activity.expected, Transfer.expected, Transfer.laterWaits,
        Transfer.moving, Transfer.lastBeat, Expected.data]

/-- `resp_o` aside, the outputs do not depend on the transfers before. -/
theorem delivers_all (xs : List Activity) : ∀ {resp : Bool}
    {a : CachelineAdaptor}, Ready resp a →
      List.Forall₂ Delivers (machine.events a (xs.flatMap Activity.inputs))
        (xs.flatMap (Activity.expected false)) := by
  have hData : ∀ {os : List AdaptorOutputs} {es es' : List Expected},
      es.map Expected.data = es'.map Expected.data →
        List.Forall₂ Meets os es → List.Forall₂ Delivers os es' := by
    intro os es es' hSame h
    have hMap : List.Forall₂ (fun o e => Delivers o e) os
        (es.map Expected.data) := by
      rw [List.forall₂_map_right_iff]
      exact h.imp fun _ _ hMeets => { hMeets.toDelivers with }
    rw [hSame, List.forall₂_map_right_iff] at hMap
    exact hMap.imp fun _ _ hDelivers => { hDelivers with }
  induction xs with
  | nil => intro resp a _; exact .nil
  | cons x xs ih =>
      intro resp a h
      obtain ⟨hHere, hNext⟩ := x.shows h
      rw [List.flatMap_cons, List.flatMap_cons, Machine.events_append]
      exact List.rel_append (hData (x.expected_data resp) hHere) (ih hNext)

/-- When the answers come. -/
theorem answers_all (xs : List Activity) {resp : Bool} {a : CachelineAdaptor}
    (h : Ready resp a) :
    List.Forall₂ (fun o d => AnswersOnly o.respO d)
        (machine.events a (xs.flatMap Activity.inputs))
        (xs.flatMap Activity.complete) ↔
      xs.countP Activity.isTransfer ≤ if resp then 0 else 1 := by
  have hResp : ∀ {os : List AdaptorOutputs} {es : List Expected}
      {ds : List Bool}, List.Forall₂ Meets os es →
        (List.Forall₂ (fun o d => AnswersOnly o.respO d) os ds ↔
          List.Forall₂ (fun e d => AnswersOnly e.resp d) es ds) := by
    intro os es ds h
    induction h generalizing ds with
    | nil => simp
    | cons hHead _ ih =>
        cases ds with
        | nil => simp
        | cons d ds => rw [List.forall₂_cons, List.forall₂_cons, ih, hHead.resp]
  rw [hResp (Activity.shows_all xs h), answers_iff]

/--
**Sequences of transfers.**  From a state between transfers with `resp_o` low,
for any sequence of gaps and of loads and stores to any addresses with any
delays of the memory: each load has its own four beats in order in `line_o`
and each store gives its own four words in order with its own address; and
`resp_o` is never early exactly when there is at most one transfer.
-/
theorem adaptor_sequences_iff {a : CachelineAdaptor} (hReady : Ready false a)
    (xs : List Activity) :
    List.Forall₂ Delivers (machine.events a (xs.flatMap Activity.inputs))
        (xs.flatMap (Activity.expected false)) ∧
      (Sequenced a xs ↔ xs.countP Activity.isTransfer ≤ 1) := by
  refine ⟨delivers_all xs hReady, fun h => ?_, fun h => ?_⟩
  · simpa using (answers_all xs hReady).1 h.answers
  · exact ⟨delivers_all xs hReady, (answers_all xs hReady).2 (by simpa using h)⟩

/-- The adaptor at power-up, as the testbench sees it: its two-valued signals
show an output without a value as 0. -/
def powerUp : CachelineAdaptor :=
  { state := .init, nextStates := .init
    out :=
      { lineO := 0#256, respO := false, burstO := 0#64, addressO := 0#32
        readO := false, writeO := false } }

/-- A load of address 0x40 without a wait. -/
def loadAt40 : Transfer :=
  { isLoad := true, address := 0x40#32, line := 0#256, first := 0#64
    waits := fun _ => [], beats := fun k => BitVec.ofNat 64 k.val
    last := 0#64 }

theorem adaptor_sequences_iff_load :
    Sequenced powerUp [.transfer loadAt40] :=
  (adaptor_sequences_iff ⟨rfl, rfl, rfl, rfl⟩ [.transfer loadAt40]).2.2
    (by decide)

/-- In the second of two loads `resp_o` is high from the request on. -/
theorem second_load_answered_early :
    ¬ ∀ (a : CachelineAdaptor) (xs : List Activity), Ready false a →
      Sequenced a xs := by
  intro h
  have hReady : Ready false powerUp := ⟨rfl, rfl, rfl, rfl⟩
  have hSequenced := h powerUp [.transfer loadAt40, .transfer loadAt40] hReady
  have hCount := (answers_all _ hReady).1 hSequenced.answers
  revert hCount
  decide

end CachelineAdaptor

end CompE.Mp0
