import CompE.Caches.Arbiter
import CompE.Library.SharedPort

/-!
# The arbiter between two requesters and a memory

Both sides of `cache_arbiter` raise requests when they like and hold the
request line and the address until their response; write data and byte enables
may change meanwhile.  The memory answers a request after any number of cycles,
a read with its own line.

Over every such run the arbiter is a shared port (`arbiter_protocol`): requests
are served one at a time, each gets one response with the data of its own
address, and what is driven to the memory is what the served side asks for.
-/

namespace CompE.Caches

open CompE.Library CompE.Library.SharedPort

/-- The two sides of the arbiter. -/
inductive Side where
  | inst
  | data
  deriving DecidableEq, Repr

/-- A request as far as it must be held. -/
structure Access where
  write : Bool
  address : Addr
  deriving DecidableEq, Repr

/-- What is read or written when the memory answers. -/
structure WriteLanes where
  wdata : Line
  byteEnable : BitVec 32

/-- The memory behind the arbiter. -/
def lineDevice : Device LineMem Access WriteLanes Line where
  perform m r w :=
    if r.write then
      LaneMemory.store m (lineNo r.address) (lanes w.byteEnable) w.wdata
    else m
  answers m r d := r.write = false → d = m (lineNo r.address)

def InstPort.access (inst : InstPort) : Option Access :=
  if inst.instRead then some ⟨false, inst.instAddr⟩ else none

/-- With both lines up the arbiter serves the read. -/
def DataPort.access (data : DataPort) : Option Access :=
  if data.dataRead then some ⟨false, data.dataAddr⟩
  else if data.dataWrite then some ⟨true, data.dataAddr⟩
  else none

/-- One cycle of the two sides and the memory.  `bus` is on `mem_rdata` when no
read is answered. -/
structure ArbiterInput where
  inst : InstPort
  data : DataPort
  memResp : Bool
  bus : Line

/-- The arbiter, the requests that wait for their responses, and the memory. -/
structure ArbiterSystem where
  arbiter : ArbiterState
  held : Side → Option Access
  mem : LineMem

namespace ArbiterInput

variable (i : ArbiterInput)

def access : Side → Option Access
  | .inst => i.inst.access
  | .data => i.data.access

/-- What a side supplies for a write. -/
def writeLanes : Side → WriteLanes
  | .inst => ⟨fun _ => 0#8, i.inst.instByteEnable256⟩
  | .data => ⟨i.data.dataWdata, i.data.dataByteEnable256⟩

end ArbiterInput

/-- The side that a state serves. -/
def ArbiterState.serves : ArbiterState → Option Side
  | .instReadS => some .inst
  | .dataReadS | .dataWriteS => some .data
  | .idleS | .doneIR | .doneDR | .doneDW => none

namespace ArbiterSystem

variable (s : ArbiterSystem) (i : ArbiterInput)

/-- The arbiter's request to the memory. -/
def driven : Request := s.arbiter.memRequest i.inst i.data

/-- `mem_rdata`. -/
def memRdata : Line :=
  if i.memResp && (s.driven i).memRead then
    s.mem (lineNo (s.driven i).memAddress)
  else i.bus

def resp : Side → Bool
  | .inst => s.arbiter.instResp i.memResp
  | .data => s.arbiter.dataResp i.memResp

def rdata : Side → Line
  | .inst => s.arbiter.instRdata (s.memRdata i)
  | .data => s.arbiter.dataRdata (s.memRdata i)

def step : ArbiterSystem where
  arbiter := s.arbiter.next i.inst i.data i.memResp
  held side := if s.resp i side then none else i.access side
  mem :=
    if i.memResp && (s.driven i).memWrite then
      LaneMemory.store s.mem (lineNo (s.driven i).memAddress)
        (lanes (s.driven i).memByteEnable256) (s.driven i).memWdata256
    else s.mem

/-- The events of one side's requests. -/
abbrev Event := SharedPort.Event Side Access WriteLanes Line

/-- A side comes with a request that it did not hold yet. -/
def raised (side : Side) : List Event :=
  match s.held side, i.access side with
  | none, some r => [.raised side r]
  | _, _ => []

/-- A side gets its response. -/
def answered (side : Side) : List Event :=
  if s.resp i side then [.answered side (i.writeLanes side) (s.rdata i side)]
  else []

/-- The arbiter goes on to serve a side. -/
def accepted : List Event :=
  match s.arbiter.serves, (s.arbiter.next i.inst i.data i.memResp).serves with
  | none, some side => [.accepted side]
  | _, _ => []

def events : List Event :=
  s.raised i .inst ++ s.raised i .data ++
    (s.answered i .inst ++ s.answered i .data ++ s.accepted i)

/-- A side holds its request, and the memory answers requests only. -/
structure Legal : Prop where
  holds : ∀ side r, s.held side = some r → i.access side = some r
  answersRequest : i.memResp = true → (s.driven i).active = true

end ArbiterSystem

instance (s : ArbiterSystem) (i : ArbiterInput) : Decidable (s.Legal i) :=
  decidable_of_iff
    ((s.held .inst = none ∨ i.access .inst = s.held .inst) ∧
      (s.held .data = none ∨ i.access .data = s.held .data) ∧
      (i.memResp = true → (s.driven i).active = true))
    (by
      constructor
      · rintro ⟨hInst, hData, hAnswers⟩
        refine ⟨?_, hAnswers⟩
        intro side r hr
        cases side with
        | inst => simpa [hr] using hInst
        | data => simpa [hr] using hData
      · intro h
        have hKeep : ∀ side, s.held side = none ∨ i.access side = s.held side := by
          intro side
          cases hHeld : s.held side with
          | none => exact Or.inl rfl
          | some r => exact Or.inr (h.holds side r hHeld)
        exact ⟨hKeep .inst, hKeep .data, h.answersRequest⟩)

/-- The arbiter with any two requesters and any memory delays. -/
def arbiterMachine : Machine ArbiterSystem ArbiterInput ArbiterSystem.Event where
  step := ArbiterSystem.step
  emit := ArbiterSystem.events
  legal := ArbiterSystem.Legal

/-- Out of reset, nothing requested. -/
structure ArbiterSystem.IsReset (s : ArbiterSystem) : Prop where
  arbiter : s.arbiter = .idleS
  held : ∀ side, s.held side = none

namespace ArbiterSystem

/-! ## Requests by phase -/

/-- How far the request of a side has come. -/
def phase (s : ArbiterSystem) (side : Side) : Phase Access :=
  match s.held side with
  | none => .quiet
  | some r => if s.arbiter.serves = some side then .served r else .waiting r

/-- The system as a shared port. -/
def port (s : ArbiterSystem) : SharedPort.State Side LineMem Access where
  phase := s.phase
  store := s.mem

/-- The side that is served has a request of the kind of the arbiter's state,
and none of the `done` states is reached. -/
structure Inv (s : ArbiterSystem) : Prop where
  live : s.arbiter = .idleS ∨ ∃ side, s.arbiter.serves = some side
  serves : ∀ side, s.arbiter.serves = some side →
    ∃ r, s.held side = some r ∧ (r.write = true ↔ s.arbiter = .dataWriteS)

theorem IsReset.inv {s : ArbiterSystem} (h : s.IsReset) : s.Inv where
  live := Or.inl h.arbiter
  serves := by simp [h.arbiter, ArbiterState.serves]

section

variable {s : ArbiterSystem} {i : ArbiterInput} {side : Side} {r : Access}

/-! ## What is driven and delivered -/

/-- The memory is asked for what a side asks for. -/
structure Drives (s : ArbiterSystem) (i : ArbiterInput) (side : Side)
    (r : Access) : Prop where
  memRead : (s.driven i).memRead = !r.write
  memWrite : (s.driven i).memWrite = r.write
  memAddress : (s.driven i).memAddress = r.address
  byteEnable : (s.driven i).memByteEnable256 = (i.writeLanes side).byteEnable
  wdata : r.write = true → (s.driven i).memWdata256 = (i.writeLanes side).wdata

private theorem instAccess_eq (h : i.access .inst = some r) :
    r = ⟨false, i.inst.instAddr⟩ := by
  simp only [ArbiterInput.access, InstPort.access] at h
  split at h
  · exact (Option.some.inj h).symm
  · cases h

private theorem dataAccess_eq (h : i.access .data = some r) :
    r.address = i.data.dataAddr := by
  simp only [ArbiterInput.access, DataPort.access] at h
  split at h
  · rw [← Option.some.inj h]
  · split at h
    · rw [← Option.some.inj h]
    · cases h

private theorem drives (hServes : s.arbiter.serves = some side)
    (hAccess : i.access side = some r)
    (hKind : r.write = true ↔ s.arbiter = .dataWriteS) : Drives s i side r := by
  cases hArb : s.arbiter with
  | instReadS =>
      rw [hArb, ArbiterState.serves, Option.some.injEq] at hServes
      subst hServes
      rw [instAccess_eq hAccess]
      constructor <;>
        simp [driven, hArb, ArbiterState.memRequest, ArbiterInput.writeLanes]
  | dataReadS =>
      rw [hArb, ArbiterState.serves, Option.some.injEq] at hServes
      subst hServes
      have hRead : r.write = false := by simpa [hArb] using hKind
      have hAddr := dataAccess_eq hAccess
      constructor <;>
        simp [driven, hArb, ArbiterState.memRequest, ArbiterInput.writeLanes,
          hRead, hAddr]
  | dataWriteS =>
      rw [hArb, ArbiterState.serves, Option.some.injEq] at hServes
      subst hServes
      have hWrite : r.write = true := by simp [hKind, hArb]
      have hAddr := dataAccess_eq hAccess
      constructor <;>
        simp [driven, hArb, ArbiterState.memRequest, ArbiterInput.writeLanes,
          hWrite, hAddr]
  | idleS => simp [hArb, ArbiterState.serves] at hServes
  | doneIR => simp [hArb, ArbiterState.serves] at hServes
  | doneDR => simp [hArb, ArbiterState.serves] at hServes
  | doneDW => simp [hArb, ArbiterState.serves] at hServes

private theorem active_of_serves_none (h : s.arbiter.serves = none) :
    (s.driven i).active = false := by
  cases hArb : s.arbiter <;>
    simp [hArb, ArbiterState.serves, driven, ArbiterState.memRequest,
      Request.active] at h ⊢

/-- A response goes to the side that is served, and to no other. -/
theorem resp_iff : s.resp i side = true ↔
    i.memResp = true ∧ s.arbiter.serves = some side := by
  cases side <;> cases hArb : s.arbiter <;>
    simp [resp, ArbiterState.instResp, ArbiterState.dataResp,
      ArbiterState.serves, hArb]

private theorem rdata_of_drives (hServes : s.arbiter.serves = some side)
    (hDrives : Drives s i side r) (hResp : i.memResp = true)
    (hRead : r.write = false) : s.rdata i side = s.mem (lineNo r.address) := by
  have hBus : s.memRdata i = s.mem (lineNo r.address) := by
    simp [memRdata, hResp, hDrives.memRead, hRead, hDrives.memAddress]
  have hKind : s.arbiter ≠ .dataWriteS := by
    intro hArb
    have hDriven := hDrives.memWrite
    rw [driven, hArb, hRead] at hDriven
    exact absurd hDriven (by simp [ArbiterState.memRequest])
  cases side <;> cases hArb : s.arbiter <;>
    simp_all [rdata, ArbiterState.instRdata, ArbiterState.dataRdata,
      ArbiterState.serves]

/-! ## One cycle of the shared port -/

/-- Two sides in front of a line memory. -/
def arbiterSpec : Acceptor (SharedPort.State Side LineMem Access) Event :=
  sharedPort lineDevice

private theorem phase_none (h : s.held side = none) : s.phase side = .quiet := by
  rw [phase, h]

private theorem phase_waiting (h : s.held side = some r)
    (hServes : s.arbiter.serves ≠ some side) : s.phase side = .waiting r := by
  simp only [phase, h, if_neg hServes]

private theorem phase_served (h : s.held side = some r)
    (hServes : s.arbiter.serves = some side) : s.phase side = .served r := by
  simp only [phase, h, if_pos hServes]

private theorem raised_step
    (hServes : s.arbiter.serves = some side → ∃ r, s.held side = some r)
    (hHolds : ∀ r, s.held side = some r → i.access side = some r) :
    arbiterSpec.Accepts s.port (s.raised i side) ∧
      arbiterSpec.after s.port (s.raised i side) =
        port { s with held := Function.update s.held side (i.access side) } := by
  cases hHeld : s.held side with
  | some r =>
      have hSame : Function.update s.held side (i.access side) = s.held := by
        rw [hHolds r hHeld, ← hHeld, Function.update_eq_self]
      simp only [raised, hHeld, hSame]
      exact ⟨trivial, rfl⟩
  | none =>
      cases hAccess : i.access side with
      | none =>
          have hSame : Function.update s.held side none = s.held := by
            rw [← hHeld, Function.update_eq_self]
          simp only [raised, hHeld, hAccess, hSame]
          exact ⟨trivial, rfl⟩
      | some r =>
          have hFree : s.arbiter.serves ≠ some side := by
            intro hBusy
            obtain ⟨r', hr'⟩ := hServes hBusy
            rw [hHeld] at hr'
            cases hr'
          simp only [raised, hHeld, hAccess]
          refine ⟨⟨phase_none hHeld, trivial⟩, ?_⟩
          simp only [Acceptor.after, arbiterSpec, sharedPort, port,
            SharedPort.State.mk.injEq, and_true]
          funext side'
          by_cases hSide : side' = side
          · simp [hSide, phase, hFree]
          · simp [hSide, phase]

/-- The system when both sides have shown their requests of the cycle. -/
def shown (s : ArbiterSystem) (i : ArbiterInput) : ArbiterSystem :=
  { s with held := i.access }

private theorem raised_both (hInv : s.Inv) (hLegal : s.Legal i) :
    arbiterSpec.Accepts s.port (s.raised i .inst ++ s.raised i .data) ∧
      arbiterSpec.after s.port (s.raised i .inst ++ s.raised i .data) =
        (s.shown i).port := by
  let s' : ArbiterSystem :=
    { s with held := Function.update s.held .inst (i.access .inst) }
  have hServes : ∀ side, s.arbiter.serves = some side →
      ∃ r, s.held side = some r := by
    intro side hBusy
    obtain ⟨r, hr, _⟩ := hInv.serves side hBusy
    exact ⟨r, hr⟩
  have hFirst := raised_step (hServes .inst) (hLegal.holds .inst)
  have hSecond : arbiterSpec.Accepts s'.port (s.raised i .data) ∧
      arbiterSpec.after s'.port (s.raised i .data) =
        port { s' with held := Function.update s'.held .data (i.access .data) } :=
    @raised_step s' i .data (hServes .data) (hLegal.holds .data)
  have hBoth : Function.update s'.held .data (i.access .data) = i.access := by
    funext side
    cases side <;> rfl
  rw [Acceptor.accepts_append, Acceptor.after_append, hFirst.2]
  refine ⟨⟨hFirst.1, hSecond.1⟩, ?_⟩
  rw [hSecond.2, hBoth]
  rfl

/-- What the arbiter goes on to from idle. -/
theorem next_idle_cases (i : ArbiterInput) :
    ArbiterState.idleS.next i.inst i.data i.memResp = .idleS ∨
      ∃ side r,
        (ArbiterState.idleS.next i.inst i.data i.memResp).serves = some side ∧
          i.access side = some r ∧
          (r.write = true ↔
            ArbiterState.idleS.next i.inst i.data i.memResp = .dataWriteS) := by
  cases hInst : i.inst.instRead with
  | true =>
      refine Or.inr ⟨.inst, ⟨false, i.inst.instAddr⟩, ?_⟩
      simp [ArbiterState.next, ArbiterState.serves, ArbiterInput.access,
        InstPort.access, hInst]
  | false =>
      cases hRead : i.data.dataRead with
      | true =>
          refine Or.inr ⟨.data, ⟨false, i.data.dataAddr⟩, ?_⟩
          simp [ArbiterState.next, ArbiterState.serves, ArbiterInput.access,
            DataPort.access, hInst, hRead]
      | false =>
          cases hWrite : i.data.dataWrite with
          | true =>
              refine Or.inr ⟨.data, ⟨true, i.data.dataAddr⟩, ?_⟩
              simp [ArbiterState.next, ArbiterState.serves, ArbiterInput.access,
                DataPort.access, hInst, hRead, hWrite]
          | false =>
              left
              simp [ArbiterState.next, hInst, hRead, hWrite]

/-- What follows the requests in a cycle. -/
def outcome (s : ArbiterSystem) (i : ArbiterInput) : List Event :=
  s.answered i .inst ++ s.answered i .data ++ s.accepted i

theorem idle_step (hIdle : s.arbiter = .idleS) :
    arbiterSpec.Accepts (s.shown i).port (s.outcome i) ∧
      arbiterSpec.after (s.shown i).port (s.outcome i) = (s.step i).port ∧
      (s.step i).Inv := by
  have hNone : s.arbiter.serves = none := by rw [hIdle]; rfl
  have hResp : ∀ side, s.resp i side = false := by
    intro side
    rw [Bool.eq_false_iff, ne_eq, resp_iff, hNone]
    simp
  have hMem : (s.step i).mem = s.mem := by
    simp [step, driven, hIdle, ArbiterState.memRequest]
  have hHeld : (s.step i).held = i.access := by
    funext side
    simp [step, hResp]
  have hArb : (s.step i).arbiter =
      ArbiterState.idleS.next i.inst i.data i.memResp := by
    rw [step, hIdle]
  rcases next_idle_cases i with hStay | ⟨side, r, hServes, hAccess, hKind⟩
  · have hOutcome : s.outcome i = [] := by
      simp [outcome, answered, accepted, hResp, hIdle, hStay,
        ArbiterState.serves]
    have hSame : s.shown i = s.step i := by
      rw [shown, ← hHeld, ← hMem, hIdle, ← hStay, ← hArb]
    rw [hOutcome, hSame]
    refine ⟨trivial, rfl, Or.inl (hArb.trans hStay), ?_⟩
    intro side hSide
    rw [hArb, hStay] at hSide
    cases hSide
  · have hOutcome : s.outcome i = [.accepted side] := by
      simp only [outcome, answered, accepted, hResp, hIdle, hServes]
      rfl
    have hWaiting : ∀ side' r', i.access side' = some r' →
        (s.shown i).phase side' = .waiting r' := by
      intro side' r' hr'
      apply phase_waiting hr'
      rw [shown, hNone]
      simp
    have hFree : ∀ side', ((s.shown i).phase side').busy = 0 := by
      intro side'
      cases hSide : i.access side' with
      | none => rw [phase_none hSide]; rfl
      | some r' => rw [hWaiting side' r' hSide]; rfl
    rw [hOutcome]
    refine ⟨⟨⟨⟨r, hWaiting side r hAccess⟩, hFree⟩, trivial⟩, ?_, ?_, ?_⟩
    · simp only [Acceptor.after, arbiterSpec, sharedPort, port,
        SharedPort.State.mk.injEq]
      refine ⟨?_, hMem.symm⟩
      funext side'
      by_cases hSide : side' = side
      · rw [hSide, Function.update_self, hWaiting side r hAccess,
          phase_served (by rw [hHeld, hAccess]) (by rw [hArb, hServes])]
        rfl
      · have hOther : (s.step i).arbiter.serves ≠ some side' := by
          rw [hArb, hServes, ne_eq, Option.some.injEq]
          exact fun hEq => hSide hEq.symm
        rw [Function.update_of_ne hSide]
        cases hAcc : i.access side' with
        | none => rw [phase_none hAcc, phase_none (by rw [hHeld, hAcc])]
        | some r' =>
            rw [hWaiting side' r' hAcc,
              phase_waiting (by rw [hHeld, hAcc]) hOther]
    · exact Or.inr ⟨side, by rw [hArb, hServes]⟩
    · intro side' hSide'
      rw [hArb, hServes, Option.some.injEq] at hSide'
      subst hSide'
      rw [hHeld, hArb]
      exact ⟨r, hAccess, hKind⟩

private theorem next_of_serves (hServes : s.arbiter.serves = some side) :
    s.arbiter.next i.inst i.data i.memResp =
      if i.memResp then .idleS else s.arbiter := by
  cases hArb : s.arbiter <;>
    simp [hArb, ArbiterState.serves, ArbiterState.next] at hServes ⊢

private theorem accepted_of_serves (hServes : s.arbiter.serves = some side) :
    s.accepted i = [] := by
  simp only [accepted, hServes]

/-- The memory takes its time. -/
theorem wait_step (hInv : s.Inv) (hLegal : s.Legal i)
    (hServes : s.arbiter.serves = some side) (hWait : i.memResp = false) :
    s.outcome i = [] ∧ s.shown i = s.step i ∧ (s.step i).Inv := by
  have hResp : ∀ side, s.resp i side = false := by
    intro side
    rw [Bool.eq_false_iff, ne_eq, resp_iff, hWait]
    simp
  have hArb : s.arbiter.next i.inst i.data i.memResp = s.arbiter := by
    rw [next_of_serves hServes, hWait]
    rfl
  rw [hWait] at hArb
  have hSame : s.shown i = s.step i := by
    simp only [shown, step, hArb, hResp, hWait, Bool.false_and,
      Bool.false_eq_true, if_false]
  refine ⟨?_, hSame, ?_⟩
  · simp [outcome, answered, hResp, accepted_of_serves hServes]
  · rw [← hSame]
    refine ⟨hInv.live, ?_⟩
    intro side' hSide'
    obtain ⟨r, hHeld, hKind⟩ := hInv.serves side' hSide'
    exact ⟨r, hLegal.holds side' r hHeld, hKind⟩

/-- The memory answers: the side that is served gets the answer. -/
theorem answer_step (hServes : s.arbiter.serves = some side)
    (hAccess : i.access side = some r) (hDrives : Drives s i side r)
    (hResp : i.memResp = true) :
    arbiterSpec.Accepts (s.shown i).port (s.outcome i) ∧
      arbiterSpec.after (s.shown i).port (s.outcome i) = (s.step i).port ∧
      (s.step i).Inv := by
  have hSelf : s.resp i side = true := resp_iff.2 ⟨hResp, hServes⟩
  have hOther : ∀ side', side' ≠ side → s.resp i side' = false := by
    intro side' hNe
    rw [Bool.eq_false_iff, ne_eq, resp_iff, hServes, Option.some.injEq]
    exact fun h => hNe h.2.symm
  have hOutcome : s.outcome i =
      [.answered side (i.writeLanes side) (s.rdata i side)] := by
    cases side with
    | inst =>
        simp [outcome, answered, hSelf, hOther .data, accepted_of_serves hServes]
    | data =>
        simp [outcome, answered, hSelf, hOther .inst, accepted_of_serves hServes]
  have hArb : (s.step i).arbiter = .idleS := by
    rw [step, next_of_serves hServes, hResp]
    rfl
  have hPhase : (s.shown i).phase side = .served r :=
    phase_served hAccess hServes
  have hMem : (s.step i).mem =
      lineDevice.perform s.mem r (i.writeLanes side) := by
    cases hWrite : r.write with
    | false => simp [step, lineDevice, hDrives.memWrite, hWrite]
    | true =>
        simp [step, lineDevice, hDrives.memWrite, hWrite, hResp,
          hDrives.memAddress, hDrives.byteEnable, hDrives.wdata hWrite]
  rw [hOutcome]
  refine ⟨⟨⟨r, hPhase, ?_⟩, trivial⟩, ?_, Or.inl hArb, ?_⟩
  · intro hRead
    exact rdata_of_drives hServes hDrives hResp hRead
  · have hStore : stored lineDevice (s.shown i).mem (i.writeLanes side)
        ((s.shown i).phase side) = (s.step i).mem := by
      rw [hPhase, hMem]
      rfl
    simp only [Acceptor.after, arbiterSpec, sharedPort, port,
      SharedPort.State.mk.injEq]
    refine ⟨?_, hStore⟩
    funext side'
    by_cases hSide : side' = side
    · rw [hSide, Function.update_self, phase_none]
      simp [step, hSelf]
    · have hHeld : (s.step i).held side' = i.access side' := by
        simp [step, hOther side' hSide]
      rw [Function.update_of_ne hSide]
      cases hAcc : i.access side' with
      | none => rw [phase_none hAcc, phase_none (by rw [hHeld, hAcc])]
      | some r' =>
          have hNow : (s.shown i).arbiter.serves ≠ some side' := by
            rw [shown, hServes, ne_eq, Option.some.injEq]
            exact fun hEq => hSide hEq.symm
          have hNext : (s.step i).arbiter.serves ≠ some side' := by
            rw [hArb]
            simp [ArbiterState.serves]
          rw [phase_waiting hAcc hNow,
            phase_waiting (by rw [hHeld, hAcc]) hNext]
  · intro side' hSide'
    rw [hArb] at hSide'
    cases hSide'

/-- Every legal cycle is one of a shared port. -/
theorem Inv.step (hInv : s.Inv) (hLegal : s.Legal i) :
    arbiterSpec.Accepts s.port (s.events i) ∧
      (arbiterSpec.after s.port (s.events i) = (s.step i).port ∧
        (s.step i).Inv) := by
  obtain ⟨hRaised, hShown⟩ := raised_both hInv hLegal
  have hOutcome : arbiterSpec.Accepts (s.shown i).port (s.outcome i) ∧
      arbiterSpec.after (s.shown i).port (s.outcome i) = (s.step i).port ∧
      (s.step i).Inv := by
    rcases hInv.live with hIdle | ⟨side, hServes⟩
    · exact idle_step hIdle
    · obtain ⟨r, hHeld, hKind⟩ := hInv.serves side hServes
      have hAccess := hLegal.holds side r hHeld
      cases hResp : i.memResp with
      | false =>
          obtain ⟨hNone, hSame, hNext⟩ := wait_step hInv hLegal hServes hResp
          rw [hNone, hSame]
          exact ⟨trivial, rfl, hNext⟩
      | true =>
          exact answer_step hServes hAccess (drives hServes hAccess hKind) hResp
  have hSplit : s.events i =
      s.raised i .inst ++ s.raised i .data ++ s.outcome i := rfl
  rw [hSplit, arbiterSpec.accepts_append _ _ (s.outcome i),
    arbiterSpec.after_append _ _ (s.outcome i), hShown]
  exact ⟨⟨hRaised, hOutcome.1⟩, hOutcome.2⟩

/-! ## Runs -/

/-- What holds at the ports in every cycle. -/
structure CycleOk (s : ArbiterSystem) (i : ArbiterInput) : Prop where
  exclusive : ((s.driven i).memRead && (s.driven i).memWrite) = false
  driven : ∀ side, s.arbiter.serves = some side →
    ∃ r, i.access side = some r ∧ Drives s i side r
  quiet : s.arbiter.serves = none → (s.driven i).active = false
  served : i.memResp = true → ∃ side, s.arbiter.serves = some side
  delivered : ∀ side, s.resp i side = true ↔
    i.memResp = true ∧ s.arbiter.serves = some side
  data : ∀ side r, s.resp i side = true → i.access side = some r →
    r.write = false → s.rdata i side = s.mem (lineNo r.address)

theorem Inv.cycleOk (hInv : s.Inv) (hLegal : s.Legal i) : CycleOk s i := by
  have hDriven : ∀ side, s.arbiter.serves = some side →
      ∃ r, i.access side = some r ∧ Drives s i side r := by
    intro side hServes
    obtain ⟨r, hHeld, hKind⟩ := hInv.serves side hServes
    have hAccess := hLegal.holds side r hHeld
    exact ⟨r, hAccess, drives hServes hAccess hKind⟩
  refine ⟨?_, hDriven, active_of_serves_none, ?_, fun side => resp_iff, ?_⟩
  · cases hArb : s.arbiter <;>
      simp [ArbiterSystem.driven, hArb, ArbiterState.memRequest]
  · intro hResp
    rcases hInv.live with hIdle | hServes
    · have hActive := hLegal.answersRequest hResp
      rw [active_of_serves_none (by rw [hIdle]; rfl)] at hActive
      cases hActive
    · exact hServes
  · intro side r hResp hAccess hRead
    obtain ⟨hMem, hServes⟩ := resp_iff.1 hResp
    obtain ⟨r', hAccess', hDrives⟩ := hDriven side hServes
    rw [hAccess, Option.some.injEq] at hAccess'
    subst hAccess'
    exact rdata_of_drives hServes hDrives hMem hRead

end

end ArbiterSystem

/--
**The arbiter's protocol.**  For any two requesters that hold their requests
and any memory delays: reads and writes are never driven at once, what is
driven is the served side's, a memory response goes to that side only and with
the data of its own address; and over the whole run the sides use the memory
as a shared port, every request that is served getting exactly one response.
-/
theorem arbiter_protocol {s : ArbiterSystem} (hReset : s.IsReset)
    (is : List ArbiterInput) (hLegal : arbiterMachine.Legal s is) :
    arbiterMachine.Always ArbiterSystem.CycleOk s is ∧
      ArbiterSystem.arbiterSpec.Accepts s.port (arbiterMachine.events s is) ∧
      ArbiterSystem.arbiterSpec.after s.port (arbiterMachine.events s is) =
        (arbiterMachine.run s is).port ∧
      ∀ side, (arbiterMachine.events s is).countP (Event.accepts side) =
        (arbiterMachine.events s is).countP (Event.answers side) +
          ((arbiterMachine.run s is).phase side).busy := by
  obtain ⟨hAcc, hPort, hInv⟩ := arbiterMachine.simulates
    ArbiterSystem.arbiterSpec
    (R := fun s t => t = s.port ∧ s.Inv)
    (fun s t i h hLegal => by
      obtain ⟨rfl, hInv⟩ := h
      exact hInv.step hLegal)
    is s s.port ⟨rfl, hReset.inv⟩ hLegal
  refine ⟨?_, hAcc, hPort, ?_⟩
  · exact arbiterMachine.always_of_invariant
      (q := fun _ _ => True)
      (fun s i hInv hLegal _ => ⟨hInv.cycleOk hLegal, (hInv.step hLegal).2.2⟩)
      is s hReset.inv hLegal
      (arbiterMachine.always_of_forall (fun _ _ => trivial) s is)
  · intro side
    have hCount := accepted_count lineDevice side _ _ hAcc
    have hStart : (s.port.phase side).busy = 0 := by
      show (s.phase side).busy = 0
      rw [ArbiterSystem.phase_none (hReset.held side)]
      rfl
    have hEnd : ((sharedPort lineDevice).after s.port
        (arbiterMachine.events s is)).phase side =
          (arbiterMachine.run s is).phase side :=
      congrArg (fun t => t.phase side) hPort
    rw [hStart, hEnd, Nat.add_zero] at hCount
    exact hCount

/-- Both sides come at once; the data side's write waits for the instruction
side's read, which raises its next request in the cycle of the write's
response. -/
theorem arbiter_protocol_both :
    let inst : InstPort := ⟨true, 0x40, 0⟩
    let next : InstPort := ⟨true, 0x80, 0⟩
    let none' : InstPort := ⟨false, 0, 0⟩
    let write : DataPort := ⟨false, true, 0x40, fun _ => 7#8, 1⟩
    let idle : DataPort := ⟨false, false, 0, fun _ => 0#8, 0⟩
    let s : ArbiterSystem := ⟨.idleS, fun _ => none, fun _ _ => 1#8⟩
    let is : List ArbiterInput :=
      [⟨inst, write, false, fun _ => 0#8⟩, ⟨inst, write, false, fun _ => 0#8⟩,
        ⟨inst, write, true, fun _ => 0#8⟩, ⟨none', write, false, fun _ => 0#8⟩,
        ⟨next, write, true, fun _ => 0#8⟩, ⟨next, idle, false, fun _ => 0#8⟩,
        ⟨next, idle, true, fun _ => 0#8⟩]
    (∀ side, (arbiterMachine.events s is).countP (Event.accepts side) =
        (arbiterMachine.events s is).countP (Event.answers side) +
          ((arbiterMachine.run s is).phase side).busy) ∧
      (arbiterMachine.events s is).countP (Event.answers .inst) = 2 ∧
      (arbiterMachine.events s is).countP (Event.answers .data) = 1 := by
  refine ⟨(arbiter_protocol ⟨rfl, fun _ => rfl⟩ _ ?_).2.2.2, ?_, ?_⟩
  · show arbiterMachine.Always ArbiterSystem.Legal _ _
    decide
  · decide
  · decide

end CompE.Caches
