import CompE.Caches.WriteBack
import CompE.Caches.Arbiter

/-!
# The data-memory hierarchy

`mp3.sv` connects the L1 data cache through `cache_arbiter` to the L2 cache
and the line memory behind it; the instruction cache reads through the same
arbiter.  The L2 cache shows a line memory to the arbiter, that line memory is
the memory behind the L1 cache, and what the L1 cache shows is the CPU's
memory.

The wiring has one defect: `cache.sv` drives `byte_enable_L2` with the byte
enables of the *CPU's access*, also while the access evicts a line.  The L2
cache then takes only those bytes of the victim.  `hierarchy_refines` is the
refinement for the runs in which every write-back happens to be complete, and
`staleRun_reads_stale` a run in which one is not.
-/

namespace CompE.Caches

open CompE.Library

/-- The observable events of the CPU's data memory. -/
abbrev WordEvent := LaneMemory.Event WordNo (Fin 4) (BitVec 8)

/-- The CPU's data port. -/
structure DataRequest where
  memRead : Bool
  memWrite : Bool
  memAddress : Addr
  memWdata : Word
  memByteEnable : BitVec 4

/-- The request behind `bus_adapter`. -/
def DataRequest.line (r : DataRequest) : Request where
  memRead := r.memRead
  memWrite := r.memWrite
  memAddress := r.memAddress
  memWdata256 := memWdata256 r.memWdata
  memByteEnable256 := memByteEnable256 r.memByteEnable r.memAddress

/-- The two caches, the arbiter and the memory, with the requests that await
a response. -/
structure Hierarchy where
  l1 : Cache
  arbiter : ArbiterState
  l2 : Cache
  mem : LineMem
  pendingData : Option DataRequest
  pendingInst : Option InstPort

/-- What the CPU, the instruction cache and the memory drive in a cycle. -/
structure Drive where
  data : DataRequest
  inst : InstPort
  memResp : Bool

namespace Hierarchy

/-! ## The wiring -/

/-- The L1 cache's side of the arbiter, with
`byte_enable_L2 = mem_byte_enable256`. -/
def dataPort (h : Hierarchy) (i : Drive) : DataPort where
  dataRead := h.l1.pmemRead i.data.line
  dataWrite := h.l1.pmemWrite i.data.line
  dataAddr := h.l1.pmemAddress i.data.line
  dataWdata := h.l1.pmemWdata
  dataByteEnable256 := i.data.line.memByteEnable256

def l2Request (h : Hierarchy) (i : Drive) : Request :=
  h.arbiter.memRequest i.inst (h.dataPort i)

/-- The memory drives the line the L2 cache addresses. -/
def l2Rdata (h : Hierarchy) (i : Drive) : Line :=
  h.mem (lineNo (h.l2.pmemAddress (h.l2Request i)))

def l2Resp (h : Hierarchy) (i : Drive) : Bool := h.l2.memResp (h.l2Request i)

def l2Line (h : Hierarchy) (i : Drive) : Line :=
  h.l2.memRdata256 (h.l2Request i) i.memResp (h.l2Rdata i)

def l1Resp (h : Hierarchy) (i : Drive) : Bool :=
  h.arbiter.dataResp (h.l2Resp i)

def l1Rdata (h : Hierarchy) (i : Drive) : Line :=
  h.arbiter.dataRdata (h.l2Line i)

def step (h : Hierarchy) (i : Drive) : Hierarchy where
  l1 := h.l1.clock i.data.line (h.l1Resp i) (h.l1Rdata i)
  arbiter := h.arbiter.next i.inst (h.dataPort i) (h.l2Resp i)
  l2 := h.l2.clock (h.l2Request i) i.memResp (h.l2Rdata i)
  mem := h.l2.memAfter (h.l2Request i) i.memResp h.mem
  pendingData :=
    if i.data.line.active && !h.l1.memResp i.data.line then some i.data
    else none
  pendingInst :=
    if i.inst.instRead && !h.arbiter.instResp (h.l2Resp i) then some i.inst
    else none

section

variable {h : Hierarchy} {i : Drive}

theorem l2Request_inst (hArb : h.arbiter = .instReadS) : h.l2Request i = {
    memRead := true
    memWrite := false
    memAddress := i.inst.instAddr
    memWdata256 := fun _ => 0#8
    memByteEnable256 := i.inst.instByteEnable256 } := by
  simp [l2Request, hArb, ArbiterState.memRequest]

private theorem l2Request_read (hArb : h.arbiter = .dataReadS) : h.l2Request i = {
    memRead := true
    memWrite := false
    memAddress := h.l1.pmemAddress i.data.line
    memWdata256 := fun _ => 0#8
    memByteEnable256 := i.data.line.memByteEnable256 } := by
  simp [l2Request, hArb, ArbiterState.memRequest, dataPort]

private theorem l2Request_write (hArb : h.arbiter = .dataWriteS) : h.l2Request i = {
    memRead := false
    memWrite := true
    memAddress := h.l1.pmemAddress i.data.line
    memWdata256 := h.l1.pmemWdata
    memByteEnable256 := i.data.line.memByteEnable256 } := by
  simp [l2Request, hArb, ArbiterState.memRequest, dataPort]

/-- Only a write-back is a write at the L2 cache. -/
theorem l2Request_memWrite :
    (h.l2Request i).memWrite = decide (h.arbiter = .dataWriteS) := by
  cases hArb : h.arbiter <;> simp [l2Request, hArb, ArbiterState.memRequest]

/-- The L1 cache is answered in the two data states. -/
theorem l1Resp_eq : h.l1Resp i =
    ((decide (h.arbiter = .dataReadS) || decide (h.arbiter = .dataWriteS)) &&
      h.l2Resp i) := by
  cases hArb : h.arbiter <;> simp [l1Resp, hArb, ArbiterState.dataResp]

end

/-- The CPU's side of a cycle. -/
def emit (h : Hierarchy) (i : Drive) : List WordEvent :=
  if h.l1.memResp i.data.line then
    if i.data.memWrite then
      [.store (wordNo i.data.memAddress) (fun j => i.data.memByteEnable.getLsbD j)
        i.data.memWdata]
    else if i.data.memRead then
      [.load (wordNo i.data.memAddress)
        (memRdata (h.l1.memRdata256 i.data.line (h.l1Resp i) (h.l1Rdata i))
          i.data.memAddress)]
    else []
  else []

/-- The CPU reads or writes, not both; the CPU and the instruction cache hold
a request until it is acknowledged. -/
def legal (h : Hierarchy) (i : Drive) : Prop :=
  ¬ (i.data.memRead = true ∧ i.data.memWrite = true) ∧
    (∀ r, h.pendingData = some r → i.data = r) ∧
    ∀ p, h.pendingInst = some p → i.inst = p

/-- If the L2 cache acknowledges a write-back in this cycle, then the bytes
the CPU's enables leave out are unmodified: they equal the L2 cache's copy. -/
def evictsInFull (h : Hierarchy) (i : Drive) : Prop :=
  h.arbiter = .dataWriteS → h.l2Resp i = true →
    ∀ j, lanes i.data.line.memByteEnable256 j = false →
      h.l1.pmemWdata j = h.l2.view (h.l2Request i).memAddress h.mem
        (lineNo (h.l1.pmemAddress i.data.line)) j

instance decidableEvictsInFull (h : Hierarchy) (i : Drive) :
    Decidable (evictsInFull h i) :=
  have : Decidable (∀ j, lanes i.data.line.memByteEnable256 j = false →
      h.l1.pmemWdata j = h.l2.view (h.l2Request i).memAddress h.mem
        (lineNo (h.l1.pmemAddress i.data.line)) j) :=
    Nat.decidableForallFin _
  inferInstanceAs (Decidable (_ → _ → _))

def machine : Machine Hierarchy Drive WordEvent where
  step := step
  emit := emit
  legal := legal

/-- Power-up: reset, no request pending. -/
def boot (c c' : Cache) (m : LineMem) : Hierarchy :=
  ⟨c, .idleS, c', m, none, none⟩

/-! ## The invariant -/

/-- The L2 cache shows `v`, and the L1 cache in front of `v` shows `u`. -/
structure Joined (h : Hierarchy) (v u : LineMem) : Prop where
  l1 : ∃ a, Shows h.l1 a v u
  /-- A pending CPU request is the one the L1 cache serves. -/
  l1Pending : ∀ r, h.pendingData = some r →
    r.line.active = true ∧ Shows h.l1 r.memAddress v u
  l1Idle : h.pendingData = none → h.l1.state = .sHit
  instPending : ∀ p, h.pendingInst = some p → p.instRead = true
  l2 : ∃ a, Shows h.l2 a h.mem v
  l2Idle : h.arbiter = .idleS → h.l2.state = .sHit
  /-- In a serving state the arbiter's client still asks, and the L2 cache
  serves the client's address. -/
  l2Inst : h.arbiter = .instReadS → ∃ p, h.pendingInst = some p ∧
    Shows h.l2 p.instAddr h.mem v
  l2Read : h.arbiter = .dataReadS → h.l1.state = .sMiss ∧
    ∀ r, h.pendingData = some r → Shows h.l2 (h.l1.pmemAddress r.line) h.mem v
  l2Write : h.arbiter = .dataWriteS → h.l1.state = .sEvict ∧
    ∀ r, h.pendingData = some r → Shows h.l2 (h.l1.pmemAddress r.line) h.mem v
  arbiter : h.arbiter = .idleS ∨ h.arbiter = .instReadS ∨
    h.arbiter = .dataReadS ∨ h.arbiter = .dataWriteS

theorem Joined.boot {c c' : Cache} (hL1 : c.IsReset) (hL2 : c'.IsReset)
    (m : LineMem) : Joined (boot c c' m) m m where
  l1 := ⟨0#32, hL1.shows _ m⟩
  l1Pending := by simp [Hierarchy.boot]
  l1Idle := fun _ => hL1.state
  instPending := by simp [Hierarchy.boot]
  l2 := ⟨0#32, hL2.shows _ m⟩
  l2Idle := fun _ => hL2.state
  l2Inst := by simp [Hierarchy.boot]
  l2Read := by simp [Hierarchy.boot]
  l2Write := by simp [Hierarchy.boot]
  arbiter := .inl rfl

section Step

variable {h : Hierarchy} {v u : LineMem} {i : Drive}

/-- A busy L1 cache has a pending request, and the CPU drives it. -/
theorem Joined.pending (hJoin : Joined h v u) (hLegal : legal h i)
    (hBusy : h.l1.state ≠ .sHit) : h.pendingData = some i.data := by
  cases hPend : h.pendingData with
  | none => exact absurd (hJoin.l1Idle hPend) hBusy
  | some r => rw [hLegal.2.1 r hPend]

/-- The L1 cache is ready for the CPU's request. -/
theorem Joined.l1Ready (hJoin : Joined h v u) (hLegal : legal h i) :
    Shows h.l1 i.data.line.memAddress v u ∧
      (h.l1.state ≠ .sHit → i.data.line.active = true) := by
  constructor
  · cases hPend : h.pendingData with
    | none =>
        obtain ⟨a, hShows⟩ := hJoin.l1
        exact hShows.of_sHit (hJoin.l1Idle hPend) _
    | some r =>
        rw [hLegal.2.1 r hPend]
        exact (hJoin.l1Pending r hPend).2
  · intro hBusy
    exact (hJoin.l1Pending _ (hJoin.pending hLegal hBusy)).1

/-- The L2 cache is ready for the arbiter's request. -/
theorem Joined.l2Ready (hJoin : Joined h v u) (hLegal : legal h i) :
    Shows h.l2 (h.l2Request i).memAddress h.mem v ∧
      (h.l2.state ≠ .sHit → (h.l2Request i).active = true) := by
  rcases hJoin.arbiter with hArb | hArb | hArb | hArb
  · obtain ⟨a, hShows⟩ := hJoin.l2
    have hHit := hJoin.l2Idle hArb
    exact ⟨hShows.of_sHit hHit _, fun hBusy => absurd hHit hBusy⟩
  · obtain ⟨p, hPend, hShows⟩ := hJoin.l2Inst hArb
    rw [← hLegal.2.2 p hPend] at hShows
    rw [l2Request_inst hArb]
    exact ⟨hShows, fun _ => rfl⟩
  · obtain ⟨hMiss, hServe⟩ := hJoin.l2Read hArb
    have hShows := hServe _ (hJoin.pending hLegal (by simp [hMiss]))
    rw [l2Request_read hArb]
    exact ⟨hShows, fun _ => rfl⟩
  · obtain ⟨hEvict, hServe⟩ := hJoin.l2Write hArb
    have hShows := hServe _ (hJoin.pending hLegal (by simp [hEvict]))
    rw [l2Request_write hArb]
    exact ⟨hShows, fun _ => rfl⟩

/-- What the L2 cache shows after the cycle. -/
def l2After (h : Hierarchy) (i : Drive) (v : LineMem) : LineMem :=
  if h.l2Resp i && (h.l2Request i).memWrite then
    LaneMemory.store v (lineNo (h.l2Request i).memAddress)
      (lanes (h.l2Request i).memByteEnable256) (h.l2Request i).memWdata256
  else v

theorem Joined.l2_clock (hJoin : Joined h v u) (hLegal : legal h i) :
    Shows (h.step i).l2 (h.l2Request i).memAddress (h.step i).mem
      (h.l2After i v) := by
  obtain ⟨hShows, hHeld⟩ := hJoin.l2Ready hLegal
  have hNext := (hShows.clock i.memResp (h.l2Rdata i) hHeld fun _ _ => rfl).2
  rw [after_lineEvents] at hNext
  exact hNext

/-- The line the L2 cache returns to the L1 cache is the one it asked for. -/
theorem Joined.l1_fill (hJoin : Joined h v u) (hLegal : legal h i)
    (hRead : h.l1.pmemRead i.data.line = true) (hResp : h.l1Resp i = true) :
    h.l1Rdata i = v (lineNo (h.l1.pmemAddress i.data.line)) := by
  rw [Cache.pmemRead_eq, decide_eq_true_eq] at hRead
  rw [l1Resp_eq] at hResp
  have hArb : h.arbiter = .dataReadS := by
    rcases hJoin.arbiter with hArb | hArb | hArb | hArb
    · simp [hArb] at hResp
    · simp [hArb] at hResp
    · exact hArb
    · rw [(hJoin.l2Write hArb).1] at hRead
      cases hRead
  have hL2 : h.l2.memResp (h.l2Request i) = true := by
    simpa [hArb, l2Resp] using hResp
  obtain ⟨hShows, -⟩ := hJoin.l2Ready hLegal
  have hLine := Cache.memRdata256_of_memResp i.memResp (h.l2Rdata i)
    hShows.inv hL2 (by simp [l2Request_memWrite, hArb]) h.mem
  rw [← hShows.view] at hLine
  rw [l1Rdata, hArb, ArbiterState.dataRdata, l2Line, hLine,
    l2Request_read hArb]

/-- A complete write-back changes what the L2 cache shows exactly as a full
line write would. -/
theorem Joined.l2After_eq (hJoin : Joined h v u) (hLegal : legal h i)
    (hFull : evictsInFull h i) :
    h.l2After i v = h.l1.memAfter i.data.line (h.l1Resp i) v := by
  obtain ⟨hShows, -⟩ := hJoin.l2Ready hLegal
  rw [l2After, l2Request_memWrite, Cache.memAfter, Cache.pmemWrite_eq, l1Resp_eq]
  by_cases hArb : h.arbiter = .dataWriteS
  · cases hL2 : h.l2Resp i with
    | false => simp
    | true =>
        have hAgree : ∀ j, lanes i.data.line.memByteEnable256 j = false →
            h.l1.pmemWdata j =
              v (lineNo (h.l1.pmemAddress i.data.line)) j := by
          intro j hj
          rw [hShows.view]
          exact hFull hArb hL2 j hj
        rw [l2Request_write hArb, (hJoin.l2Write hArb).1]
        simp only [hArb, decide_true, Bool.and_self, Bool.or_true, if_true]
        apply LaneMemory.store_congr
        rw [LaneMemory.merge_true, LaneMemory.merge_eq_of_agree hAgree]
  · by_cases hRead : h.arbiter = .dataReadS
    · simp [hArb, (hJoin.l2Read hRead).1]
    · simp [hArb, hRead]

/-- The CPU's words follow the L1 cache's lines. -/
theorem accepts_emit (h : Hierarchy) (i : Drive) (u : LineMem)
    (hAcc : (LaneMemory.flat _ _ _).Accepts u
      (lineEvents h.l1 i.data.line (h.l1Resp i) (h.l1Rdata i))) :
    (LaneMemory.flat _ _ _).Accepts (words u) (emit h i) ∧
      (LaneMemory.flat _ _ _).after (words u) (emit h i) =
        words ((LaneMemory.flat _ _ _).after u
          (lineEvents h.l1 i.data.line (h.l1Resp i) (h.l1Rdata i))) := by
  rw [after_lineEvents]
  rw [lineEvents] at hAcc
  rw [emit]
  cases hResp : h.l1.memResp i.data.line with
  | false => exact ⟨trivial, rfl⟩
  | true =>
      cases hWrite : i.data.memWrite with
      | true =>
          refine ⟨⟨trivial, trivial⟩, ?_⟩
          have hLine : i.data.line.memWrite = true := hWrite
          rw [hLine]
          exact (words_store u _ _ _).symm
      | false =>
          have hLine : i.data.line.memWrite = false := hWrite
          cases hRead : i.data.memRead with
          | false => exact ⟨trivial, by rw [hLine]; rfl⟩
          | true =>
              have hLineRead : i.data.line.memRead = true := hRead
              rw [hResp, hLine, hLineRead] at hAcc
              refine ⟨⟨fun j => ?_, trivial⟩, by rw [hLine]; rfl⟩
              rw [← memRdata_line, memRdata, memRdata]
              exact hAcc.1 _

/-- Waiting for the arbiter, the L1 cache keeps its place and its address. -/
theorem Joined.l1_waits (hJoin : Joined h v u) (hLegal : legal h i)
    (hWait : h.l1Resp i = false)
    (hMem : h.l1.state = .sMiss ∨ h.l1.state = .sEvict) :
    (h.step i).l1.state = h.l1.state ∧
      (h.step i).l1.pmemAddress i.data.line =
        h.l1.pmemAddress i.data.line ∧
      (h.step i).pendingData = some i.data := by
  obtain ⟨hShows, hHeld⟩ := hJoin.l1Ready hLegal
  have hBusy : h.l1.state ≠ .sHit := by rcases hMem with h' | h' <;> simp [h']
  have hNext := hShows.inv.clock false (h.l1Rdata i) hHeld
  have hResp : h.l1.memResp i.data.line = false := by
    rw [Cache.memResp_eq]
    simp [hBusy]
  have hPend : (h.step i).pendingData = some i.data := by
    simp [step, hHeld hBusy, hResp]
  rw [step, hWait] at *
  rcases hMem with h' | h'
  · have hState := Cache.clock_wait_state i.data.line (h.l1Rdata i) h'
    exact ⟨by simp [hState, h'], by
      rw [Cache.pmemAddress_sMiss hState, Cache.pmemAddress_sMiss h'], hPend⟩
  · obtain ⟨hState, -, hTag, -, -, hLru, -, -⟩ :=
      Cache.clock_evict i.data.line false (h.l1Rdata i) h'
    have hState' : (h.l1.clock i.data.line false (h.l1Rdata i)).state =
        .sEvict := by simpa using hState
    refine ⟨by simp [hState', h'], ?_, hPend⟩
    rw [Cache.pmemAddress_sEvict hState', Cache.pmemAddress_sEvict h',
      (hNext.victim hState').1, (hShows.inv.victim h').1, hTag, hLru]

/-- The L1 side of the invariant after a cycle. -/
theorem Joined.l1_step (hJoin : Joined h v u) (hLegal : legal h i)
    (hFull : evictsInFull h i) :
    ∃ u', (LaneMemory.flat _ _ _).Accepts (words u) (emit h i) ∧
      (LaneMemory.flat _ _ _).after (words u) (emit h i) = words u' ∧
      Shows (h.step i).l1 i.data.memAddress (h.l2After i v) u' ∧
      (∀ r, (h.step i).pendingData = some r →
        r = i.data ∧ r.line.active = true) ∧
      ((h.step i).pendingData = none → (h.step i).l1.state = .sHit) := by
  obtain ⟨hShows, hHeld⟩ := hJoin.l1Ready hLegal
  obtain ⟨hAcc, hNext⟩ := hShows.clock (h.l1Resp i) (h.l1Rdata i) hHeld
    (hJoin.l1_fill hLegal)
  obtain ⟨hAccWords, hAfter⟩ := accepts_emit h i u hAcc
  rw [← hJoin.l2After_eq hLegal hFull] at hNext
  refine ⟨_, hAccWords, hAfter, hNext, fun r hPend => ?_, fun hPend => ?_⟩
  · simp only [step] at hPend
    split at hPend
    · rename_i hWait
      cases hPend
      rw [Bool.and_eq_true] at hWait
      exact ⟨rfl, hWait.1⟩
    · cases hPend
  · apply clock_state_of_done _ _ hHeld
    simp only [step] at hPend
    cases hActive : i.data.line.active <;>
      cases hResp : h.l1.memResp i.data.line <;> simp_all

/-- The arbiter goes idle when the L2 cache has answered, or had nothing to
do. -/
theorem Joined.l2_idle (hJoin : Joined h v u) (hLegal : legal h i)
    (hArb : h.arbiter = .idleS ∨ h.l2Resp i = true) :
    (h.step i).l2.state = .sHit := by
  obtain ⟨-, hHeld⟩ := hJoin.l2Ready hLegal
  apply clock_state_of_done _ _ hHeld
  rcases hArb with hArb | hResp
  · left
    simp [l2Request, hArb, ArbiterState.memRequest, Request.active]
  · exact .inr hResp

/-- A data state is entered from idle on the L1 cache's demand, or kept while
the L2 cache has not answered; the L1 cache waits in both cases. -/
theorem Joined.data_step (hJoin : Joined h v u) (hLegal : legal h i)
    {st : ArbiterState}
    (hData : st = .dataReadS ∧ h.l1.state = .sMiss ∨
      st = .dataWriteS ∧ h.l1.state = .sEvict)
    (hFrom : h.arbiter = .idleS ∨ h.arbiter = st ∧ h.l2Resp i = false) :
    (h.step i).l1.state = h.l1.state ∧
      ∀ r, (h.step i).pendingData = some r →
        Shows (h.step i).l2 ((h.step i).l1.pmemAddress r.line) (h.step i).mem
          (h.l2After i v) := by
  have hL2 := hJoin.l2_clock hLegal
  have hMem : h.l1.state = .sMiss ∨ h.l1.state = .sEvict := by
    rcases hData with ⟨-, h'⟩ | ⟨-, h'⟩
    · exact .inl h'
    · exact .inr h'
  have hWait : h.l1Resp i = false := by
    rw [l1Resp_eq]
    rcases hFrom with hArb | ⟨-, hResp⟩
    · simp [hArb]
    · simp [hResp]
  obtain ⟨hState, hAddr, hPend⟩ := hJoin.l1_waits hLegal hWait hMem
  refine ⟨hState, fun r hr => ?_⟩
  rw [hPend, Option.some.injEq] at hr
  subst hr
  rw [hAddr]
  rcases hFrom with hArb | ⟨hArb, -⟩
  · exact hL2.of_sHit (hJoin.l2_idle hLegal (.inl hArb)) _
  · rcases hData with ⟨rfl, -⟩ | ⟨rfl, -⟩
    · rwa [l2Request_read hArb] at hL2
    · rwa [l2Request_write hArb] at hL2

/-- Where a serving state comes from. -/
theorem Joined.arbiter_step (hJoin : Joined h v u)
    (hBusy : (h.step i).arbiter ≠ .idleS) :
    (h.arbiter = .idleS ∧
        (h.step i).arbiter.asks i.inst (h.dataPort i) = true) ∨
      (h.arbiter = (h.step i).arbiter ∧ h.l2Resp i = false) := by
  rcases ArbiterState.next_busy (rfl : _ = (h.step i).arbiter) hBusy with
    h' | ⟨h', hStay⟩
  · exact .inl h'
  · refine .inr ⟨h', ?_⟩
    rcases hJoin.arbiter with hArb | hArb | hArb | hArb <;>
      simpa [hArb] using hStay

/-- **One cycle of the hierarchy** with a complete write-back, if any. -/
theorem Joined.step (hJoin : Joined h v u) (hLegal : legal h i)
    (hFull : evictsInFull h i) :
    ∃ u', (LaneMemory.flat _ _ _).Accepts (words u) (emit h i) ∧
      (LaneMemory.flat _ _ _).after (words u) (emit h i) = words u' ∧
      Joined (h.step i) (h.l2After i v) u' := by
  obtain ⟨u', hAcc, hAfter, hL1, hPending, hIdle⟩ :=
    hJoin.l1_step hLegal hFull
  have hL2 := hJoin.l2_clock hLegal
  refine ⟨u', hAcc, hAfter, {
    l1 := ⟨_, hL1⟩
    l1Pending := fun r hPend => ?_
    l1Idle := hIdle
    instPending := fun p hPend => ?_
    l2 := ⟨_, hL2⟩
    l2Idle := fun hArb => hJoin.l2_idle hLegal (ArbiterState.next_idle hArb)
    l2Inst := fun hArb => ?_
    l2Read := fun hArb => ?_
    l2Write := fun hArb => ?_
    arbiter := ?_ }⟩
  · obtain ⟨rfl, hActive⟩ := hPending r hPend
    exact ⟨hActive, hL1⟩
  · simp only [Hierarchy.step] at hPend
    split at hPend
    · rename_i hWait
      cases hPend
      rw [Bool.and_eq_true] at hWait
      exact hWait.1
    · cases hPend
  · have hFrom := hJoin.arbiter_step (i := i) (by simp [hArb])
    rw [hArb] at hFrom
    rcases hFrom with ⟨h', hRead⟩ | ⟨h', hResp⟩
    · rw [ArbiterState.asks] at hRead
      refine ⟨i.inst, by simp [Hierarchy.step, hRead, h',
        ArbiterState.instResp], ?_⟩
      exact hL2.of_sHit (hJoin.l2_idle hLegal (.inl h')) _
    · obtain ⟨p, hPend, -⟩ := hJoin.l2Inst h'
      have hRead := hJoin.instPending p hPend
      rw [← hLegal.2.2 p hPend] at hRead
      refine ⟨i.inst, by simp [Hierarchy.step, hRead, h',
        ArbiterState.instResp, hResp], ?_⟩
      rwa [l2Request_inst h'] at hL2
  · have hFrom := hJoin.arbiter_step (i := i) (by simp [hArb])
    rw [hArb] at hFrom
    have hMiss : h.l1.state = .sMiss := by
      rcases hFrom with ⟨-, hRead⟩ | ⟨h', -⟩
      · simpa [ArbiterState.asks, dataPort, Cache.pmemRead_eq] using hRead
      · exact (hJoin.l2Read h').1
    obtain ⟨hState, hServe⟩ := hJoin.data_step hLegal (.inl ⟨rfl, hMiss⟩)
      (hFrom.imp_left And.left)
    exact ⟨hState.trans hMiss, hServe⟩
  · have hFrom := hJoin.arbiter_step (i := i) (by simp [hArb])
    rw [hArb] at hFrom
    have hEvict : h.l1.state = .sEvict := by
      rcases hFrom with ⟨-, hWrite⟩ | ⟨h', -⟩
      · simpa [ArbiterState.asks, dataPort, Cache.pmemWrite_eq] using hWrite
      · exact (hJoin.l2Write h').1
    obtain ⟨hState, hServe⟩ := hJoin.data_step hLegal (.inr ⟨rfl, hEvict⟩)
      (hFrom.imp_left And.left)
    exact ⟨hState.trans hEvict, hServe⟩
  · by_cases hIdle' : (h.step i).arbiter = .idleS
    · exact .inl hIdle'
    · rcases hJoin.arbiter_step hIdle' with ⟨-, hAsk⟩ | ⟨h', -⟩
      · cases hSt : (h.step i).arbiter <;> simp_all [ArbiterState.asks]
      · rw [← h']
        exact hJoin.arbiter

end Step

/-! ## The result -/

/-- The relation between the hierarchy and the CPU's memory. -/
def Related (h : Hierarchy) (t : WordMem) : Prop :=
  ∃ v u, Joined h v u ∧ t = words u

/--
**The hierarchy refines the CPU's memory** in every run whose write-backs are
complete: for every initial memory, every sequence of held requests and
instruction reads and every response delay, each load returns the latest
bytes stored.
-/
theorem hierarchy_refines {c c' : Cache} (hL1 : c.IsReset) (hL2 : c'.IsReset)
    (m : LineMem) (is : List Drive)
    (hLegal : machine.Legal (boot c c' m) is)
    (hFull : machine.Always evictsInFull (boot c c' m) is) :
    LaneMemory.ReadsLatest (words m) (machine.events (boot c c' m) is) := by
  have hStep : ∀ h t i, Related h t →
      (machine.restrict evictsInFull).legal h i →
      (LaneMemory.flat _ _ _).Accepts t (machine.emit h i) ∧
        Related (machine.step h i)
          ((LaneMemory.flat _ _ _).after t (machine.emit h i)) := by
    rintro h _ i ⟨v, u, hJoin, rfl⟩ ⟨hLegal, hFull⟩
    obtain ⟨u', hAcc, hAfter, hNext⟩ := hJoin.step hLegal hFull
    exact ⟨hAcc, _, u', hNext, hAfter⟩
  have hRun := (machine.restrict evictsInFull).simulates _ hStep is _ _
    ⟨m, m, Joined.boot hL1 hL2 m, rfl⟩
    ((machine.restrict_legal _ _ _).2 ⟨hLegal, hFull⟩)
  rw [machine.restrict_events] at hRun
  exact (LaneMemory.accepts_iff_readsLatest _ _).1 hRun.1

/-! ## A run that loses a store -/

/-- Holding one request is legal, without instruction reads. -/
theorem legal_replicate {i : Drive}
    (hOne : ¬ (i.data.memRead = true ∧ i.data.memWrite = true))
    (hInst : i.inst.instRead = false) :
    ∀ (n : Nat) (h : Hierarchy),
      (∀ r, h.pendingData = some r → i.data = r) → h.pendingInst = none →
      machine.Legal h (List.replicate n i) := by
  intro n
  induction n with
  | zero => intro h _ _; trivial
  | succ n ih =>
      intro h hData hNone
      refine ⟨⟨hOne, hData, by simp [hNone]⟩, ih _ ?_ ?_⟩
      · intro r hPend
        simp only [machine, step] at hPend
        split at hPend
        · exact Option.some.inj hPend
        · cases hPend
      · simp [machine, step, hInst]

/-- A cycle of `lw` from an address, with a memory that answers at once. -/
def lw (a : Addr) : Drive where
  data := ⟨true, false, a, fun _ => 0#8, 0b1111#4⟩
  inst := ⟨false, 0#32, 0xFFFFFFFF#32⟩
  memResp := true

/-- A cycle of `sw` of the word `0x01010101`. -/
def sw (a : Addr) : Drive where
  data := ⟨false, true, a, fun _ => 1#8, 0b1111#4⟩
  inst := ⟨false, 0#32, 0xFFFFFFFF#32⟩
  memResp := true

/-- The power-up state over a memory of zeros. -/
def zeroed : Hierarchy :=
  boot Cache.afterReset Cache.afterReset fun _ _ => 0#8

/-- A request is held from a cycle in which none is pending. -/
theorem legal_hold {h : Hierarchy} {i : Drive} {n : Nat} {is : List Drive}
    (hOne : ¬ (i.data.memRead = true ∧ i.data.memWrite = true))
    (hInst : i.inst.instRead = false) (hData : h.pendingData.isNone = true)
    (hNone : h.pendingInst = none)
    (hRest : machine.Legal (machine.run h (List.replicate n i)) is) :
    machine.Legal h (List.replicate n i ++ is) := by
  have hHeld : ∀ r, h.pendingData = some r → i.data = r := by
    intro r hPend
    simp [hPend] at hData
  rw [machine.legal_append]
  exact ⟨legal_replicate hOne hInst n h hHeld hNone, hRest⟩

/-- `sw` to address 0, then `lw` from two other lines of its set, the second
at address `a`, then `lw` from address 0, each held until its response.  The
second `lw` evicts the stored line. -/
def evictRun (a : Addr) : List Drive :=
  List.replicate 10 (sw 0x000#32) ++ (List.replicate 10 (lw 0x100#32) ++
    (List.replicate 13 (lw a) ++ (List.replicate 13 (lw 0x000#32) ++ [])))

private theorem evictRun_legal {a : Addr} (h : a = 0x200#32 ∨ a = 0x204#32) :
    machine.Legal zeroed (evictRun a) := by
  rcases h with rfl | rfl
  all_goals
    exact legal_hold (by decide) rfl rfl rfl <|
      legal_hold (by decide) rfl (by decide +kernel) rfl <|
        legal_hold (by decide) rfl (by decide +kernel) rfl <|
          legal_hold (by decide) rfl (by decide +kernel) rfl trivial

/-- With the byte enables of word 0 the L2 cache acknowledges a write-back of
the stored word, and the last load reads it. -/
theorem hierarchy_refines_evictRun :
    ¬ machine.Always (fun h i => ¬ (h.arbiter = .dataWriteS ∧ h.l2Resp i = true))
        zeroed (evictRun 0x200#32) ∧
      LaneMemory.ReadsLatest (words fun _ _ => 0#8)
        (machine.events zeroed (evictRun 0x200#32)) :=
  ⟨by decide +kernel,
    hierarchy_refines Cache.afterReset_isReset Cache.afterReset_isReset _ _
      (evictRun_legal (Or.inl rfl)) (by decide +kernel)⟩

/-- `evictRun` with word 1 of the second line: the stored line is evicted with
the byte enables of that word. -/
def staleRun : List Drive := evictRun 0x204#32

private theorem staleRun_legal : machine.Legal zeroed staleRun :=
  evictRun_legal (Or.inr rfl)

/-- The last load of `staleRun` does not return the stored word. -/
theorem staleRun_reads_stale : machine.Legal zeroed staleRun ∧
    ¬ LaneMemory.ReadsLatest (words fun _ _ => 0#8)
      (machine.events zeroed staleRun) := by
  refine ⟨staleRun_legal, fun hReads => ?_⟩
  rw [← LaneMemory.accepts_iff_readsLatest] at hReads
  revert hReads
  decide +kernel

end Hierarchy

end CompE.Caches
