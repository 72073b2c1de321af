import CompE.Mp3.Architecture
import CompE.Caches.Hierarchy
import CompE.Prefetch.Fetching

/-!
# The processor executes its program

`mp3.sv`: the pipeline, the prefetching instruction cache, the data cache, the
arbiter and the L2 cache in front of a memory of lines.  The only input of a
cycle is the memory's response.

`processor_correct` is the end-to-end statement: whatever the response times,
the instructions that complete are those that the hart of the instruction set
executes.  The relation `Runs` joins `Commits` of the pipeline, `Joined` of
the data side and the instruction cache's `Inv`; the lines of the program stay
what they were, in the memory and in what the L2 cache shows, because the
program stores elsewhere.
-/

namespace CompE.Mp3

open CompE.Library
open CompE.Library.Rv32i (Memory wordAt wordBase portBytes storeBytes)
open CompE.Caches (LineMem LineNo WordMem Hierarchy lineNo wordNo wordLine
  wordPlace laneAt memRdata words)
open CompE.Prefetch (Icache)

/-! ## Words, lanes and bytes -/

/-- A word of the data path. -/
def ofLanes (w : Caches.Word) : Word := w 3 ++ w 2 ++ w 1 ++ w 0

/-- The byte lanes of a word. -/
def toLanes (v : Word) : Caches.Word := fun j => v.extractLsb' (8 * j) 8

/-- The lane of an address. -/
def laneOf (a : Word) : Fin 4 := ⟨(a.extractLsb' 0 2).toNat, by omega⟩

/-- A memory of words as the hart sees it. -/
def byteMemory (t : WordMem) : Memory := fun a => t (wordNo a) (laneOf a)

private theorem toNat_wordNo (a : Word) : (wordNo a).toNat = a.toNat / 4 := by
  rw [wordNo, BitVec.extractLsb'_toNat, Nat.shiftRight_eq_div_pow]
  omega

/-- An address is that of its word and its lane. -/
theorem eq_lane_iff {a b : Word} {j : Nat} (hj : j < 4) :
    b = wordBase a + BitVec.ofNat 32 j ↔
      wordNo b = wordNo a ∧ (b.extractLsb' 0 2).toNat = j := by
  have hBase := Rv32i.toNat_wordBase a
  have hOffset := Rv32i.toNat_offset b
  have hA := toNat_wordNo a
  have hB := toNat_wordNo b
  have hAdd : (wordBase a + BitVec.ofNat 32 j).toNat = a.toNat / 4 * 4 + j := by
    rw [BitVec.toNat_add, hBase, BitVec.toNat_ofNat]
    omega
  constructor
  · rintro rfl
    refine ⟨BitVec.eq_of_toNat_eq ?_, ?_⟩ <;> omega
  · intro h
    have hNo : (wordNo b).toNat = (wordNo a).toNat := congrArg _ h.1
    apply BitVec.eq_of_toNat_eq
    omega

private theorem byteMemory_lane (t : WordMem) (a : Word) (j : Fin 4) :
    byteMemory t (wordBase a + BitVec.ofNat 32 j) = t (wordNo a) j := by
  have h := (eq_lane_iff (a := a) j.isLt).1 rfl
  rw [byteMemory, h.1]
  exact congrArg _ (Fin.ext h.2)

/-- The word at an address. -/
theorem wordAt_byteMemory (t : WordMem) (a : Word) :
    wordAt (byteMemory t) a = ofLanes (t (wordNo a)) := by
  have hZero : byteMemory t (wordBase a) = t (wordNo a) 0 := by
    rw [← byteMemory_lane t a 0]
    exact congrArg _ (BitVec.add_zero _).symm
  rw [wordAt, ofLanes, hZero, ← byteMemory_lane t a 1, ← byteMemory_lane t a 2,
    ← byteMemory_lane t a 3]
  rfl

private theorem storeBytes_lanes (a v : Word) (lanes : List Nat)
    (h : ∀ j ∈ lanes, j < 4) (b : Word) : ∀ mem : Memory,
    storeBytes mem (lanes.map fun j =>
        (wordBase a + BitVec.ofNat 32 j, v.extractLsb' (8 * j) 8)) b =
      if wordNo b = wordNo a ∧ (b.extractLsb' 0 2).toNat ∈ lanes then
        toLanes v (laneOf b)
      else mem b := by
  induction lanes with
  | nil => intro mem; simp [storeBytes]
  | cons j lanes ih =>
      intro mem
      have hHere := eq_lane_iff (a := a) (b := b) (h j List.mem_cons_self)
      have hRest := ih fun j hj => h j (List.mem_cons_of_mem _ hj)
      show storeBytes (Function.update mem _ _) _ b = _
      rw [hRest, Function.update_apply]
      simp only [hHere]
      by_cases hWord : wordNo b = wordNo a
      · by_cases hLane : (b.extractLsb' 0 2).toNat = j
        · subst hLane
          simp [hWord, toLanes, laneOf]
        · simp only [hWord, hLane, List.mem_cons, true_and, false_or, if_false]
      · simp [hWord]

/-- A masked store of lanes stores the enabled bytes. -/
theorem byteMemory_store (t : WordMem) (a v : Word) (mask : BitVec 4) :
    byteMemory (LaneMemory.store t (wordNo a) (fun j => mask.getLsbD j)
        (toLanes v)) =
      storeBytes (byteMemory t) (portBytes a mask v) := by
  funext b
  have hLanes : ∀ j ∈ (List.range 4).filter mask.getLsbD, j < 4 := by
    intro j hj
    exact List.mem_range.1 (List.mem_filter.1 hj).1
  rw [portBytes, storeBytes_lanes a v _ hLanes, byteMemory, byteMemory]
  by_cases hWord : wordNo b = wordNo a
  · have hLane : (b.extractLsb' 0 2).toNat ∈
        (List.range 4).filter mask.getLsbD ↔ mask.getLsbD (laneOf b) = true := by
      rw [List.mem_filter, List.mem_range]
      exact and_iff_right (laneOf b).isLt
    rw [hWord, LaneMemory.store_self, LaneMemory.merge_apply]
    simp only [hLane, true_and]
  · rw [LaneMemory.store_of_ne _ _ _ hWord, if_neg fun h => hWord h.1]

/-! ## Lines -/

private theorem byteMemory_words (u : LineMem) (l : LineNo) (i : Fin 32) :
    byteMemory (words u) (l ++ BitVec.ofNat 5 i) = u l i := by
  obtain ⟨hLine, hPlace⟩ := Caches.eq_wordNo_iff.1
    (rfl : wordNo (l ++ BitVec.ofNat 5 i) = wordNo (l ++ BitVec.ofNat 5 i))
  have hHere : lineNo (l ++ BitVec.ofNat 5 i) = l :=
    BitVec.extractLsb'_append_eq_left
  rw [byteMemory, words, hLine, hPlace, hHere]
  refine congrArg _ (Fin.ext ?_)
  have hAddr : (l ++ BitVec.ofNat 5 i).toNat = l.toNat * 32 + i := by
    rw [BitVec.toNat_append, BitVec.toNat_ofNat, Nat.shiftLeft_eq,
      Nat.mod_eq_of_lt (by omega), Nat.mul_comm]
    exact Nat.two_pow_add_eq_or_of_lt (by omega) _ |>.symm
  have hPlaceNat : (Caches.wordOffset (l ++ BitVec.ofNat 5 i)).toNat = i / 4 := by
    rw [Caches.wordOffset, BitVec.extractLsb'_toNat, hAddr,
      Nat.shiftRight_eq_div_pow]
    omega
  have hLane : ((l ++ BitVec.ofNat 5 i).extractLsb' 0 2).toNat = i % 4 := by
    rw [Rv32i.toNat_offset, hAddr]
    omega
  show 4 * (Caches.wordOffset _).toNat + _ = _
  rw [hPlaceNat, laneOf]
  show 4 * (i.val / 4) + BitVec.toNat _ = _
  rw [hLane]
  omega

/-- Lines with the same bytes. -/
theorem line_eq_of_bytes {u m : LineMem} {l : LineNo}
    (h : ∀ a, lineNo a = l → byteMemory (words u) a = byteMemory (words m) a) :
    u l = m l := by
  funext i
  have hByte := h (l ++ BitVec.ofNat 5 i) BitVec.extractLsb'_append_eq_left
  rwa [byteMemory_words, byteMemory_words] at hByte

/-- What is written back to a line is what the cache shows of it. -/
theorem memAfter_cases {c : Caches.Cache} {r : Caches.Request} {m u : LineMem}
    (h : Caches.Shows c r.memAddress m u) (resp : Bool) (l : LineNo) :
    c.memAfter r resp m l = m l ∨ c.memAfter r resp m l = u l := by
  rw [Caches.Cache.memAfter, Caches.Cache.pmemWrite_eq]
  split
  · rename_i hWrite
    rw [Bool.and_eq_true, decide_eq_true_eq] at hWrite
    by_cases hLine : l = lineNo (c.pmemAddress r)
    · right
      obtain ⟨hTag, hData⟩ := h.inv.victim hWrite.1
      have hVictim := hLine
      rw [Caches.Cache.lineNo_pmemAddress_sEvict hWrite.1, Caches.eq_lineAt_iff,
        hTag] at hVictim
      have hHolds : c.holds r.memAddress c.lru.dataout l = true := by
        rw [Caches.Cache.holds, Caches.Cache.live_sEvict hWrite.1, hVictim.1,
          hVictim.2]
        simp
      rw [h.view, Caches.Cache.view_of_holds h.inv hHolds, hLine,
        LaneMemory.store_self, LaneMemory.merge_true, Caches.Cache.pmemWdata,
        hData, ← hLine, hVictim.2]
    · exact Or.inl (LaneMemory.store_of_ne _ _ _ hLine)
  · exact Or.inl rfl

/-! ## The processor -/

/-- `mp3.sv`.  `data` is the data cache, the arbiter, the L2 cache and the
memory. -/
structure Processor where
  pipe : Tracked
  inst : Icache
  data : Hierarchy

namespace Processor

open Tracked (operandsKept)

/-- The CPU's instruction port: `inst_read` is always on. -/
def fetch (p : Processor) : Prefetch.Fetch := ⟨true, p.pipe.cpu.pc⟩

/-- The instruction cache's side of the arbiter, when `inst_resp` is `resp`:
the cache drops `pmem_read` in the cycle of the response. -/
def instPort (p : Processor) (resp : Bool) : Caches.InstPort where
  instRead := p.inst.pmemRead p.fetch resp
  instAddr := p.inst.pmemAddress p.fetch resp
  instByteEnable256 := 0xFFFFFFFF#32

/-- The CPU's data port. -/
def dataPort (p : Processor) : Caches.DataRequest where
  memRead := p.pipe.cpu.request.memRead
  memWrite := p.pipe.cpu.request.memWrite
  memAddress := p.pipe.cpu.request.memAddr
  memWdata := toLanes p.pipe.cpu.request.memWdata
  memByteEnable := p.pipe.cpu.request.memByteEnable

/-- The wires of a cycle, when `inst_resp` is `resp`. -/
def wires (p : Processor) (memResp resp : Bool) : Caches.Drive :=
  ⟨p.dataPort, p.instPort resp, memResp⟩

/-- `inst_resp` of the arbiter. -/
def arbiterResp (p : Processor) (i : Caches.Drive) : Bool :=
  p.data.arbiter.instResp (p.data.l2Resp i)

/-- What `inst_resp` settles to; see `arbiterResp_wires`. -/
def instResp (p : Processor) (memResp : Bool) : Bool :=
  p.arbiterResp (p.wires memResp false)

/-- The wires of a cycle. -/
def drive (p : Processor) (memResp : Bool) : Caches.Drive :=
  p.wires memResp (p.instResp memResp)

/-- The line that the instruction cache receives. -/
def instRdata (p : Processor) (memResp : Bool) : Caches.Line :=
  p.data.arbiter.instRdata (p.data.l2Line (p.drive memResp))

/-- The CPU's inputs. -/
def ports (p : Processor) (memResp : Bool) : Ports :=
  let i := p.drive memResp
  { instResp := p.inst.memResp p.fetch (p.instResp memResp)
    instRdata := ofLanes (memRdata (p.inst.memRdata256 p.fetch
      (p.instResp memResp) (p.instRdata memResp)) p.fetch.memAddress)
    dataResp := p.data.l1.memResp i.data.line
    dataRdata := ofLanes (memRdata (p.data.l1.memRdata256 i.data.line
      (p.data.l1Resp i) (p.data.l1Rdata i)) i.data.memAddress) }

def step (x : Floating) (p : Processor) (memResp : Bool) : Processor where
  pipe := p.pipe.step x (p.ports memResp)
  inst := p.inst.clock p.fetch (p.instResp memResp) (p.instRdata memResp)
  data := p.data.step (p.drive memResp)

/-- The instruction that completes in `MEM`. -/
def completing (p : Processor) (memResp : Bool) : List Word :=
  if p.pipe.cpu.stageRegLoad (p.ports memResp) && p.pipe.exLive then
    [p.pipe.cpu.stageEX.pcReg]
  else []

/-- The processor in front of a memory that answers at any time. -/
def machine (x : Floating) : Machine Processor Bool Word where
  step := step x
  emit := completing
  legal _ _ := True

/-- Power-up. -/
def boot (c : Cpu) (inst : Icache) (l1 l2 : Caches.Cache) (m : LineMem) :
    Processor :=
  ⟨Tracked.boot c, inst, Hierarchy.boot l1 l2 m⟩

/-- The program in a memory. -/
def program (m : LineMem) (a : Word) : Word := ofLanes (words m (wordNo a))

/-- The memory that the caches show. -/
def Shows (p : Processor) (mem : Memory) : Prop :=
  ∃ a a', mem = byteMemory (words (p.data.l1.view a
    (p.data.l2.view a' p.data.mem)))

/-! ## What a run needs -/

/-- The instruction cache reads lines of `code` only, write-backs are complete
and no load-use stall loses an operand. -/
def avoidsHazards (code : LineNo → Bool) (p : Processor) (memResp : Bool) :
    Prop :=
  (p.instResp memResp = true →
    code (lineNo (p.inst.pmemAddress p.fetch true)) = true) ∧
    Hierarchy.evictsInFull p.data (p.drive memResp) ∧
    operandsKept p.pipe (p.ports memResp)

instance decidableAvoidsHazards (code : LineNo → Bool) (p : Processor)
    (memResp : Bool) : Decidable (avoidsHazards code p memResp) :=
  inferInstanceAs (Decidable ((_ → _ = _) ∧ _ ∧ _))

/-- The hart's instruction stores to no line of `code`. -/
def SparesCode (code : LineNo → Bool) (s : Rv32i.State) : Prop :=
  ∀ i ∈ Rv32i.decode (wordAt s.mem s.pc), ∀ b ∈
    (Rv32i.exec i s.regs s.pc s.mem).access.stored, code (lineNo b.1) = false

/-- Decided by going over the stores, not over all addresses. -/
instance decidableSparesCode (code : LineNo → Bool) (s : Rv32i.State) :
    Decidable (SparesCode code s) :=
  @Option.decidableForallMem _ _ (fun _ => List.decidableBAll _ _) _

/-! ## The wires -/

section Wires

variable (p : Processor) (memResp : Bool)

/-- The address does not depend on the response. -/
theorem pmemAddress_resp (resp : Bool) :
    p.inst.pmemAddress p.fetch resp = p.inst.pmemAddress p.fetch false := by
  cases resp with
  | false => rfl
  | true =>
      cases hState : p.inst.state <;>
        simp [Prefetch.Icache.pmemAddress, Prefetch.Icache.controls,
          Prefetch.stateActions, Prefetch.setDefaults, hState]

private theorem l2Request_wires (resp : Bool) :
    p.data.l2Request (p.wires memResp resp) =
      p.data.l2Request (p.wires memResp false) := by
  have hAddr := p.pmemAddress_resp resp
  rw [Hierarchy.l2Request, Hierarchy.l2Request]
  cases p.data.arbiter with
  | instReadS => simp only [Caches.ArbiterState.memRequest, wires, instPort, hAddr]
  | idleS | dataReadS | dataWriteS | doneIR | doneDR | doneDW => rfl

/-- The combinational loop through `inst_resp` has one solution. -/
theorem arbiterResp_wires (resp : Bool) :
    p.arbiterResp (p.wires memResp resp) = p.instResp memResp := by
  rw [instResp, arbiterResp, arbiterResp, Hierarchy.l2Resp, Hierarchy.l2Resp,
    p.l2Request_wires memResp resp]

/-- The cycle is one in which the instruction cache holds its request. -/
theorem step_drive :
    p.data.step (p.drive memResp) = p.data.step (p.wires memResp false) := by
  have hRequest := p.l2Request_wires memResp (p.instResp memResp)
  have hArbiter := p.arbiterResp_wires memResp false
  cases hResp : p.instResp memResp with
  | false => rw [drive, hResp]
  | true =>
      rw [hResp] at hRequest hArbiter
      rw [drive, hResp]
      have hL2 : p.data.l2Resp (p.wires memResp true) =
          p.data.l2Resp (p.wires memResp false) := by
        rw [Hierarchy.l2Resp, hRequest, Hierarchy.l2Resp]
      have hServes : p.data.arbiter = .instReadS ∧
          p.data.l2Resp (p.wires memResp false) = true := by
        rw [arbiterResp] at hArbiter
        cases hState : p.data.arbiter <;>
          simp_all [Caches.ArbiterState.instResp]
      simp only [Hierarchy.step, Hierarchy.l1Resp, Hierarchy.l1Rdata,
        Hierarchy.l2Line, Hierarchy.l2Rdata, hRequest, hL2, hServes,
        Caches.ArbiterState.next, Caches.ArbiterState.instResp]
      simp [wires]

private theorem evictsInFull_drive
    (h : Hierarchy.evictsInFull p.data (p.drive memResp)) :
    Hierarchy.evictsInFull p.data (p.wires memResp false) := by
  have hRequest := p.l2Request_wires memResp (p.instResp memResp)
  rw [Hierarchy.evictsInFull, Hierarchy.l2Resp] at h ⊢
  rw [← hRequest]
  exact h

/-- The line that the instruction cache receives is the L2 cache's. -/
theorem instRdata_of_instResp (h : p.instResp memResp = true) :
    p.data.arbiter = .instReadS ∧
      p.data.l2Resp (p.wires memResp false) = true ∧
        p.instRdata memResp = p.data.l2Line (p.wires memResp false) := by
  have hRequest := p.l2Request_wires memResp (p.instResp memResp)
  have hLine : p.data.l2Line (p.drive memResp) =
      p.data.l2Line (p.wires memResp false) := by
    rw [drive, Hierarchy.l2Line, Hierarchy.l2Rdata, hRequest]
    rfl
  rw [instResp, arbiterResp] at h
  cases hState : p.data.arbiter with
  | instReadS =>
      rw [hState] at h
      exact ⟨rfl, h, by rw [instRdata, hState, hLine]; rfl⟩
  | idleS | dataReadS | dataWriteS | doneIR | doneDR | doneDW =>
      rw [hState] at h
      cases h

end Wires

/-! ## The two sides of the memory -/

/-- The caches of a processor: the L2 cache shows `v` and the data cache `u`,
the instruction cache holds lines of `m`, and pending requests are the ones
that are driven. -/
structure Linked (m : LineMem) (p : Processor) (v u : LineMem) : Prop where
  joined : Hierarchy.Joined p.data v u
  inst : Prefetch.Icache.Inv p.inst m
  dataHeld : ∀ r, p.data.pendingData = some r → r = p.dataPort
  instHeld : ∀ q, p.data.pendingInst = some q → q = p.instPort false

theorem Linked.boot {c : Cpu} {inst : Icache} {l1 l2 : Caches.Cache}
    (hInst : inst.IsReset) (hL1 : l1.IsReset) (hL2 : l2.IsReset)
    (m : LineMem) : Linked m (boot c inst l1 l2 m) m m where
  joined := Hierarchy.Joined.boot hL1 hL2 m
  inst := hInst.inv m
  dataHeld := by simp [Processor.boot, Hierarchy.boot]
  instHeld := by simp [Processor.boot, Hierarchy.boot]

section Step

variable {m v u : LineMem} {p : Processor} {memResp : Bool}

theorem Linked.legal (h : Linked m p v u)
    (hOne : p.pipe.cpu.request.memRead = true →
      p.pipe.cpu.request.memWrite = false) :
    Hierarchy.legal p.data (p.wires memResp false) := by
  refine ⟨?_, ?_, ?_⟩
  · rintro ⟨hRead, hWrite⟩
    have hNot : p.pipe.cpu.request.memWrite = false := hOne hRead
    exact Bool.false_ne_true (hNot.symm.trans hWrite)
  · intro r hPend
    exact (h.dataHeld r hPend).symm
  · intro q hPend
    exact (h.instHeld q hPend).symm

/-- The instruction cache receives the line that it asked for. -/
theorem Linked.fill (h : Linked m p v u)
    (hLegal : Hierarchy.legal p.data (p.wires memResp false))
    (hResp : p.instResp memResp = true) :
    p.instRdata memResp = v (lineNo (p.inst.pmemAddress p.fetch false)) := by
  obtain ⟨hArb, hL2, hLine⟩ := p.instRdata_of_instResp memResp hResp
  obtain ⟨hShows, -⟩ := h.joined.l2Ready hLegal
  have hRequest := Hierarchy.l2Request_inst (i := p.wires memResp false) hArb
  have hView := Caches.Cache.memRdata256_of_memResp memResp
    (p.data.l2Rdata (p.wires memResp false)) hShows.inv hL2
    (by rw [hRequest]) p.data.mem
  rw [← hShows.view] at hView
  rw [hLine, Hierarchy.l2Line]
  refine hView.trans ?_
  rw [hRequest]
  rfl

/-- What the L2 cache shows of a line is what it showed, or what the data
cache shows. -/
theorem Linked.l2After_cases (h : Linked m p v u)
    (hLegal : Hierarchy.legal p.data (p.wires memResp false))
    (hFull : Hierarchy.evictsInFull p.data (p.drive memResp)) (l : LineNo) :
    p.data.l2After (p.wires memResp false) v l = v l ∨
      p.data.l2After (p.wires memResp false) v l = u l := by
  rw [h.joined.l2After_eq hLegal (p.evictsInFull_drive memResp hFull)]
  exact memAfter_cases (h.joined.l1Ready hLegal).1 _ l

/-- The instruction that the CPU receives. -/
theorem Linked.instRdata (h : Linked m p v u)
    (hFill : p.instResp memResp = true → p.instRdata memResp =
      m (lineNo (p.inst.pmemAddress p.fetch (p.instResp memResp))))
    (hResp : (p.ports memResp).instResp = true) :
    (p.ports memResp).instRdata = program m p.pipe.cpu.pc := by
  have hLine := Prefetch.Icache.memRdata256_of_memResp h.inst _
    (p.instRdata memResp) hFill hResp
  refine congrArg ofLanes ?_
  exact (congrArg (memRdata · _) hLine).trans (Caches.memRdata_line m _)

/-- The word that the CPU loads. -/
theorem Linked.dataRdata (h : Linked m p v u)
    (hLegal : Hierarchy.legal p.data (p.wires memResp false))
    (hResp : (p.ports memResp).dataResp = true)
    (hRead : p.pipe.cpu.request.memRead = true) :
    (p.ports memResp).dataRdata =
      wordAt (byteMemory (words u)) p.pipe.cpu.request.memAddr := by
  obtain ⟨hShows, -⟩ := h.joined.l1Ready hLegal
  have hNoWrite : (p.wires memResp false).data.line.memWrite = false := by
    rw [Bool.eq_false_iff]
    intro hWrite
    exact hLegal.1 ⟨hRead, hWrite⟩
  have hLine := Caches.Cache.memRdata256_of_memResp
    (p.data.l1Resp (p.drive memResp)) (p.data.l1Rdata (p.drive memResp))
    hShows.inv hResp hNoWrite v
  rw [← hShows.view] at hLine
  rw [wordAt_byteMemory, ports]
  refine congrArg ofLanes ?_
  exact (congrArg (memRdata · _) hLine).trans (Caches.memRdata_line u _)

/-- The CPU's memory after a cycle. -/
theorem after_emit (p : Processor) (memResp : Bool) (u : LineMem) :
    byteMemory ((LaneMemory.flat _ _ _).after (words u)
        (p.data.emit (p.wires memResp false))) =
      if (p.ports memResp).dataResp then
        p.pipe.cpu.request.perform (byteMemory (words u))
      else byteMemory (words u) := by
  show _ = if p.data.l1.memResp (p.wires memResp false).data.line then _ else _
  rw [Hierarchy.emit, DataRequest.perform]
  split
  · split
    · rename_i hWrite
      have hStores : p.pipe.cpu.request.memWrite = true := hWrite
      rw [if_pos hStores]
      exact byteMemory_store _ _ _ _
    · rename_i hWrite
      have hStores : ¬ p.pipe.cpu.request.memWrite = true := hWrite
      rw [if_neg hStores]
      split <;> rfl
  · rfl

/-- A request that awaits its response stays at the port. -/
theorem dataPort_held (x : Floating)
    (hWait : p.pipe.cpu.stageRegLoad (p.ports memResp) = false) :
    (p.step x memResp).dataPort = p.dataPort := by
  simp only [dataPort, step, Tracked.step, Cpu.clock_hold hWait, Cpu.request]

private theorem fetch_held (x : Floating)
    (hWait : p.pipe.cpu.stageRegLoad (p.ports memResp) = false) :
    (p.step x memResp).fetch = p.fetch := by
  simp only [fetch, step, Tracked.step, Cpu.clock_hold hWait]

/-- Without a response the instruction cache waits with its request. -/
theorem instPort_held (x : Floating) (hRead : (p.instPort false).instRead = true)
    (hResp : p.instResp memResp = false) :
    (p.step x memResp).instPort false = p.instPort false := by
  have hMiss : p.inst.memResp p.fetch false = false := by
    have hState : p.inst.pmemRead p.fetch false = true := hRead
    cases hNow : p.inst.state <;>
      simp_all [Prefetch.Icache.memResp, Prefetch.Icache.pmemRead,
        Prefetch.Icache.controls, Prefetch.stateActions, Prefetch.setDefaults]
  have hWait : p.pipe.cpu.stageRegLoad (p.ports memResp) = false := by
    have hNo : (p.ports memResp).instResp = false := by
      rw [ports, hResp]
      exact hMiss
    rw [Cpu.stageRegLoad, hNo, Bool.and_false]
  obtain ⟨hStays, hAddr⟩ := Prefetch.Icache.pmemRequest_held
    (r := p.fetch) (p.instRdata memResp) hRead
  have hCache : (p.step x memResp).inst =
      p.inst.clock p.fetch false (p.instRdata memResp) := by
    rw [step, hResp]
  rw [instPort, instPort, fetch_held x hWait, hCache, hStays, hAddr]
  rw [show p.inst.pmemRead p.fetch false = true from hRead]

/-- **One cycle of the caches.** -/
theorem Linked.step (h : Linked m p v u) (x : Floating)
    (hOne : p.pipe.cpu.request.memRead = true →
      p.pipe.cpu.request.memWrite = false)
    (hFull : Hierarchy.evictsInFull p.data (p.drive memResp))
    (hFill : p.instResp memResp = true → p.instRdata memResp =
      m (lineNo (p.inst.pmemAddress p.fetch (p.instResp memResp)))) :
    ∃ u', Linked m (p.step x memResp)
        (p.data.l2After (p.wires memResp false) v) u' ∧
      byteMemory (words u') =
        if (p.ports memResp).dataResp then
          p.pipe.cpu.request.perform (byteMemory (words u))
        else byteMemory (words u) := by
  have hLegal : Hierarchy.legal p.data (p.wires memResp false) := h.legal hOne
  obtain ⟨u', -, hAfter, hJoined⟩ :=
    h.joined.step hLegal (p.evictsInFull_drive memResp hFull)
  have hData : (p.step x memResp).data =
      p.data.step (p.wires memResp false) := p.step_drive memResp
  refine ⟨u', ⟨?_, ?_, ?_, ?_⟩, ?_⟩
  · rw [hData]
    exact hJoined
  · exact h.inst.clock _ _ hFill
  · intro r hPend
    rw [hData] at hPend
    simp only [Hierarchy.step] at hPend
    split at hPend
    · rename_i hWaits
      rw [Bool.and_eq_true, Bool.not_eq_true'] at hWaits
      have hWait : p.pipe.cpu.stageRegLoad (p.ports memResp) = false := by
        have hActive : (p.pipe.cpu.request.memRead ||
          p.pipe.cpu.request.memWrite) = true := hWaits.1
        have hNo : (p.ports memResp).dataResp = false := hWaits.2
        rw [Cpu.stageRegLoad, hActive, hNo]
        rfl
      rw [dataPort_held x hWait]
      exact (Option.some.inj hPend).symm
    · cases hPend
  · intro q hPend
    rw [hData] at hPend
    simp only [Hierarchy.step] at hPend
    split at hPend
    · rename_i hWaits
      rw [Bool.and_eq_true, Bool.not_eq_true'] at hWaits
      rw [instPort_held x hWaits.1 hWaits.2]
      exact (Option.some.inj hPend).symm
    · cases hPend
  · rw [← hAfter]
    exact after_emit p memResp u

end Step

/-! ## The processor and the hart -/

/-- The bytes of the program stay where they are. -/
theorem SparesCode.mem {code : LineNo → Bool} {s s' : Rv32i.State}
    (h : SparesCode code s) (hStep : s.step = some s') {a : Word}
    (hCode : code (lineNo a) = true) : s'.mem a = s.mem a := by
  rw [Rv32i.State.step, Option.map_eq_some_iff] at hStep
  obtain ⟨i, hDecode, rfl⟩ := hStep
  refine Rv32i.State.apply_mem_of_ne (fun b hb hHere => ?_) s
  have hOutside := h i hDecode b hb
  rw [hHere, hCode] at hOutside
  cases hOutside

/-- The processor between two completions, and the hart between two steps. -/
structure Runs (x : Floating) (m : LineMem) (code : LineNo → Bool)
    (p : Processor) (s : Rv32i.State) (v u : LineMem) : Prop where
  linked : Linked m p v u
  commits : WithMemory.Commits x (program m) ⟨p.pipe, byteMemory (words u)⟩ s
  /-- The program is what it was, behind the data cache and for the hart. -/
  kept : ∀ l, code l = true → v l = m l
  spared : ∀ a, code (lineNo a) = true → s.mem a = byteMemory (words m) a

theorem Runs.boot {c : Cpu} {inst : Icache} {l1 l2 : Caches.Cache}
    (hReset : c.IsReset) (hInst : inst.IsReset) (hL1 : l1.IsReset)
    (hL2 : l2.IsReset) (x : Floating) (m : LineMem) (code : LineNo → Bool) :
    Runs x m code (boot c inst l1 l2 m)
      ⟨c.regfile, 0x60#32, byteMemory (words m)⟩ m m where
  linked := Linked.boot hInst hL1 hL2 m
  commits := WithMemory.Commits.boot hReset x (program m) (byteMemory (words m))
  kept := fun _ _ => rfl
  spared := fun _ _ => rfl

section Hart

variable {x : Floating} {m v u : LineMem} {code : LineNo → Bool}
  {p : Processor} {s : Rv32i.State} {memResp : Bool}

theorem Runs.exclusive (h : Runs x m code p s v u)
    (hRead : p.pipe.cpu.request.memRead = true) :
    p.pipe.cpu.request.memWrite = false := by
  cases hLive : p.pipe.exLive with
  | true => exact h.commits.exclusive hLive hRead
  | false =>
      have hIdle : p.pipe.cpu.stageEX.controlWord.memRead = false :=
        (h.commits.shape.exEmpty hLive).memRead
      exact absurd (hIdle.symm.trans hRead) (by simp)

/-- The data cache shows the program as it was. -/
theorem Runs.code_kept (h : Runs x m code p s v u)
    (hSupported : Supported (program m) s) (hSpares : SparesCode code s)
    {l : LineNo} (hCode : code l = true) : u l = m l := by
  refine line_eq_of_bytes fun a hLine => ?_
  have hHere : code (lineNo a) = true := by rw [hLine, hCode]
  rcases h.commits.mem hSupported with hMem | ⟨s', hStep, hMem⟩
  · rw [← h.spared a hHere]
    exact congrFun hMem a
  · rw [← h.spared a hHere, ← hSpares.mem hStep hHere]
    exact congrFun hMem a

/-- Each line that the instruction cache receives is the memory's first. -/
theorem Runs.fill (h : Runs x m code p s v u)
    (hAvoids : avoidsHazards code p memResp)
    (hResp : p.instResp memResp = true) :
    p.instRdata memResp =
      m (lineNo (p.inst.pmemAddress p.fetch (p.instResp memResp))) := by
  have hCode := hAvoids.1 hResp
  rw [p.pmemAddress_resp] at hCode ⊢
  rw [← h.kept _ hCode]
  exact h.linked.fill (h.linked.legal h.exclusive) hResp

/-- The cycle is one of the pipeline in front of its memory. -/
theorem Runs.executing_legal (h : Runs x m code p s v u)
    (hAvoids : avoidsHazards code p memResp) :
    (WithMemory.executing x (program m)).legal
      ⟨p.pipe, byteMemory (words u)⟩ (p.ports memResp) := by
  constructor
  · exact h.linked.instRdata (h.fill hAvoids)
  · exact h.linked.dataRdata (h.linked.legal h.exclusive)

/-- **One cycle**: the hart stays, or steps where an instruction completes. -/
theorem Runs.step (h : Runs x m code p s v u)
    (hAvoids : avoidsHazards code p memResp)
    (hSupported : Supported (program m) s) (hSpares : SparesCode code s) :
    (p.completing memResp = [] ∧
        ∃ v' u', Runs x m code (p.step x memResp) s v' u') ∨
      (p.completing memResp = [s.pc] ∧
        ∃ s' ∈ s.step, ∃ v' u', Runs x m code (p.step x memResp) s' v' u') := by
  obtain ⟨u', hLinked, hMem⟩ :=
    h.linked.step x h.exclusive hAvoids.2.1 (h.fill hAvoids)
  have hStep : (⟨p.pipe, byteMemory (words u)⟩ : WithMemory).step x
      (p.ports memResp) = ⟨(p.step x memResp).pipe, byteMemory (words u')⟩ := by
    rw [hMem]
    rfl
  have hKept : ∀ l, code l = true →
      p.data.l2After (p.wires memResp false) v l = m l := by
    intro l hCode
    rcases h.linked.l2After_cases (h.linked.legal h.exclusive) hAvoids.2.1 l
      with hSame | hBack
    · rw [hSame, h.kept l hCode]
    · rw [hBack, h.code_kept hSupported hSpares hCode]
  have hCommits := h.commits.step (h.executing_legal hAvoids) hAvoids.2.2
    hSupported
  rw [hStep] at hCommits
  rcases hCommits with ⟨hNone, hNext⟩ | ⟨hOne, s', hStepped, hNext⟩
  · exact Or.inl ⟨hNone, _, u', hLinked, hNext, hKept, h.spared⟩
  · refine Or.inr ⟨hOne, s', hStepped, _, u', hLinked, hNext, hKept, ?_⟩
    intro a hCode
    rw [hSpares.mem hStepped hCode, h.spared a hCode]

theorem Runs.shows (h : Runs x m code p s v u) :
    p.Shows (byteMemory (words u)) := by
  obtain ⟨a, hL1⟩ := h.linked.joined.l1
  obtain ⟨a', hL2⟩ := h.linked.joined.l2
  exact ⟨a, a', by rw [← hL2.view, ← hL1.view]⟩

end Hart

/-! ## The result -/

/-- A run of the processor is as many steps of the hart as instructions have
completed. -/
theorem Runs.run (x : Floating) (m : LineMem) (code : LineNo → Bool)
    (is : List Bool) :
    ∀ (p : Processor) (s : Rv32i.State) (v u : LineMem),
      Runs x m code p s v u →
      (machine x).Always (avoidsHazards code) p is →
      (∀ n ≤ ((machine x).events p is).length, ∀ s' ∈ s.run n,
        Supported (program m) s' ∧ SparesCode code s') →
      (machine x).events p is = s.pcs ((machine x).events p is).length ∧
        ∃ s' ∈ s.run ((machine x).events p is).length,
          ∃ v' u', Runs x m code ((machine x).run p is) s' v' u' := by
  induction is with
  | nil =>
      intro p s v u h _ _
      exact ⟨rfl, s, rfl, v, u, h⟩
  | cons i is ih =>
      intro p s v u h hAvoids hProgram
      have hEvents : (machine x).events p (i :: is) =
          p.completing i ++ (machine x).events (p.step x i) is := rfl
      obtain ⟨hSupported, hSpares⟩ := hProgram 0 (Nat.zero_le _) s rfl
      rw [hEvents] at hProgram ⊢
      rcases h.step hAvoids.1 hSupported hSpares with
        ⟨hNone, v', u', hNext⟩ | ⟨hOne, s', hStep, v', u', hNext⟩
      · rw [hNone] at hProgram ⊢
        exact ih _ s v' u' hNext hAvoids.2 hProgram
      · have hStep' : s.step = some s' := hStep
        rw [hOne] at hProgram ⊢
        have hRest : ∀ n ≤ ((machine x).events (p.step x i) is).length,
            ∀ s'' ∈ s'.run n, Supported (program m) s'' ∧ SparesCode code s'' := by
          intro n hn s'' hRun
          refine hProgram (n + 1) (Nat.succ_le_succ hn) s'' ?_
          rw [Rv32i.State.run, hStep']
          exact hRun
        obtain ⟨hPcs, s'', hRun, hEnd⟩ :=
          ih _ s' v' u' hNext hAvoids.2 hRest
        rw [List.singleton_append, List.length_cons, Rv32i.State.pcs,
          Rv32i.State.run, hStep']
        exact ⟨congrArg _ hPcs, s'', hRun, hEnd⟩

/--
**The processor executes its program.**  From reset, for every content of the
memory and every pattern of its responses: if the instructions that the hart
executes are supported and store outside the lines of `code`, the instruction
cache reads lines of `code` only, and neither of the known hazards occurs, then
the instructions that complete are the hart's, in its order; after as many
steps the hart has the registers that the register file will hold after the
next clock edge, and the caches show its memory, or that with its next store.
-/
theorem processor_correct (x : Floating) {c : Cpu} {inst : Icache}
    {l1 l2 : Caches.Cache} (hReset : c.IsReset) (hInst : inst.IsReset)
    (hL1 : l1.IsReset) (hL2 : l2.IsReset) (m : LineMem) (code : LineNo → Bool)
    (is : List Bool)
    (hAvoids : (machine x).Always (avoidsHazards code) (boot c inst l1 l2 m)
      is) :
    let hart : Rv32i.State := ⟨c.regfile, 0x60#32, byteMemory (words m)⟩
    let completed := (machine x).events (boot c inst l1 l2 m) is
    let p := (machine x).run (boot c inst l1 l2 m) is
    (∀ n ≤ completed.length, ∀ s ∈ hart.run n,
        Supported (program m) s ∧ SparesCode code s) →
      completed = hart.pcs completed.length ∧
        ∃ s ∈ hart.run completed.length,
          p.pipe.cpu.regfileNext = s.regs ∧
            ∃ mem, p.Shows mem ∧
              (mem = s.mem ∨ ∃ s' ∈ s.step, mem = s'.mem) := by
  intro hart completed p hProgram
  obtain ⟨hPcs, s, hRun, v, u, hEnd⟩ := Runs.run x m code is _ hart m m
    (Runs.boot hReset hInst hL1 hL2 x m code) hAvoids hProgram
  have hHere := hProgram _ (Nat.le_refl _) s hRun
  refine ⟨hPcs, s, hRun, ?_, _, hEnd.shows, hEnd.commits.mem hHere.1⟩
  obtain ⟨q, hTracks, hRegs⟩ := hEnd.commits.tracks
  exact hTracks.regs.symm.trans hRegs

/-- A memory that holds `loopProgram`. -/
def loopMemory : LineMem := fun l i =>
  WithMemory.programMemory WithMemory.loopProgram (l ++ BitVec.ofNat 5 i)

/-- The processor behind its reset. -/
def looping : Processor :=
  boot Cpu.afterReset Icache.afterReset Caches.Cache.afterReset
    Caches.Cache.afterReset loopMemory

/-- `loopProgram` for two rounds, with a memory that is slow at first. -/
theorem processor_correct_loopProgram :
    let responses := List.replicate 8 false ++ List.replicate 40 true
    let hart : Rv32i.State :=
      ⟨Cpu.afterReset.regfile, 0x60#32, byteMemory (words loopMemory)⟩
    let completed := (machine ⟨.zero, .zero⟩).events looping responses
    let p := (machine ⟨.zero, .zero⟩).run looping responses
    completed = hart.pcs completed.length ∧
      ∃ s ∈ hart.run completed.length,
        p.pipe.cpu.regfileNext = s.regs ∧
          ∃ mem, p.Shows mem ∧
            (mem = s.mem ∨ ∃ s' ∈ s.step, mem = s'.mem) :=
  processor_correct ⟨.zero, .zero⟩ Cpu.afterReset_isReset
    Icache.afterReset_isReset Caches.Cache.afterReset_isReset
    Caches.Cache.afterReset_isReset loopMemory (fun l => l != 0#27)
    (List.replicate 8 false ++ List.replicate 40 true) (by decide +kernel)
    (by decide +kernel)

/-- In these cycles 13 instructions complete. -/
example : ((machine ⟨.zero, .zero⟩).events looping
    (List.replicate 8 false ++ List.replicate 40 true)).length = 13 := by
  decide +kernel

end Processor

end CompE.Mp3
