import CompE.Caches.Datapath

/-!
# `bus_adapter` and `cache_arbiter`

`bus_adapter` sits between the CPU's 32-bit port and the 256-bit line of the
L1 data cache: it replicates the written word over the line and moves the
four byte enables to the addressed word.  `cache_arbiter` shares the L2 cache
between the instruction cache and the data cache.

A word is its four byte lanes, as a line is its 32.
-/

namespace CompE.Caches

open CompE.Library

/-! ## `bus_adapter` -/

/-- A 32-bit word as its byte lanes. -/
abbrev Word := Fin 4 → BitVec 8

/-- A word address, `mem_address[31:2]`. -/
abbrev WordNo := BitVec 30

/-- A memory of words. -/
abbrev WordMem := LaneMemory.Content WordNo (Fin 4) (BitVec 8)

def wordNo (a : Addr) : WordNo := a.extractLsb' 2 30

/-- `address[4:2]`, the word within the line. -/
def wordOffset (a : Addr) : BitVec 3 := a.extractLsb' 2 3

/-- Byte `i` of word `o` of a line. -/
def laneAt (o : BitVec 3) (i : Fin 4) : Fin 32 :=
  ⟨4 * o.toNat + i, by omega⟩

/-- `mem_wdata256 = {8{mem_wdata}}`. -/
def memWdata256 (w : Word) : Line := fun i => w ⟨i % 4, by omega⟩

/-- `mem_rdata = mem_rdata256[32*address[4:2] +: 32]`. -/
def memRdata (d : Line) (a : Addr) : Word := fun i => d (laneAt (wordOffset a) i)

/-- `mem_byte_enable256 = {28'h0, mem_byte_enable} << (address[4:2]*4)`. -/
def memByteEnable256 (mbe : BitVec 4) (a : Addr) : BitVec 32 :=
  (0#28 ++ mbe) <<< ((wordOffset a).toNat * 4)

@[simp] theorem memWdata256_laneAt (w : Word) (o : BitVec 3) (i : Fin 4) :
    memWdata256 w (laneAt o i) = w i := by
  simp only [memWdata256, laneAt]
  congr 1
  apply Fin.ext
  simp only
  omega

/-- The enables select bytes of the addressed word only. -/
theorem lanes_memByteEnable256 (mbe : BitVec 4) (a : Addr) (o : BitVec 3)
    (i : Fin 4) : lanes (memByteEnable256 mbe a) (laneAt o i) =
      (decide (o = wordOffset a) && mbe.getLsbD i) := by
  have hRange : 4 * o.toNat + i.val < 32 := by omega
  simp only [lanes, laneAt, memByteEnable256, BitVec.getLsbD_shiftLeft,
    BitVec.getLsbD_append, BitVec.getLsbD_zero, hRange, decide_true,
    Bool.true_and]
  by_cases ho : o = wordOffset a
  · subst ho
    have hLow : ¬ 4 * (wordOffset a).toNat + i.val <
        (wordOffset a).toNat * 4 := by omega
    have hBit : 4 * (wordOffset a).toNat + i.val -
        (wordOffset a).toNat * 4 = i.val := by omega
    simp [hLow, hBit]
  · have hNe : o.toNat ≠ (wordOffset a).toNat := fun h =>
      ho (BitVec.eq_of_toNat_eq h)
    by_cases hLow : 4 * o.toNat + i.val < (wordOffset a).toNat * 4
    · simp [hLow, ho]
    · have hHigh : ¬ 4 * o.toNat + i.val - (wordOffset a).toNat * 4 < 4 := by
        omega
      simp [hHigh, ho]

/-! ## Lines and words -/

/-- The line a word lies in, and its place there. -/
def wordLine (k : WordNo) : LineNo := k.extractLsb' 3 27

def wordPlace (k : WordNo) : BitVec 3 := k.extractLsb' 0 3

theorem eq_wordNo_iff {k : WordNo} {a : Addr} :
    k = wordNo a ↔ wordLine k = lineNo a ∧ wordPlace k = wordOffset a := by
  have hSplit : k = wordLine k ++ wordPlace k :=
    (@BitVec.extractLsb'_append_extractLsb' 27 3 k).symm
  have hAddr : wordNo a = lineNo a ++ wordOffset a := by
    have h : (5 : Nat) = 2 + 3 := rfl
    exact (BitVec.extractLsb'_append_extractLsb'_eq_extractLsb' h).symm
  rw [hAddr]
  constructor
  · rintro rfl
    exact ⟨BitVec.extractLsb'_append_eq_left,
      BitVec.extractLsb'_append_eq_right⟩
  · rintro ⟨hLine, hPlace⟩
    rw [hSplit, hLine, hPlace]

/-- A memory of lines as a memory of words. -/
def words (m : LineMem) : WordMem := fun k i => m (wordLine k) (laneAt (wordPlace k) i)

/-- The word the CPU receives. -/
theorem memRdata_line (m : LineMem) (a : Addr) :
    memRdata (m (lineNo a)) a = words m (wordNo a) := by
  obtain ⟨hLine, hPlace⟩ := eq_wordNo_iff.1 (rfl : wordNo a = wordNo a)
  funext i
  rw [memRdata, words, hLine, hPlace]

/-- The adapter turns a masked word store into a masked line store. -/
theorem words_store (m : LineMem) (a : Addr) (mbe : BitVec 4) (w : Word) :
    words (LaneMemory.store m (lineNo a) (lanes (memByteEnable256 mbe a))
        (memWdata256 w)) =
      LaneMemory.store (words m) (wordNo a) (fun i => mbe.getLsbD i) w := by
  funext k
  by_cases hk : k = wordNo a
  · obtain ⟨hLine, hPlace⟩ := eq_wordNo_iff.1 hk
    rw [hk, LaneMemory.store_self, ← hk]
    funext i
    rw [words, hLine, LaneMemory.store_self, LaneMemory.merge_apply,
      LaneMemory.merge_apply, lanes_memByteEnable256, hPlace,
      memWdata256_laneAt, words, hLine, hPlace]
    simp
  · rw [LaneMemory.store_of_ne _ _ _ hk]
    funext i
    by_cases hLine : wordLine k = lineNo a
    · have hPlace : wordPlace k ≠ wordOffset a := fun h =>
        hk (eq_wordNo_iff.2 ⟨hLine, h⟩)
      rw [words, hLine, LaneMemory.store_self, LaneMemory.merge_apply,
        lanes_memByteEnable256, words, hLine]
      simp [hPlace]
    · rw [words, LaneMemory.store_of_ne _ _ _ hLine, words]

/-! ## `cache_arbiter` -/

/-- The states of `cache_arbiter`.  The three `done` states are declared by
the source and never entered. -/
inductive ArbiterState where
  | idleS
  | instReadS
  | dataReadS
  | dataWriteS
  | doneIR
  | doneDR
  | doneDW
  deriving DecidableEq, Repr

/-- The instruction cache's side of the arbiter. -/
structure InstPort where
  instRead : Bool
  instAddr : Addr
  instByteEnable256 : BitVec 32

/-- The data cache's side of the arbiter. -/
structure DataPort where
  dataRead : Bool
  dataWrite : Bool
  dataAddr : Addr
  dataWdata : Line
  dataByteEnable256 : BitVec 32

namespace ArbiterState

/-- The state transition of `cache_arbiter`. -/
def next (st : ArbiterState) (inst : InstPort) (data : DataPort)
    (memResp : Bool) : ArbiterState :=
  match st with
  | .idleS =>
      if inst.instRead then .instReadS
      else if data.dataRead then .dataReadS
      else if data.dataWrite then .dataWriteS
      else .idleS
  | .instReadS | .dataReadS | .dataWriteS => if memResp then .idleS else st
  | .doneIR | .doneDR | .doneDW => st

/-- The client a serving state belongs to asks for service. -/
def asks (inst : InstPort) (data : DataPort) : ArbiterState → Bool
  | .instReadS => inst.instRead
  | .dataReadS => data.dataRead
  | .dataWriteS => data.dataWrite
  | .idleS | .doneIR | .doneDR | .doneDW => false

/-- A state other than idle is entered from idle on its client's demand, or
kept. -/
theorem next_busy {st st' : ArbiterState} {inst : InstPort} {data : DataPort}
    {memResp : Bool} (hNext : st.next inst data memResp = st')
    (hBusy : st' ≠ .idleS) :
    (st = .idleS ∧ st'.asks inst data = true) ∨
      (st = st' ∧ (st = .doneIR ∨ st = .doneDR ∨ st = .doneDW ∨
        memResp = false)) := by
  subst hNext
  cases st with
  | idleS =>
      left
      refine ⟨rfl, ?_⟩
      cases hInst : inst.instRead <;> cases hRead : data.dataRead <;>
        cases hWrite : data.dataWrite <;> simp_all [next, asks]
  | instReadS => cases memResp <;> simp_all [next]
  | dataReadS => cases memResp <;> simp_all [next]
  | dataWriteS => cases memResp <;> simp_all [next]
  | doneIR => simp [next]
  | doneDR => simp [next]
  | doneDW => simp [next]

/-- The arbiter goes idle, or stays idle, when it is idle or answered. -/
theorem next_idle {st : ArbiterState} {inst : InstPort} {data : DataPort}
    {memResp : Bool} (hNext : st.next inst data memResp = .idleS) :
    st = .idleS ∨ memResp = true := by
  cases st <;> cases memResp <;> simp_all [next]

/-- The arbiter's outputs towards the L2 cache. -/
def memRequest (st : ArbiterState) (inst : InstPort) (data : DataPort) :
    Request :=
  match st with
  | .instReadS =>
      { memRead := true
        memWrite := false
        memAddress := inst.instAddr
        memWdata256 := fun _ => 0#8
        memByteEnable256 := inst.instByteEnable256 }
  | .dataReadS =>
      { memRead := true
        memWrite := false
        memAddress := data.dataAddr
        memWdata256 := fun _ => 0#8
        memByteEnable256 := data.dataByteEnable256 }
  | .dataWriteS =>
      { memRead := false
        memWrite := true
        memAddress := data.dataAddr
        memWdata256 := data.dataWdata
        memByteEnable256 := data.dataByteEnable256 }
  | .idleS | .doneIR | .doneDR | .doneDW =>
      { memRead := false
        memWrite := false
        memAddress := 0#32
        memWdata256 := fun _ => 0#8
        memByteEnable256 := 0#32 }

def instResp (st : ArbiterState) (memResp : Bool) : Bool :=
  match st with
  | .instReadS => memResp
  | _ => false

def instRdata (st : ArbiterState) (memRdata : Line) : Line :=
  match st with
  | .instReadS => memRdata
  | _ => fun _ => 0#8

def dataResp (st : ArbiterState) (memResp : Bool) : Bool :=
  match st with
  | .dataReadS | .dataWriteS => memResp
  | _ => false

def dataRdata (st : ArbiterState) (memRdata : Line) : Line :=
  match st with
  | .dataReadS => memRdata
  | _ => fun _ => 0#8

end ArbiterState

end CompE.Caches
