import CompE.Caches.Control

/-!
# `cache_datapath` and the assembled cache

Two ways of eight lines with tag, valid and dirty arrays and one LRU bit per
set.  Way `0` is `false` and way `1` is `true`, so the pairs `tag0_array`,
`tag1_array` of the source are one family indexed by the way, and
`X1_load = X_load & way_index`, `X0_load = X_load & ~way_index` become a
comparison with the way.

`Cache` is `cache_control` together with `cache_datapath`: both the L1 data
cache (`cache.sv`) and the L2 cache (`L2_cache.sv`) are this pair.
-/

namespace CompE.Caches

open CompE.Library

/-- The state held by `cache_control` and `cache_datapath`. -/
structure Cache where
  state : ControlState
  data : Bool → DataArray
  tag : Bool → TagArray Tag
  valid : Bool → TagArray Bool
  dirty : Bool → TagArray Bool
  lru : TagArray Bool

namespace Cache

/-! ## Combinational signals -/

/-- `CMP0` and `CMP1`.  The combinational ports are used with their write
bypass off: see `comparatorLogic_stateActions`. -/
def cmp (c : Cache) (r : Request) (w : Bool) : Bool :=
  let s := setIndex r.memAddress
  if combCompare c.state then
    tagBits r.memAddress == (c.tag w).data s && (c.valid w).data s
  else
    tagBits r.memAddress == (c.tag w).dataout && (c.valid w).dataout

def cacheHit (c : Cache) (r : Request) : Bool := c.cmp r false || c.cmp r true

/-- `WAY_INDEX_MUX`. -/
def wayIndex (c : Cache) (r : Request) : Bool :=
  if wayIndexSel c.state = 0b00#2 then c.cmp r true
  else if wayIndexSel c.state = 0b01#2 then c.lru.dataout
  else false

def tagDataout (c : Cache) (r : Request) : Tag := (c.tag (c.wayIndex r)).dataout

/-- The control word of the cycle. -/
def controls (c : Cache) (r : Request) (pmemResp : Bool) : Controls :=
  stateActions c.state r (c.cacheHit r) pmemResp (c.tagDataout r)

def dirtyDataout (c : Cache) (r : Request) : Bool :=
  if (c.controls r false).combDirtyRead then
    (c.dirty (c.wayIndex r)).data (setIndex r.memAddress)
  else (c.dirty (c.wayIndex r)).dataout

/-- `data0_write_en` and `data1_write_en`. -/
def dataWriteEn (c : Cache) (r : Request) (pmemResp : Bool) (w : Bool) :
    BitVec 32 :=
  if c.wayIndex r == w then (c.controls r pmemResp).dataWriteEn else 0#32

/-- `DATAIN_MUXES`. -/
def dataDatain (c : Cache) (r : Request) (pmemRdata : Line) : Line :=
  if (c.controls r false).pmemRead then pmemRdata else r.memWdata256

/-! ## Outputs -/

def memResp (c : Cache) (r : Request) : Bool := (c.controls r false).memResp

def pmemRead (c : Cache) (r : Request) : Bool := (c.controls r false).pmemRead

def pmemWrite (c : Cache) (r : Request) : Bool :=
  (c.controls r false).pmemWrite

def pmemAddress (c : Cache) (r : Request) : Addr :=
  (c.controls r false).pmemAddress

def pmemWdata (c : Cache) : Line := (c.data c.lru.dataout).dataout

/-- `DATAOUT_MUXES`, the line towards the CPU. -/
def memRdata256 (c : Cache) (r : Request) (pmemResp : Bool)
    (pmemRdata : Line) : Line :=
  let s := setIndex r.memAddress
  let w := c.wayIndex r
  if (c.controls r pmemResp).combDataRead then
    (c.data w).dataoutComb (c.dataWriteEn r pmemResp w) s s
      (c.dataDatain r pmemRdata)
  else (c.data w).dataout

/-! ## The clock edge -/

/-- One clock edge outside reset. -/
def clock (c : Cache) (r : Request) (pmemResp : Bool) (pmemRdata : Line) :
    Cache :=
  let k := c.controls r pmemResp
  let s := setIndex r.memAddress
  let way := c.wayIndex r
  { state := nextState c.state r (c.cacheHit r) pmemResp (c.dirtyDataout r)
    data := fun w => (c.data w).clock k.dataRead (c.dataWriteEn r pmemResp w)
      s s (c.dataDatain r pmemRdata)
    tag := fun w => (c.tag w).clock k.tagRead (k.tagLoad && way == w) s s
      (tagBits r.memAddress)
    valid := fun w => (c.valid w).clock k.validRead (k.validLoad && way == w)
      s s k.validDatain
    dirty := fun w => (c.dirty w).clock k.dirtyRead (k.dirtyLoad && way == w)
      s s k.dirtyDatain
    lru := c.lru.clock k.lruRead k.lruLoad s s (!way) }

/-- After reset the controller is in `s_hit` and every stored bit is zero.
The output registers `_dataout` are not reset and may hold anything. -/
structure IsReset (c : Cache) : Prop where
  state : c.state = .sHit
  data : ∀ w s, (c.data w).data s = fun _ => 0#8
  tag : ∀ w s, (c.tag w).data s = 0#24
  valid : ∀ w s, (c.valid w).data s = false
  dirty : ∀ w s, (c.dirty w).data s = false
  lru : ∀ s, c.lru.data s = false

/-- The reset state whose output registers are zero as well. -/
def afterReset : Cache where
  state := .sHit
  data := fun _ => ⟨fun _ _ => 0#8, fun _ => 0#8⟩
  tag := fun _ => ⟨fun _ => 0#24, 0#24⟩
  valid := fun _ => ⟨fun _ => false, false⟩
  dirty := fun _ => ⟨fun _ => false, false⟩
  lru := ⟨fun _ => false, false⟩

theorem afterReset_isReset : IsReset afterReset where
  state := rfl
  data := fun _ _ => rfl
  tag := fun _ _ => rfl
  valid := fun _ _ => rfl
  dirty := fun _ _ => rfl
  lru := fun _ => rfl

/-! ## The combinational loop

`cache_hit` and `way_index` enter the control word and the load enables, and
these enter the comparators.  `cmp` and `wayIndex` are computed from the state
alone: the wires settle on them whatever is fed back.
-/

/-- `COMPARATOR_LOGIC` as wired, under the control word `k` and with the loads
going to `way`. -/
def comparatorLogic (c : Cache) (r : Request) (k : Controls) (way w : Bool) :
    Bool :=
  let s := setIndex r.memAddress
  if k.combValidRead && k.combTagRead then
    tagBits r.memAddress == (c.tag w).dataoutComb (k.tagLoad && way == w) s s
        (tagBits r.memAddress) &&
      (c.valid w).dataoutComb (k.validLoad && way == w) s s k.validDatain
  else
    tagBits r.memAddress == (c.tag w).dataout && (c.valid w).dataout

/-- `WAY_INDEX_MUX` as wired. -/
def wayIndexMux (c : Cache) (r : Request) (k : Controls) (way : Bool) : Bool :=
  if k.wayIndexSel = 0b00#2 then c.comparatorLogic r k way true
  else if k.wayIndexSel = 0b01#2 then c.lru.dataout
  else false

section Loop

variable (c : Cache) (r : Request) (hit resp : Bool) (t : Tag) (way : Bool)

theorem comparatorLogic_stateActions (w : Bool) :
    c.comparatorLogic r (stateActions c.state r hit resp t) way w =
      c.cmp r w := by
  rw [comparatorLogic, cmp, stateActions_combTagRead,
    stateActions_combValidRead, Bool.and_self]
  by_cases h : combCompare c.state = true
  · obtain ⟨hTag, hValid⟩ :=
      stateActions_no_load_of_combCompare r hit resp t h
    simp [h, hTag, hValid, TagArray.dataoutComb]
  · simp [h]

theorem wayIndexMux_stateActions :
    c.wayIndexMux r (stateActions c.state r hit resp t) way =
      c.wayIndex r := by
  rw [wayIndexMux, wayIndex, stateActions_wayIndexSel,
    comparatorLogic_stateActions]

end Loop

/-! ## The signals in each state -/

section Signals

variable {c : Cache} {r : Request}

theorem cmp_sHit (h : c.state = .sHit) (w : Bool) :
    c.cmp r w = (tagBits r.memAddress ==
      (c.tag w).data (setIndex r.memAddress) &&
        (c.valid w).data (setIndex r.memAddress)) := by
  simp [cmp, h, combCompare]

theorem cmp_of_ne_sHit (h : c.state ≠ .sHit) (w : Bool) :
    c.cmp r w = (tagBits r.memAddress == (c.tag w).dataout &&
      (c.valid w).dataout) := by
  cases hs : c.state <;> simp_all [cmp, combCompare]

theorem wayIndex_sHit (h : c.state = .sHit) : c.wayIndex r = c.cmp r true := by
  simp [wayIndex, h, wayIndexSel]

theorem wayIndex_of_ne_sHit (h : c.state ≠ .sHit) :
    c.wayIndex r = c.lru.dataout := by
  cases hs : c.state <;> simp_all [wayIndex, wayIndexSel]

private theorem dirtyDataout_eq : c.dirtyDataout r = (c.dirty (c.wayIndex r)).dataout := by
  cases hs : c.state <;>
    simp [dirtyDataout, controls, stateActions, setDefaults, hs]

theorem memResp_eq :
    c.memResp r = (decide (c.state = .sHit) && c.cacheHit r) := by
  cases hs : c.state <;>
    simp [memResp, controls, stateActions, setDefaults, hs]

theorem pmemRead_eq : c.pmemRead r = decide (c.state = .sMiss) := by
  cases hs : c.state <;>
    simp [pmemRead, controls, stateActions, setDefaults, hs]

theorem pmemWrite_eq : c.pmemWrite r = decide (c.state = .sEvict) := by
  cases hs : c.state <;>
    simp [pmemWrite, controls, stateActions, setDefaults, hs]

theorem pmemAddress_sMiss (h : c.state = .sMiss) :
    c.pmemAddress r = r.memAddress := by
  simp [pmemAddress, controls, stateActions, setDefaults, h]

theorem pmemAddress_sEvict (h : c.state = .sEvict) :
    c.pmemAddress r =
      (c.tag c.lru.dataout).dataout ++ setIndex r.memAddress ++ 0#5 := by
  simp [pmemAddress, controls, stateActions, setDefaults, h, tagDataout,
    wayIndex_of_ne_sHit (c := c) (by simp [h])]

theorem lineNo_pmemAddress_sEvict (h : c.state = .sEvict) :
    lineNo (c.pmemAddress r) =
      lineAt (c.tag c.lru.dataout).dataout (setIndex r.memAddress) := by
  rw [pmemAddress_sEvict h, lineNo, lineAt]
  exact BitVec.extractLsb'_append_eq_left

end Signals

/-! ## What one clock edge does

A cycle is quiet, a hit, a fill or a write-back cycle.  The stored arrays
change in the last three only, and each change is confined to one way of the
requested set.
-/

section Clock

variable {c : Cache} (r : Request) (resp : Bool) (d : Line)

/-- The cycles in which no array is loaded. -/
inductive Quiet (c : Cache) (r : Request) (resp : Bool) : Prop where
  | miss (h : c.state = .sHit) (hMiss : c.cacheHit r = false)
  | lookup (h : c.state = .sRead ∨ c.state = .sWrite)
  | wait (h : c.state = .sMiss) (hWait : resp = false)

/-- The arrays of two cache states hold the same entries. -/
structure SameArrays (c c' : Cache) : Prop where
  data : ∀ w, (c'.data w).data = (c.data w).data
  tag : ∀ w, (c'.tag w).data = (c.tag w).data
  valid : ∀ w, (c'.valid w).data = (c.valid w).data
  dirty : ∀ w, (c'.dirty w).data = (c.dirty w).data
  lru : c'.lru.data = c.lru.data

/-- The output registers hold the entries of set `s`. -/
structure Registered (c : Cache) (s : SetIndex) : Prop where
  tag : ∀ w, (c.tag w).dataout = (c.tag w).data s
  valid : ∀ w, (c.valid w).dataout = (c.valid w).data s
  dirty : ∀ w, (c.dirty w).dataout = (c.dirty w).data s
  lru : c.lru.dataout = c.lru.data s

theorem clock_quiet (h : Quiet c r resp) :
    SameArrays c (c.clock r resp d) := by
  rcases h with ⟨h, hMiss⟩ | h | ⟨h, hWait⟩
  · constructor <;>
      simp [clock, controls, stateActions, setDefaults, dataWriteEn, h, hMiss]
  · rcases h with h | h <;> constructor <;>
      simp [clock, controls, stateActions, setDefaults, dataWriteEn, h]
  · constructor <;>
      simp [clock, controls, stateActions, setDefaults, dataWriteEn, h, hWait]

/-- A miss in `s_hit` latches the entries of the requested set. -/
theorem clock_miss_registered (h : c.state = .sHit)
    (hMiss : c.cacheHit r = false) :
    Registered (c.clock r resp d) (setIndex r.memAddress) := by
  constructor <;>
    simp [clock, controls, stateActions, setDefaults, h, hMiss,
      TagArray.clock]

theorem clock_miss_state (h : c.state = .sHit)
    (hMiss : c.cacheHit r = false) :
    (c.clock r resp d).state =
      if r.memRead then .sRead else if r.memWrite then .sWrite else .sHit := by
  simp [clock, nextState, h, hMiss]

/-- The lookup state after a miss or a fill. -/
theorem clock_lookup_state (h : c.state = .sRead ∨ c.state = .sWrite) :
    (c.clock r resp d).state =
      if c.cacheHit r then .sHit
      else if (c.dirty c.lru.dataout).dataout then .sEvict else .sMiss := by
  have hNe : c.state ≠ .sHit := by rcases h with h | h <;> simp [h]
  rcases h with h | h <;>
    simp [clock, nextState, h, dirtyDataout_eq, wayIndex_of_ne_sHit hNe]

/-- The lookup state latches both lines of the requested set and keeps the
way to replace in the LRU register. -/
theorem clock_lookup_registers (h : c.state = .sRead ∨ c.state = .sWrite) :
    (∀ w, ((c.clock r resp d).data w).dataout =
        (c.data w).data (setIndex r.memAddress)) ∧
      (∀ w, ((c.clock r resp d).tag w).dataout =
        (c.tag w).data (setIndex r.memAddress)) ∧
      (c.clock r resp d).lru.dataout =
        c.lru.data (setIndex r.memAddress) := by
  rcases h with h | h <;>
    simp [clock, controls, stateActions, setDefaults, dataWriteEn, h,
      TagArray.clock, DataArray.clock]

theorem clock_wait_state (h : c.state = .sMiss) :
    (c.clock r false d).state = .sMiss := by
  simp [clock, nextState, h]

theorem clock_wait_lru (h : c.state = .sMiss) :
    (c.clock r false d).lru.dataout =
      c.lru.data (setIndex r.memAddress) := by
  simp [clock, controls, stateActions, setDefaults, h, TagArray.clock]

/-- A hit in `s_hit`: only the line and the dirty bit of the hit way in the
requested set may change, and they change on a write. -/
theorem clock_hit (h : c.state = .sHit) (hHit : c.cacheHit r = true) :
    (c.clock r resp d).state = .sHit ∧
      (∀ w s, ((c.clock r resp d).data w).data s =
        if (w = c.cmp r true ∧ r.memWrite = true) ∧
            s = setIndex r.memAddress then
          LaneMemory.merge (lanes r.memByteEnable256) r.memWdata256
            ((c.data w).data s)
        else (c.data w).data s) ∧
      (∀ w, ((c.clock r resp d).tag w).data = (c.tag w).data) ∧
      (∀ w, ((c.clock r resp d).valid w).data = (c.valid w).data) ∧
      (∀ w s, ((c.clock r resp d).dirty w).data s =
        if (w = c.cmp r true ∧ r.memWrite = true) ∧
            s = setIndex r.memAddress then true
        else (c.dirty w).data s) := by
  have hWay : c.wayIndex r = c.cmp r true := wayIndex_sHit h
  refine ⟨?_, fun w s => ?_, fun w => ?_, fun w => ?_, fun w s => ?_⟩
  · simp [clock, nextState, h, hHit]
  · by_cases hw : w = c.cmp r true
    · by_cases hs : s = setIndex r.memAddress
      · subst hs
        cases hWrite : r.memWrite <;>
          simp [clock, DataArray.clock, controls, stateActions, setDefaults,
            h, hHit, dataWriteEn, dataDatain, hWay, hw, hWrite]
      · simp [clock, DataArray.clock_data_of_ne _ _ _ _ _ _ hs, hs]
    · simp [clock, dataWriteEn, hWay, hw, Ne.symm hw]
  · simp [clock, controls, stateActions, setDefaults, h]
  · simp [clock, controls, stateActions, setDefaults, h]
  · by_cases hw : w = c.cmp r true
    · cases hWrite : r.memWrite <;>
        simp [clock, TagArray.clock, controls, stateActions, setDefaults, h,
          hHit, hWay, hw, hWrite]
    · simp [clock, TagArray.clock, hWay, hw, Ne.symm hw]

/-- The memory's response in `s_miss` installs the requested line in the way
the LRU register names, marks it valid and dirty, and latches the set. -/
theorem clock_fill (h : c.state = .sMiss) :
    (∀ w s, ((c.clock r true d).data w).data s =
        if w = c.lru.dataout ∧ s = setIndex r.memAddress then d
        else (c.data w).data s) ∧
      (∀ w s, ((c.clock r true d).tag w).data s =
        if w = c.lru.dataout ∧ s = setIndex r.memAddress then
          tagBits r.memAddress else (c.tag w).data s) ∧
      (∀ w s, ((c.clock r true d).valid w).data s =
        if w = c.lru.dataout ∧ s = setIndex r.memAddress then true
        else (c.valid w).data s) ∧
      (∀ w s, ((c.clock r true d).dirty w).data s =
        if w = c.lru.dataout ∧ s = setIndex r.memAddress then true
        else (c.dirty w).data s) ∧
      Registered (c.clock r true d) (setIndex r.memAddress) := by
  have hWay : c.wayIndex r = c.lru.dataout :=
    wayIndex_of_ne_sHit (by simp [h])
  refine ⟨fun w s => ?_, fun w s => ?_, fun w s => ?_, fun w s => ?_, ?_⟩
  · by_cases hw : w = c.lru.dataout
    · by_cases hs : s = setIndex r.memAddress
      · subst hs
        simp [clock, DataArray.clock, controls, stateActions, setDefaults, h,
          dataWriteEn, dataDatain, hWay, hw]
      · simp [clock, DataArray.clock_data_of_ne _ _ _ _ _ _ hs, hs]
    · simp [clock, dataWriteEn, hWay, hw, Ne.symm hw]
  · by_cases hw : w = c.lru.dataout
    · simp [clock, TagArray.clock, controls, stateActions, setDefaults, h,
        hWay, hw]
    · simp [clock, TagArray.clock, hWay, hw, Ne.symm hw]
  · by_cases hw : w = c.lru.dataout
    · simp [clock, TagArray.clock, controls, stateActions, setDefaults, h,
        hWay, hw]
    · simp [clock, TagArray.clock, hWay, hw, Ne.symm hw]
  · by_cases hw : w = c.lru.dataout
    · simp [clock, TagArray.clock, controls, stateActions, setDefaults, h,
        hWay, hw]
    · simp [clock, TagArray.clock, hWay, hw, Ne.symm hw]
  · constructor <;>
      simp [clock, TagArray.clock, controls, stateActions, setDefaults, h]

theorem clock_fill_state (h : c.state = .sMiss) (hReq : r.active = true) :
    (c.clock r true d).state = .sRead ∨ (c.clock r true d).state = .sWrite := by
  cases hRead : r.memRead <;> cases hWrite : r.memWrite <;>
    simp_all [clock, nextState, Request.active]

/-- A cycle of the write-back: the victim stops being valid and dirty, and
its line stays in the output registers. -/
theorem clock_evict (h : c.state = .sEvict) :
    (c.clock r resp d).state = (if resp then .sMiss else .sEvict) ∧
      (∀ w, ((c.clock r resp d).data w).data = (c.data w).data) ∧
      (∀ w, ((c.clock r resp d).tag w).data = (c.tag w).data) ∧
      (∀ w s, ((c.clock r resp d).valid w).data s =
        if w = c.lru.dataout ∧ s = setIndex r.memAddress then false
        else (c.valid w).data s) ∧
      (∀ w s, ((c.clock r resp d).dirty w).data s =
        if w = c.lru.dataout ∧ s = setIndex r.memAddress then false
        else (c.dirty w).data s) ∧
      (c.clock r resp d).lru = c.lru ∧
      (∀ w, ((c.clock r resp d).data w).dataout = (c.data w).dataout) ∧
      (∀ w, ((c.clock r resp d).tag w).dataout =
        (c.tag w).data (setIndex r.memAddress)) := by
  have hWay : c.wayIndex r = c.lru.dataout :=
    wayIndex_of_ne_sHit (by simp [h])
  refine ⟨?_, fun w => ?_, fun w => ?_, fun w s => ?_, fun w s => ?_, ?_,
    fun w => ?_, fun w => ?_⟩
  · simp [clock, nextState, h]
  · simp [clock, dataWriteEn, controls, stateActions, setDefaults, h]
  · simp [clock, controls, stateActions, setDefaults, h]
  · by_cases hw : w = c.lru.dataout
    · simp [clock, TagArray.clock, controls, stateActions, setDefaults, h,
        hWay, hw]
    · simp [clock, TagArray.clock, hWay, hw, Ne.symm hw]
  · by_cases hw : w = c.lru.dataout
    · simp [clock, TagArray.clock, controls, stateActions, setDefaults, h,
        hWay, hw]
    · simp [clock, TagArray.clock, hWay, hw, Ne.symm hw]
  · simp [clock, TagArray.clock, controls, stateActions, setDefaults, h]
  · simp [clock, DataArray.clock, controls, stateActions, setDefaults, h]
  · simp [clock, TagArray.clock, controls, stateActions, setDefaults, h]

end Clock

end Cache

end CompE.Caches
