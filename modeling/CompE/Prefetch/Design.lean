import CompE.Caches.Arbiter

/-!
# `Icache_ctrl` and `Icache_dp`

The instruction cache has the geometry of the other caches and no write side.
After a demand fill it may go on and fetch the following line.  The prefetch
shares the arrays, the LRU bits and the memory port with the demand path: its
address and its way sit in `pf_addr` and `pf_way_index`, and `preload_done`
switches the set index, the tag and the load enables over to them.
-/

namespace CompE.Prefetch

open CompE.Library
open CompE.Caches

/-! ## `pf_array` -/

/-- A `pf_array`: an `array` with a second output register that holds the
entry after the one read. -/
structure PfArray (α : Type) where
  data : SetIndex → α
  dataout : α
  nextLine : α

/-- The clock edge of `pf_array` outside reset. -/
def PfArray.clock {α : Type} (a : PfArray α) (read load : Bool)
    (rindex windex : SetIndex) (datain : α) : PfArray α where
  data := fun s => if load && s == windex then datain else a.data s
  dataout :=
    if read then
      if load && rindex == windex then datain else a.data rindex
    else a.dataout
  nextLine := if read then a.data (rindex + 1#3) else a.nextLine

/-- The combinational read port of `pf_array`. -/
def PfArray.dataoutComb {α : Type} (a : PfArray α) (load : Bool)
    (rindex windex : SetIndex) (datain : α) : α :=
  if load && rindex == windex then datain else a.data rindex

/-! ## `Icache_ctrl` -/

/-- The states of `Icache_ctrl`. -/
inductive IcacheState where
  | sHit
  | sLoad
  | sPreload
  deriving DecidableEq, Repr

/-- The outputs of `Icache_ctrl`. -/
structure Controls where
  pmemRead : Bool
  memResp : Bool
  dataRead : Bool
  dataLoad : Bool
  combDataRead : Bool
  lruRead : Bool
  lruLoad : Bool
  tagRead : Bool
  combTagRead : Bool
  tagLoad : Bool
  validRead : Bool
  combValidRead : Bool
  validLoad : Bool
  validDatain : Bool
  wayIndexSel : BitVec 2
  pmemAddress : Addr
  preloadStart : Bool
  preloadDone : Bool
  addrInPreloadIn : Addr

/-- `set_defaults`. -/
def setDefaults (memAddress : Addr) : Controls where
  pmemRead := false
  memResp := false
  dataRead := false
  dataLoad := false
  combDataRead := false
  lruRead := false
  lruLoad := false
  tagRead := false
  combTagRead := false
  tagLoad := false
  validRead := false
  combValidRead := false
  validLoad := false
  validDatain := false
  wayIndexSel := 0b00#2
  pmemAddress := memAddress
  preloadStart := false
  preloadDone := false
  addrInPreloadIn := 0#32

/-- The state actions of `Icache_ctrl`. -/
def stateActions (state : IcacheState) (memAddress addrInPreload : Addr)
    (cacheHit nextLineCached pmemResp : Bool) : Controls :=
  let d := setDefaults memAddress
  match state with
  | .sHit =>
      { d with
        combTagRead := true
        combValidRead := true
        combDataRead := true
        lruRead := true
        lruLoad := cacheHit
        memResp := cacheHit
        wayIndexSel := 0b00#2 }
  | .sLoad =>
      if pmemResp then
        { d with
          validLoad := true
          validDatain := true
          tagLoad := true
          dataLoad := true
          wayIndexSel := 0b01#2
          lruRead := true
          lruLoad := true
          memResp := true
          combDataRead := true
          preloadStart := !nextLineCached
          addrInPreloadIn := d.pmemAddress + 32#32 }
      else
        { d with
          pmemRead := true
          combDataRead := true
          dataRead := true
          lruRead := true
          wayIndexSel := 0b01#2
          validRead := true }
  | .sPreload =>
      if pmemResp then
        { d with
          preloadDone := true
          pmemAddress := addrInPreload
          dataLoad := true
          validLoad := true
          validDatain := true
          tagLoad := true
          lruLoad := true }
      else
        { d with
          pmemRead := true
          pmemAddress := addrInPreload
          preloadDone := pmemResp
          dataRead := true
          wayIndexSel := 0b00#2
          validRead := true
          lruRead := true
          tagRead := true }

/-- The next-state logic of `Icache_ctrl`. -/
def nextState (state : IcacheState) (memRead cacheHit nextLineCached pmemResp :
    Bool) : IcacheState :=
  match state with
  | .sHit => if !cacheHit && memRead then .sLoad else .sHit
  | .sLoad =>
      if pmemResp then
        if nextLineCached then .sHit else .sPreload
      else .sLoad
  | .sPreload => if pmemResp then .sHit else .sPreload

/-- `comb_tag_read` and `comb_valid_read`. -/
def combCompare : IcacheState → Bool
  | .sHit => true
  | .sLoad | .sPreload => false

/-- `way_index_sel`. -/
def wayIndexSel : IcacheState → BitVec 2
  | .sLoad => 0b01#2
  | .sHit | .sPreload => 0b00#2

private theorem stateActions_combCompare (st : IcacheState) (a p : Addr)
    (hit cached resp : Bool) :
    (stateActions st a p hit cached resp).combTagRead = combCompare st ∧
      (stateActions st a p hit cached resp).combValidRead = combCompare st := by
  cases st <;> cases resp <;> exact ⟨rfl, rfl⟩

theorem stateActions_wayIndexSel (st : IcacheState) (a p : Addr)
    (hit cached resp : Bool) :
    (stateActions st a p hit cached resp).wayIndexSel = wayIndexSel st := by
  cases st <;> cases resp <;> rfl

/-- The comparators use the combinational ports only while nothing is loaded
and no prefetch ends, so the write bypass of these ports is off and the set is
that of the fetch. -/
theorem stateActions_no_load_of_combCompare {st : IcacheState} (a p : Addr)
    (hit cached resp : Bool) (h : combCompare st = true) :
    (stateActions st a p hit cached resp).tagLoad = false ∧
      (stateActions st a p hit cached resp).validLoad = false ∧
      (stateActions st a p hit cached resp).preloadDone = false := by
  cases st with
  | sHit => exact ⟨rfl, rfl, rfl⟩
  | sLoad => cases h
  | sPreload => cases h

/-! ## `Icache_dp` and the assembled cache -/

/-- The state held by `Icache_ctrl` and `Icache_dp`. -/
structure Icache where
  state : IcacheState
  addrInPreload : Addr
  data : Bool → DataArray
  tag : Bool → PfArray Tag
  valid : Bool → PfArray Bool
  lru : TagArray Bool
  pfWayIndex : Bool
  pfAddr : Addr

/-- The CPU's instruction port. -/
structure Fetch where
  memRead : Bool
  memAddress : Addr

namespace Icache

/-- `CMP0` and `CMP1`, from the state alone: see
`comparatorLogic_stateActions`. -/
def cmp (c : Icache) (r : Fetch) (w : Bool) : Bool :=
  let s := setIndex r.memAddress
  if combCompare c.state then
    tagBits r.memAddress == (c.tag w).data s && (c.valid w).data s
  else
    tagBits r.memAddress == (c.tag w).dataout && (c.valid w).dataout

def cacheHit (c : Icache) (r : Fetch) : Bool := c.cmp r false || c.cmp r true

/-- `WAY_INDEX_MUX`. -/
def wayIndex (c : Icache) (r : Fetch) : Bool :=
  if wayIndexSel c.state = 0b00#2 then c.cmp r true
  else if wayIndexSel c.state = 0b01#2 then c.lru.dataout
  else false

/-- `next_line_cached`. -/
def nextLineCached (c : Icache) (r : Fetch) : Bool :=
  let w := c.wayIndex r
  (c.tag w).dataout == (c.tag w).nextLine && (c.valid w).nextLine

/-- The control word of the cycle. -/
def controls (c : Icache) (r : Fetch) (pmemResp : Bool) : Controls :=
  stateActions c.state r.memAddress c.addrInPreload (c.cacheHit r)
    (c.nextLineCached r) pmemResp

/-- `tag_datain`. -/
def tagDatain (c : Icache) (r : Fetch) (pmemResp : Bool) : Tag :=
  if (c.controls r pmemResp).preloadDone then tagBits c.pfAddr
  else tagBits r.memAddress

/-- `set_index`. -/
def setIndexNow (c : Icache) (r : Fetch) (pmemResp : Bool) : SetIndex :=
  if (c.controls r pmemResp).preloadDone then setIndex c.pfAddr
  else setIndex r.memAddress

/-- The way the `LOAD_MUXES` enable. -/
def loadWay (c : Icache) (r : Fetch) (pmemResp : Bool) : Bool :=
  if (c.controls r pmemResp).preloadDone then c.pfWayIndex else c.wayIndex r

/-- `data0_write_en` and `data1_write_en`. -/
def dataWriteEn (c : Icache) (r : Fetch) (pmemResp : Bool) (w : Bool) :
    BitVec 32 :=
  if (c.controls r pmemResp).dataLoad && c.loadWay r pmemResp == w then
    0xFFFFFFFF#32
  else 0#32

def memResp (c : Icache) (r : Fetch) (pmemResp : Bool) : Bool :=
  (c.controls r pmemResp).memResp

def pmemRead (c : Icache) (r : Fetch) (pmemResp : Bool) : Bool :=
  (c.controls r pmemResp).pmemRead

def pmemAddress (c : Icache) (r : Fetch) (pmemResp : Bool) : Addr :=
  (c.controls r pmemResp).pmemAddress

/-- `DATAOUT_MUXES`. -/
def memRdata256 (c : Icache) (r : Fetch) (pmemResp : Bool)
    (pmemRdata : Line) : Line :=
  let s := c.setIndexNow r pmemResp
  let w := c.wayIndex r
  if (c.controls r pmemResp).combDataRead then
    (c.data w).dataoutComb (c.dataWriteEn r pmemResp w) s s pmemRdata
  else (c.data w).dataout

/-- One clock edge outside reset. -/
def clock (c : Icache) (r : Fetch) (pmemResp : Bool) (pmemRdata : Line) :
    Icache :=
  let k := c.controls r pmemResp
  let s := c.setIndexNow r pmemResp
  let way := c.loadWay r pmemResp
  { state := nextState c.state r.memRead (c.cacheHit r) (c.nextLineCached r)
      pmemResp
    addrInPreload :=
      if k.preloadStart then k.addrInPreloadIn else c.addrInPreload
    data := fun w => (c.data w).clock k.dataRead (c.dataWriteEn r pmemResp w)
      s s pmemRdata
    tag := fun w => (c.tag w).clock k.tagRead (k.tagLoad && way == w) s s
      (c.tagDatain r pmemResp)
    valid := fun w => (c.valid w).clock k.validRead (k.validLoad && way == w)
      s s k.validDatain
    lru := c.lru.clock k.lruRead k.lruLoad s s (!c.wayIndex r)
    pfWayIndex := if k.preloadStart then c.wayIndex r else c.pfWayIndex
    pfAddr := if k.preloadStart then r.memAddress + 32#32 else c.pfAddr }

/-! ## The combinational loop

As in the other caches, `cmp` and `wayIndex` are where the wires of `Icache_dp`
settle, whatever `cache_hit`, `next_line_cached` and `way_index` feed back.
-/

/-- `COMPARATOR_LOGIC` as wired, under the control word `k` and with the loads
going to `way`. -/
def comparatorLogic (c : Icache) (r : Fetch) (k : Controls) (way w : Bool) :
    Bool :=
  let s := if k.preloadDone then setIndex c.pfAddr else setIndex r.memAddress
  let tagIn := if k.preloadDone then tagBits c.pfAddr else tagBits r.memAddress
  if k.combValidRead && k.combTagRead then
    tagBits r.memAddress ==
        (c.tag w).dataoutComb (k.tagLoad && way == w) s s tagIn &&
      (c.valid w).dataoutComb (k.validLoad && way == w) s s k.validDatain
  else
    tagBits r.memAddress == (c.tag w).dataout && (c.valid w).dataout

/-- `WAY_INDEX_MUX` as wired. -/
def wayIndexMux (c : Icache) (r : Fetch) (k : Controls) (way : Bool) : Bool :=
  if k.wayIndexSel = 0b00#2 then c.comparatorLogic r k way true
  else if k.wayIndexSel = 0b01#2 then c.lru.dataout
  else false

section Loop

variable (c : Icache) (r : Fetch) (a p : Addr) (hit cached resp way : Bool)

theorem comparatorLogic_stateActions (w : Bool) :
    c.comparatorLogic r (stateActions c.state a p hit cached resp) way w =
      c.cmp r w := by
  obtain ⟨hTagRead, hValidRead⟩ :=
    stateActions_combCompare c.state a p hit cached resp
  rw [comparatorLogic, cmp, hTagRead, hValidRead, Bool.and_self]
  by_cases h : combCompare c.state = true
  · obtain ⟨hTag, hValid, hDone⟩ :=
      stateActions_no_load_of_combCompare a p hit cached resp h
    simp [h, hTag, hValid, hDone, PfArray.dataoutComb]
  · simp [h]

theorem wayIndexMux_stateActions :
    c.wayIndexMux r (stateActions c.state a p hit cached resp) way =
      c.wayIndex r := by
  rw [wayIndexMux, wayIndex, stateActions_wayIndexSel,
    comparatorLogic_stateActions]

end Loop

/-- After reset the controller is in `s_hit` and every stored bit is zero.
The output registers and the prefetch registers are not reset. -/
structure IsReset (c : Icache) : Prop where
  state : c.state = .sHit
  data : ∀ w s, (c.data w).data s = fun _ => 0#8
  tag : ∀ w s, (c.tag w).data s = 0#24
  valid : ∀ w s, (c.valid w).data s = false
  lru : ∀ s, c.lru.data s = false

/-- The reset state whose registers are zero as well. -/
def afterReset : Icache where
  state := .sHit
  addrInPreload := 0#32
  data := fun _ => ⟨fun _ _ => 0#8, fun _ => 0#8⟩
  tag := fun _ => ⟨fun _ => 0#24, 0#24, 0#24⟩
  valid := fun _ => ⟨fun _ => false, false, false⟩
  lru := ⟨fun _ => false, false⟩
  pfWayIndex := false
  pfAddr := 0#32

theorem afterReset_isReset : IsReset afterReset where
  state := rfl
  data := fun _ _ => rfl
  tag := fun _ _ => rfl
  valid := fun _ _ => rfl
  lru := fun _ => rfl

end Icache

end CompE.Prefetch
