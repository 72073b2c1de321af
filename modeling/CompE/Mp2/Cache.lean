import CompE.Caches.Arbiter

/-!
# The two-way cache of the pipeline's predecessor

`cache_control`, `cache_datapath` and the byte enables of `cache`.  The arrays
and the bus adapter are the same as in the later caches and are taken from
there; a line is again its 32 byte lanes, and a signal `[1:0]` is one bit for
each way.

Two outputs have no driver.  No state of the controller sets `sel_dirty`, so
it keeps its default, and nothing assigns `pmem_address`: what stands on it is
an input here.
-/

namespace CompE.Mp2

open CompE.Library
open CompE.Caches (Addr Tag Line Word TagArray DataArray setIndex tagBits lanes
  wordOffset memWdata256 memByteEnable256)

/-! ## `cache_control` -/

/-- The states of `cache_control`. -/
inductive CacheState where
  | idle
  | hitDetected
  | load
  | store
  deriving DecidableEq, Repr

/-- The CPU side of the cache. -/
structure Request where
  memRead : Bool
  memWrite : Bool
  memByteEnable : BitVec 4
  memAddress : Addr
  memWdata : Word

def Request.active (r : Request) : Bool := r.memRead || r.memWrite

/-- A signal with one bit for each way. -/
abbrev Ways := Bool → Bool

def noWay : Ways := fun _ => false

def oneWay (w : Bool) : Ways := fun w' => w' == w

/-- The outputs of `cache_control`, and its next state. -/
structure Controls where
  memResp : Bool
  pmemRead : Bool
  pmemWrite : Bool
  readData : Bool
  selDirty : Ways
  setValid : Ways
  setDirty : Ways
  flushDirty : Ways
  loadTag : Ways
  loadData : Ways
  cacheRead : Ways
  nextState : CacheState

/-- `set_defaults`. -/
def setDefaults (state : CacheState) : Controls where
  memResp := false
  pmemRead := false
  pmemWrite := false
  readData := false
  selDirty := noWay
  setValid := noWay
  setDirty := noWay
  flushDirty := noWay
  loadTag := noWay
  loadData := noWay
  cacheRead := noWay
  nextState := state

/-- The combinational block of `cache_control`. -/
def stateActions (state : CacheState) (r : Request) (lru hit0 hit : Bool)
    (dirtySignal : Ways) (pmemResp : Bool) : Controls :=
  let d := setDefaults state
  match state with
  | .idle =>
      if r.active then { d with readData := true, nextState := .hitDetected }
      else d
  | .hitDetected =>
      if hit then
        { d with
          memResp := r.active
          cacheRead := if r.memRead then oneWay (!hit0) else noWay
          setDirty := if r.memWrite then oneWay (!hit0) else noWay
          loadData := if r.memWrite then oneWay (!hit0) else noWay
          nextState := if r.active then .idle else .hitDetected }
      else if !dirtySignal false && !dirtySignal true then
        { d with setValid := oneWay lru, nextState := .load }
      else
        { d with
          flushDirty := oneWay lru
          pmemWrite := true
          nextState := .store }
  | .load =>
      if pmemResp then
        { d with
          loadData := oneWay lru
          loadTag := oneWay lru
          nextState := .idle }
      else { d with pmemRead := true }
  | .store =>
      if pmemResp then { d with pmemRead := true, nextState := .load }
      else { d with pmemWrite := true }

/-! ## `cache_datapath` and `cache` -/

/-- The state held by the cache. -/
structure Cache where
  state : CacheState
  data : Bool → DataArray
  tag : Bool → TagArray Tag
  valid : Bool → TagArray Bool
  dirty : Bool → TagArray Bool
  lru : TagArray Bool

namespace Cache

section Signals

variable (c : Cache) (r : Request) (pmemResp : Bool)

/-- `hit_0` and `hit_1`. -/
def hitWay (w : Bool) : Bool :=
  (c.valid w).dataout && (c.tag w).dataout == tagBits r.memAddress

def hit : Bool := c.hitWay r false || c.hitWay r true

def controls : Controls :=
  stateActions c.state r c.lru.dataout (c.hitWay r false) (c.hit r)
    (fun w => (c.dirty w).dataout) pmemResp

/-- The bytes of the request that are enabled, or all if none is. -/
def enables : BitVec 32 :=
  if memByteEnable256 r.memByteEnable r.memAddress = 0#32 then 0xFFFFFFFF#32
  else memByteEnable256 r.memByteEnable r.memAddress

/-- `write_en`. -/
def writeEn (w : Bool) : BitVec 32 :=
  if (c.controls r pmemResp).loadData w && !(c.controls r pmemResp).loadData (!w)
  then enables r
  else 0#32

/-- `data_mux_in`: the line with the word of the request in its place. -/
def dataMuxIn (w : Bool) : Line := fun j =>
  if j.val / 4 = (wordOffset r.memAddress).toNat then memWdata256 r.memWdata j
  else (c.data w).dataout j

/-- `data_in`. -/
def dataIn (pmemRdata : Line) (w : Bool) : Line :=
  if (c.controls r pmemResp).selDirty w then c.dataMuxIn r w else pmemRdata

/-- `pmem_wdata`, which `mem_rdata` is cut from as well. -/
def pmemWdata : Line :=
  if c.hitWay r false then (c.data false).dataout else (c.data true).dataout

/-- `mem_rdata`, as the datapath drives it; the bus adapter has only an open
net to drive it from. -/
def memRdata : Word := CompE.Caches.memRdata (c.pmemWdata r) r.memAddress

def memResp : Bool := (c.controls r pmemResp).memResp

/-- One clock edge.  The arrays' `rst` is not connected. -/
def clock (pmemRdata : Line) : Cache :=
  let k := c.controls r pmemResp
  let s := setIndex r.memAddress
  { state := k.nextState
    data := fun w => (c.data w).clock k.readData (c.writeEn r pmemResp w) s s
      (c.dataIn r pmemResp pmemRdata w)
    tag := fun w => (c.tag w).clock k.readData (k.loadTag w) s s
      (tagBits r.memAddress)
    valid := fun w => (c.valid w).clock true (k.setValid w) s s true
    dirty := fun w => (c.dirty w).clock true (k.selDirty w || k.flushDirty w) s s
      (k.setDirty w)
    lru := c.lru.clock true
      (k.cacheRead false || k.cacheRead true || k.loadData false ||
        k.loadData true) s s
      (k.cacheRead false || k.loadData false) }

end Signals

/-- The cache as it is switched on, with no valid and no dirty line. -/
structure IsPowerUp (c : Cache) : Prop where
  state : c.state = .idle
  valid : ∀ w s, (c.valid w).data s = false
  dirty : ∀ w s, (c.dirty w).data s = false

/-- No state selects the merged line. -/
theorem selDirty_eq (c : Cache) (r : Request) (pmemResp : Bool) :
    (c.controls r pmemResp).selDirty = noWay := by
  rw [controls]
  cases c.state with
  | idle =>
      simp only [stateActions]
      split <;> rfl
  | hitDetected =>
      simp only [stateActions]
      split
      · rfl
      · split <;> rfl
  | load =>
      simp only [stateActions]
      split <;> rfl
  | store =>
      simp only [stateActions]
      split <;> rfl

/-- So a line is only ever loaded from the memory's bus. -/
theorem dataIn_eq (c : Cache) (r : Request) (pmemResp : Bool) (d : Line)
    (w : Bool) : c.dataIn r pmemResp d w = d := by
  simp [dataIn, selDirty_eq, noWay]

end Cache

end CompE.Mp2
