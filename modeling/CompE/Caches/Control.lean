import CompE.Caches.Arrays

/-!
# `cache_control`

The five-state controller shared by the L1 data cache and the L2 cache.  The
control word is split the way the combinational logic depends on it: the read
strobes and the way select are functions of the state alone, and the load
strobes, the responses and the memory address also look at the hit signal and
at `pmem_resp`.
-/

namespace CompE.Caches

/-- The states of `cache_control`. -/
inductive ControlState where
  | sHit
  | sRead
  | sWrite
  | sMiss
  | sEvict
  deriving DecidableEq, Repr

/-- The CPU side of a cache: request lines, address and write data. -/
structure Request where
  memRead : Bool
  memWrite : Bool
  memAddress : Addr
  memWdata256 : Line
  memByteEnable256 : BitVec 32

/-- A request is pending on the CPU side. -/
def Request.active (r : Request) : Bool := r.memRead || r.memWrite

/-- The outputs of `cache_control` towards the datapath and the two ports. -/
structure Controls where
  pmemRead : Bool
  pmemWrite : Bool
  memResp : Bool
  dataRead : Bool
  combDataRead : Bool
  lruRead : Bool
  lruLoad : Bool
  tagRead : Bool
  combTagRead : Bool
  tagLoad : Bool
  validRead : Bool
  combValidRead : Bool
  validLoad : Bool
  validDatain : Bool
  dirtyRead : Bool
  combDirtyRead : Bool
  dirtyLoad : Bool
  dirtyDatain : Bool
  wayIndexSel : BitVec 2
  dataWriteEn : BitVec 32
  pmemAddress : Addr

/-- `set_defaults`. -/
def setDefaults (memAddress : Addr) : Controls where
  pmemRead := false
  pmemWrite := false
  memResp := false
  dataRead := false
  combDataRead := false
  lruRead := false
  lruLoad := false
  tagRead := false
  combTagRead := false
  tagLoad := false
  validRead := false
  combValidRead := false
  validLoad := false
  validDatain := false
  dirtyRead := false
  combDirtyRead := false
  dirtyLoad := false
  dirtyDatain := false
  wayIndexSel := 0b00#2
  dataWriteEn := 0#32
  pmemAddress := memAddress

/-- The state actions of `cache_control`. -/
def stateActions (state : ControlState) (r : Request) (cacheHit : Bool)
    (pmemResp : Bool) (tagDataout : Tag) : Controls :=
  let d := setDefaults r.memAddress
  match state with
  | .sHit =>
      { d with
        combTagRead := true
        combValidRead := true
        combDataRead := true
        tagRead := true
        validRead := true
        dirtyRead := true
        lruRead := true
        wayIndexSel := 0b00#2
        lruLoad := cacheHit
        memResp := cacheHit
        dirtyLoad := cacheHit && r.memWrite
        dirtyDatain := cacheHit && r.memWrite
        dataWriteEn :=
          if cacheHit && r.memWrite then r.memByteEnable256 else 0#32 }
  | .sRead | .sWrite =>
      { d with
        lruRead := true
        wayIndexSel := 0b01#2
        dirtyRead := true
        dataRead := true
        tagRead := true }
  | .sMiss =>
      { d with
        pmemRead := true
        dataRead := true
        wayIndexSel := 0b01#2
        dirtyRead := true
        lruRead := true
        tagRead := true
        validRead := true
        validDatain := pmemResp
        validLoad := pmemResp
        dirtyLoad := pmemResp
        dirtyDatain := pmemResp
        dataWriteEn := if pmemResp then 0xFFFFFFFF#32 else 0#32
        tagLoad := pmemResp
        lruLoad := pmemResp }
  | .sEvict =>
      { d with
        pmemWrite := true
        wayIndexSel := 0b01#2
        tagRead := true
        pmemAddress := tagDataout ++ setIndex r.memAddress ++ 0#5
        dirtyLoad := true
        dirtyDatain := false
        validLoad := true
        validDatain := false }

/-- The next-state logic of `cache_control`. -/
def nextState (state : ControlState) (r : Request) (cacheHit : Bool)
    (pmemResp : Bool) (dirtyDataout : Bool) : ControlState :=
  match state with
  | .sHit =>
      if !cacheHit && r.memRead then .sRead
      else if !cacheHit && r.memWrite then .sWrite
      else .sHit
  | .sRead =>
      if cacheHit then .sHit
      else if dirtyDataout then .sEvict
      else .sMiss
  | .sWrite =>
      if cacheHit then .sHit
      else if dirtyDataout then .sEvict
      else .sMiss
  | .sMiss =>
      if pmemResp then
        if r.memRead then .sRead
        else if r.memWrite then .sWrite
        else .sMiss
      else .sMiss
  | .sEvict => if pmemResp then .sMiss else .sEvict

/-! ## Outputs that depend on the state alone -/

/-- `comb_tag_read` and `comb_valid_read`: the comparators look at the
combinational ports exactly in `s_hit`. -/
def combCompare : ControlState → Bool
  | .sHit => true
  | _ => false

/-- `way_index_sel`. -/
def wayIndexSel : ControlState → BitVec 2
  | .sHit => 0b00#2
  | _ => 0b01#2

theorem stateActions_combTagRead (st : ControlState) (r : Request)
    (hit resp : Bool) (t : Tag) :
    (stateActions st r hit resp t).combTagRead = combCompare st := by
  cases st <;> rfl

theorem stateActions_combValidRead (st : ControlState) (r : Request)
    (hit resp : Bool) (t : Tag) :
    (stateActions st r hit resp t).combValidRead = combCompare st := by
  cases st <;> rfl

theorem stateActions_wayIndexSel (st : ControlState) (r : Request)
    (hit resp : Bool) (t : Tag) :
    (stateActions st r hit resp t).wayIndexSel = wayIndexSel st := by
  cases st <;> rfl

/-- No tag or valid entry is loaded while the comparators look at the
combinational ports, so their write bypass is off there. -/
theorem stateActions_no_load_of_combCompare {st : ControlState} (r : Request)
    (hit resp : Bool) (t : Tag) (h : combCompare st = true) :
    (stateActions st r hit resp t).tagLoad = false ∧
      (stateActions st r hit resp t).validLoad = false := by
  cases st <;> simp_all [combCompare, stateActions, setDefaults]

end CompE.Caches
