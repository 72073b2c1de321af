import CompE.Prefetch.Design

/-!
# Every fetch returns the memory's word

In front of a memory that does not change, the cache keeps one fact: a valid
way of a set holds the memory line its tag and set name (`Faithful`).  An
array is loaded in two cycles only, the end of a demand fill and the end of a
prefetch, and in both the set, the tag and the line belong to the address on
the memory port.  For the prefetch this needs that the controller's
`addr_in_preload` and the datapath's `pf_addr` agree, whatever address the CPU
has moved on to.
-/

namespace CompE.Prefetch

open CompE.Library
open CompE.Caches

namespace Icache

variable {c : Icache} {r : Fetch} {m : LineMem}

/-- A valid way holds the memory line named by its tag and set. -/
def Faithful (c : Icache) (m : LineMem) : Prop :=
  ∀ w s, (c.valid w).data s = true →
    (c.data w).data s = m (lineAt ((c.tag w).data s) s)

/-- The invariant of the cache in front of `m`. -/
structure Inv (c : Icache) (m : LineMem) : Prop where
  faithful : Faithful c m
  prefetch : c.state = .sPreload → c.pfAddr = c.addrInPreload

theorem IsReset.inv (h : c.IsReset) (m : LineMem) : Inv c m where
  faithful := by
    intro w s hValid
    rw [h.valid] at hValid
    cases hValid
  prefetch := by simp [h.state]

/-! ## One clock edge -/

/-- A cycle loads the arrays when the memory answers a demand miss or a
prefetch. -/
def loads (c : Icache) (resp : Bool) : Bool :=
  resp && !decide (c.state = .sHit)

/-- Without a load the stored entries stand still. -/
theorem clock_quiet (resp : Bool) (d : Line) (h : c.loads resp = false) :
    (∀ w, ((c.clock r resp d).data w).data = (c.data w).data) ∧
      (∀ w, ((c.clock r resp d).tag w).data = (c.tag w).data) ∧
      (∀ w, ((c.clock r resp d).valid w).data = (c.valid w).data) := by
  have hCases : c.state = .sHit ∨ resp = false := by
    cases resp <;> simp_all [loads]
  rcases hCases with h | rfl
  · refine ⟨fun w => ?_, fun w => ?_, fun w => ?_⟩ <;>
      simp [clock, controls, stateActions, setDefaults, dataWriteEn,
        PfArray.clock, h]
  · cases hs : c.state <;> refine ⟨fun w => ?_, fun w => ?_, fun w => ?_⟩ <;>
      simp [clock, controls, stateActions, setDefaults, dataWriteEn,
        PfArray.clock, hs]

/-- A load writes one way of one set: the address on the memory port names
the set and the tag, and the memory's line is stored as a whole. -/
theorem clock_load (d : Line) (hInv : Inv c m) (h : c.loads true = true)
    (w : Bool) (s : SetIndex) :
    let a := c.pmemAddress r true
    ((c.clock r true d).data w).data s =
        (if w = c.loadWay r true ∧ s = setIndex a then d
          else (c.data w).data s) ∧
      ((c.clock r true d).tag w).data s =
        (if w = c.loadWay r true ∧ s = setIndex a then tagBits a
          else (c.tag w).data s) ∧
      ((c.clock r true d).valid w).data s =
        (if w = c.loadWay r true ∧ s = setIndex a then true
          else (c.valid w).data s) := by
  have hSet : c.setIndexNow r true = setIndex (c.pmemAddress r true) := by
    cases hs : c.state with
    | sHit => simp [loads, hs] at h
    | sLoad =>
        simp [setIndexNow, pmemAddress, controls, stateActions, setDefaults, hs]
    | sPreload =>
        simp [setIndexNow, pmemAddress, controls, stateActions, setDefaults, hs,
          hInv.prefetch hs]
  have hTag : c.tagDatain r true = tagBits (c.pmemAddress r true) := by
    cases hs : c.state with
    | sHit => simp [loads, hs] at h
    | sLoad =>
        simp [tagDatain, pmemAddress, controls, stateActions, setDefaults, hs]
    | sPreload =>
        simp [tagDatain, pmemAddress, controls, stateActions, setDefaults, hs,
          hInv.prefetch hs]
  have hOn : (c.controls r true).dataLoad = true ∧
      (c.controls r true).tagLoad = true ∧
      (c.controls r true).validLoad = true ∧
      (c.controls r true).validDatain = true := by
    cases hs : c.state <;>
      simp_all [loads, controls, stateActions]
  obtain ⟨hData, hTagOn, hValid, hDatain⟩ := hOn
  simp only [clock, dataWriteEn, hData, hTagOn, hValid, hDatain, hSet, hTag,
    Bool.true_and, PfArray.clock]
  generalize setIndex (c.pmemAddress r true) = s'
  by_cases hw : w = c.loadWay r true
  · by_cases hs : s = s'
    · subst hs
      simp [hw, DataArray.clock]
    · simp [hs, DataArray.clock_data_of_ne _ _ _ _ _ _ hs]
  · simp [hw, Ne.symm hw]

/-- Every clock edge keeps the invariant, when the memory answers with the
line on its port. -/
theorem Inv.clock (hInv : Inv c m) (resp : Bool) (d : Line)
    (hFill : resp = true → d = m (lineNo (c.pmemAddress r resp))) :
    Inv (c.clock r resp d) m where
  faithful := by
    intro w s
    cases hLoad : c.loads resp with
    | false =>
        obtain ⟨hData, hTag, hValid⟩ := clock_quiet (r := r) resp d hLoad
        rw [hData, hTag, hValid]
        exact hInv.faithful w s
    | true =>
        have hResp : resp = true := by
          rw [loads, Bool.and_eq_true] at hLoad
          exact hLoad.1
        subst hResp
        obtain ⟨hData, hTag, hValid⟩ :=
          clock_load (r := r) d hInv hLoad w s
        rw [hData, hTag, hValid]
        split
        · rename_i hNew
          intro _
          rw [hNew.2, ← lineNo_eq]
          exact hFill rfl
        · exact hInv.faithful w s
  prefetch := by
    cases hs : c.state with
    | sHit =>
        simp only [Icache.clock, nextState, hs]
        split <;> simp
    | sLoad =>
        cases resp with
        | false => simp [Icache.clock, nextState, hs]
        | true =>
            intro hNext
            have hStart : c.nextLineCached r = false := by
              cases hCached : c.nextLineCached r with
              | false => rfl
              | true => simp [Icache.clock, nextState, hs, hCached] at hNext
            simp [Icache.clock, controls, stateActions, setDefaults, hs,
              hStart]
    | sPreload =>
        intro _
        cases resp <;>
          simp [Icache.clock, controls, stateActions, setDefaults, hs,
            hInv.prefetch hs]

/-- An acknowledged fetch returns the memory's line. -/
theorem memRdata256_of_memResp (hInv : Inv c m) (resp : Bool) (d : Line)
    (hFill : resp = true → d = m (lineNo (c.pmemAddress r resp)))
    (hResp : c.memResp r resp = true) :
    c.memRdata256 r resp d = m (lineNo r.memAddress) := by
  cases hs : c.state with
  | sHit =>
      have hHit : c.cacheHit r = true := by
        simpa [memResp, controls, stateActions, setDefaults, hs] using hResp
      have hWay : c.wayIndex r = c.cmp r true := by
        simp [wayIndex, wayIndexSel, hs]
      have hCmp : c.cmp r (c.cmp r true) = true := by
        cases hTrue : c.cmp r true with
        | true => exact hTrue
        | false => simpa [cacheHit, hTrue] using hHit
      have hEntry : tagBits r.memAddress =
            (c.tag (c.cmp r true)).data (setIndex r.memAddress) ∧
          (c.valid (c.cmp r true)).data (setIndex r.memAddress) = true := by
        rw [cmp, hs, combCompare, if_pos rfl, Bool.and_eq_true,
          beq_iff_eq] at hCmp
        exact hCmp
      rw [lineNo_eq, hEntry.1, ← hInv.faithful _ _ hEntry.2]
      simp [memRdata256, controls, stateActions, setDefaults, hs, hWay,
        dataWriteEn, setIndexNow]
  | sLoad =>
      have hDone : resp = true := by
        cases resp with
        | true => rfl
        | false => simp [memResp, controls, stateActions, setDefaults, hs] at hResp
      subst hDone
      rw [hFill rfl]
      simp [memRdata256, controls, stateActions, setDefaults, hs, dataWriteEn,
        setIndexNow, loadWay, pmemAddress]
  | sPreload =>
      cases resp <;>
        simp [memResp, controls, stateActions, setDefaults, hs] at hResp

/-- While the memory has not answered, the request on the memory port is kept
unchanged, provided the CPU holds its address. -/
theorem pmemRequest_held (d : Line) (h : c.pmemRead r false = true) :
    (c.clock r false d).pmemRead r false = true ∧
      (c.clock r false d).pmemAddress r false = c.pmemAddress r false := by
  cases hs : c.state with
  | sHit => simp [pmemRead, controls, stateActions, setDefaults, hs] at h
  | sLoad =>
      have hNext : (c.clock r false d).state = .sLoad := by
        simp [clock, nextState, hs]
      simp [pmemRead, pmemAddress, controls, stateActions, setDefaults, hs,
        hNext]
  | sPreload =>
      have hNext : (c.clock r false d).state = .sPreload := by
        simp [clock, nextState, hs]
      have hAddr : (c.clock r false d).addrInPreload = c.addrInPreload := by
        simp [clock, controls, stateActions, setDefaults, hs]
      simp [pmemRead, pmemAddress, controls, stateActions, setDefaults, hs,
        hNext, hAddr]

end Icache

/-! ## The system -/

/-- The cache and the fetch that awaits `mem_resp`. -/
structure FetchUnit where
  cache : Icache
  pending : Option Addr

/-- What the CPU and the memory drive in one cycle. -/
structure FetchCycle where
  fetch : Fetch
  pmemResp : Bool

/-- An acknowledged fetch: its address and the word returned. -/
structure Fetched where
  address : Addr
  word : Word

namespace FetchUnit

/-- The CPU holds a fetch until it is acknowledged. -/
def legal (s : FetchUnit) (i : FetchCycle) : Prop :=
  ∀ a, s.pending = some a → i.fetch = ⟨true, a⟩

section

variable (m : LineMem)

/-- The memory drives the line on its port. -/
def pmemRdata (s : FetchUnit) (i : FetchCycle) : Line :=
  m (lineNo (s.cache.pmemAddress i.fetch i.pmemResp))

def step (s : FetchUnit) (i : FetchCycle) : FetchUnit where
  cache := s.cache.clock i.fetch i.pmemResp (pmemRdata m s i)
  pending :=
    if i.fetch.memRead && !s.cache.memResp i.fetch i.pmemResp then
      some i.fetch.memAddress
    else none

/-- The word returned to the CPU. -/
def memRdataNow (s : FetchUnit) (i : FetchCycle) : Word :=
  memRdata (s.cache.memRdata256 i.fetch i.pmemResp (pmemRdata m s i))
    i.fetch.memAddress

/-- The instruction cache in front of the unchanging memory `m`. -/
def machine : Machine FetchUnit FetchCycle Fetched where
  step := step m
  emit s i :=
    if s.cache.memResp i.fetch i.pmemResp && i.fetch.memRead then
      [⟨i.fetch.memAddress, memRdataNow m s i⟩]
    else []
  legal := legal

/-- The words of an unchanging memory as a specification. -/
def romWords : Acceptor Unit Fetched where
  good _ e := e.word = words m (wordNo e.address)
  next t _ := t

private theorem romWords_accepts (es : List Fetched) :
    (romWords m).Accepts () es ↔
      ∀ e ∈ es, e.word = words m (wordNo e.address) := by
  induction es with
  | nil => simp [Acceptor.Accepts]
  | cons e es ih =>
      rw [List.forall_mem_cons]
      exact and_congr Iff.rfl ih

end

/-- Power-up: reset, no fetch pending. -/
def boot (c : Icache) : FetchUnit := ⟨c, none⟩

/-- A cycle acknowledges the memory's word and keeps the invariant. -/
theorem emit_step {m : LineMem} {s : FetchUnit} {i : FetchCycle}
    (hInv : Icache.Inv s.cache m) :
    (∀ e ∈ (machine m).emit s i, e.word = words m (wordNo e.address)) ∧
      Icache.Inv ((machine m).step s i).cache m := by
  refine ⟨fun e he => ?_, hInv.clock i.pmemResp _ (fun _ => rfl)⟩
  simp only [machine] at he
  split at he
  · rename_i hResp
    rw [Bool.and_eq_true] at hResp
    rw [List.mem_singleton] at he
    subst he
    have hLine := Icache.memRdata256_of_memResp hInv i.pmemResp
      (pmemRdata m s i) (fun _ => rfl) hResp.1
    simp only [memRdataNow]
    rw [hLine, memRdata_line]
  · cases he

/--
**Fetching is correct under prefetching.**  For every memory and every run
from reset, each acknowledged fetch returns the word at its own address, and
in the reached state each valid way holds the line its tag and set name.
-/
theorem fetch_correct {c : Icache} (hReset : c.IsReset) (m : LineMem)
    (is : List FetchCycle) (hLegal : (machine m).Legal (boot c) is) :
    (∀ e ∈ (machine m).events (boot c) is,
        e.word = words m (wordNo e.address)) ∧
      Icache.Faithful ((machine m).run (boot c) is).cache m := by
  have hStep : ∀ s t i, Icache.Inv (FetchUnit.cache s) m →
      (machine m).legal s i →
      (romWords m).Accepts t ((machine m).emit s i) ∧
        Icache.Inv ((machine m).step s i).cache m := by
    intro s t i hInv _
    obtain ⟨hWords, hNext⟩ := emit_step (i := i) hInv
    exact ⟨(romWords_accepts m _).2 hWords, hNext⟩
  obtain ⟨hAcc, hInv⟩ := (machine m).simulates (romWords m) hStep is (boot c)
    () (hReset.inv m) hLegal
  exact ⟨(romWords_accepts m _).1 hAcc, hInv.faithful⟩

/-- A cold fetch from address 8 whose line arrives after a delay, followed by
a fetch from the next line, which the prefetch has brought in meanwhile. -/
def coldFetch : List FetchCycle :=
  [⟨⟨true, 8#32⟩, false⟩, ⟨⟨true, 8#32⟩, false⟩, ⟨⟨true, 8#32⟩, true⟩,
    ⟨⟨true, 36#32⟩, false⟩, ⟨⟨true, 36#32⟩, true⟩, ⟨⟨true, 36#32⟩, false⟩]

theorem fetch_correct_coldFetch :
    (∀ e ∈ (machine fun l _ => l.setWidth 8).events
          (boot Icache.afterReset) coldFetch,
        e.word = words (fun l _ => l.setWidth 8) (wordNo e.address)) ∧
      Icache.Faithful ((machine fun l _ => l.setWidth 8).run
        (boot Icache.afterReset) coldFetch).cache fun l _ => l.setWidth 8 := by
  refine fetch_correct Icache.afterReset_isReset _ coldFetch ?_
  refine ⟨?_, ?_, ?_, ?_, ?_, ?_, trivial⟩ <;> intro a ha
  · cases ha
  all_goals first
    | exact congrArg (Fetch.mk true) (Option.some.inj ha)
    | cases ha

end FetchUnit

end CompE.Prefetch
