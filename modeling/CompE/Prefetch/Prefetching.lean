import CompE.Prefetch.Fetching
import Mathlib.Logic.Function.Basic

/-!
# No line twice

A fill writes the line on the memory port into one way.  If the line was in
neither way before, no set holds a line in both ways afterwards.  A demand fill
follows a miss; a prefetch follows `next_line_cached`, which compares output
registers of the tag arrays.  These are read while a prefetch waits, and never
in `s_load`, so that they show the set that the CPU asked for during the last
prefetch.  Of the two ways only the one to be replaced is looked at.

`Tested` says that a next line which is cached is also found to be.
-/

namespace CompE.Prefetch

open CompE.Library
open CompE.Caches

namespace Icache

variable {c : Icache} {r : Fetch} {m : LineMem}

/-- The tag in a way of a set, if it is valid. -/
def line (c : Icache) (s : SetIndex) (w : Bool) : Option Tag :=
  if (c.valid w).data s then some ((c.tag w).data s) else none

/-- The line of an address is valid in a way. -/
def Holds (c : Icache) (a : Addr) : Prop :=
  ∃ w, c.line (setIndex a) w = some (tagBits a)

/-- No set holds the same valid tag in both ways. -/
def Unique (c : Icache) : Prop :=
  ∀ s t, ¬ (c.line s false = some t ∧ c.line s true = some t)

/-- A prefetch starts in this cycle. -/
def prefetches (c : Icache) (r : Fetch) (resp : Bool) : Bool :=
  (c.controls r resp).preloadStart

theorem IsReset.unique (h : c.IsReset) : c.Unique := by
  intro s t hBoth
  have hNone : c.line s false = none := by
    simp [line, h.valid]
  rw [hNone] at hBoth
  cases hBoth.1

/-! ## Fills -/

private theorem line_of_quiet (resp : Bool) (d : Line) (h : c.loads resp = false) :
    (c.clock r resp d).line = c.line := by
  obtain ⟨_, hTag, hValid⟩ := clock_quiet (r := r) resp d h
  funext s w
  simp only [line, hTag, hValid]

private theorem holds_of_quiet (resp : Bool) (d : Line) (h : c.loads resp = false)
    (a : Addr) : (c.clock r resp d).Holds a ↔ c.Holds a := by
  unfold Holds
  rw [line_of_quiet resp d h]

theorem Unique.quiet (hUnique : c.Unique) (resp : Bool) (d : Line)
    (h : c.loads resp = false) : (c.clock r resp d).Unique := by
  unfold Unique
  rw [line_of_quiet resp d h]
  exact hUnique

/-- A fill puts the line on the memory port into one way. -/
theorem line_of_load (hInv : Inv c m) (d : Line) (h : c.loads true = true)
    (s : SetIndex) :
    (c.clock r true d).line s =
      if s = setIndex (c.pmemAddress r true) then
        Function.update (c.line s) (c.loadWay r true)
          (some (tagBits (c.pmemAddress r true)))
      else c.line s := by
  funext w
  obtain ⟨_, hTag, hValid⟩ := clock_load (r := r) d hInv h w s
  simp only [line, hTag, hValid]
  by_cases hSet : s = setIndex (c.pmemAddress r true)
  · by_cases hWay : w = c.loadWay r true
    · simp [hSet, hWay]
    · simp [hSet, hWay, line]
  · simp [hSet, line]

/-- A line that was absent is in one way after its fill. -/
theorem Unique.load (hUnique : c.Unique) (hInv : Inv c m) (d : Line)
    (h : c.loads true = true) (hAbsent : ¬ c.Holds (c.pmemAddress r true)) :
    (c.clock r true d).Unique := by
  intro s t hBoth
  rw [line_of_load hInv d h] at hBoth
  by_cases hSet : s = setIndex (c.pmemAddress r true)
  · subst hSet
    simp only [if_true, Function.update_apply] at hBoth
    obtain ⟨hFalse, hTrue⟩ := hBoth
    cases hWay : c.loadWay r true with
    | false =>
        simp only [hWay, if_true, Option.some.injEq] at hFalse
        simp only [hWay, Bool.true_eq_false, if_false, ← hFalse] at hTrue
        exact hAbsent ⟨true, hTrue⟩
    | true =>
        simp only [hWay, if_true, Option.some.injEq] at hTrue
        simp only [hWay, Bool.false_eq_true, if_false, ← hTrue] at hFalse
        exact hAbsent ⟨false, hFalse⟩
  · rw [if_neg hSet] at hBoth
    exact hUnique s t hBoth

/-- A fill leaves the other sets alone. -/
theorem holds_of_load (hInv : Inv c m) (d : Line) (h : c.loads true = true)
    {a : Addr} (hSet : setIndex a ≠ setIndex (c.pmemAddress r true)) :
    (c.clock r true d).Holds a ↔ c.Holds a := by
  unfold Holds
  rw [line_of_load hInv d h, if_neg hSet]

/-- The next line lies in the next set, after set 7 in set 0. -/
theorem setIndex_next (a : Addr) : setIndex (a + 32#32) = setIndex a + 1#3 := by
  apply BitVec.eq_of_toNat_eq
  simp only [setIndex, BitVec.extractLsb'_toNat, BitVec.toNat_add,
    BitVec.toNat_ofNat, Nat.shiftRight_eq_div_pow]
  omega

private theorem setIndex_next_ne (a : Addr) : setIndex (a + 32#32) ≠ setIndex a := by
  rw [setIndex_next]
  generalize setIndex a = s
  intro h
  have hNat := congrArg BitVec.toNat h
  rw [BitVec.toNat_add] at hNat
  have hLt := s.isLt
  simp only [BitVec.toNat_ofNat] at hNat
  omega

/-! ## The test -/

/-- A prefetch starts when a demand fill ends and the test fails. -/
theorem prefetches_iff (resp : Bool) :
    c.prefetches r resp = true ↔
      c.state = .sLoad ∧ resp = true ∧ c.nextLineCached r = false := by
  cases hs : c.state <;> cases resp <;>
    simp [prefetches, controls, stateActions, setDefaults, hs]

/-- The test in `s_load`: the registers of the way to be replaced. -/
def SaysCached (c : Icache) : Prop :=
  (c.tag c.lru.dataout).dataout = (c.tag c.lru.dataout).nextLine ∧
    (c.valid c.lru.dataout).nextLine = true

private theorem nextLineCached_iff (hs : c.state = .sLoad) :
    c.nextLineCached r = true ↔ c.SaysCached := by
  have hWay : c.wayIndex r = c.lru.dataout := by
    simp [wayIndex, wayIndexSel, hs]
  simp [nextLineCached, SaysCached, hWay]

/-- The tags compared are those of the last cycle in which a prefetch waited. -/
theorem clock_tagOutputs (resp : Bool) (d : Line) (w : Bool) :
    ((c.clock r resp d).tag w).dataout =
        (if c.state = .sPreload ∧ resp = false then
          (c.tag w).data (setIndex r.memAddress) else (c.tag w).dataout) ∧
      ((c.clock r resp d).tag w).nextLine =
        (if c.state = .sPreload ∧ resp = false then
          (c.tag w).data (setIndex r.memAddress + 1#3) else (c.tag w).nextLine) := by
  cases hs : c.state <;> cases resp <;>
    simp [clock, controls, stateActions, setDefaults, PfArray.clock, setIndexNow, hs]

end Icache

/-! ## Runs -/

namespace FetchUnit

variable {m : LineMem} {s : FetchUnit} {i : FetchCycle}

/-- What a cycle should do. -/
structure NoDuplicate (m : LineMem) (s : FetchUnit) (i : FetchCycle) : Prop where
  before : s.cache.Unique
  after : ((machine m).step s i).cache.Unique
  absent : s.cache.prefetches i.fetch i.pmemResp = true →
    ¬ s.cache.Holds (i.fetch.memAddress + 32#32)

/-- When a demand fill ends, a next line that is cached is found to be. -/
def Tested (s : FetchUnit) (i : FetchCycle) : Prop :=
  s.cache.state = .sLoad → i.pmemResp = true →
    s.cache.Holds (i.fetch.memAddress + 32#32) → s.cache.SaysCached

/-- The line on the memory port is not in the cache. -/
structure Fresh (m : LineMem) (s : FetchUnit) : Prop where
  inv : Icache.Inv s.cache m
  unique : s.cache.Unique
  demand : s.cache.state = .sLoad →
    ∃ a, s.pending = some a ∧ ¬ s.cache.Holds a
  prefetch : s.cache.state = .sPreload → ¬ s.cache.Holds s.cache.addrInPreload

private theorem fresh_boot {c : Icache} (h : c.IsReset) (m : LineMem) : Fresh m (boot c) where
  inv := h.inv m
  unique := h.unique
  demand hs := absurd (h.state.symm.trans hs) (by decide)
  prefetch hs := absurd (h.state.symm.trans hs) (by decide)

/-- A fetch that misses is for a line that is in neither way. -/
theorem not_holds_of_miss (hs : s.cache.state = .sHit) {r : Fetch}
    (hMiss : s.cache.cacheHit r = false) : ¬ s.cache.Holds r.memAddress := by
  rintro ⟨w, hLine⟩
  have hWay : s.cache.cmp r w = false := by
    rw [Icache.cacheHit, Bool.or_eq_false_iff] at hMiss
    cases w with
    | false => exact hMiss.1
    | true => exact hMiss.2
  have hEntry : (s.cache.valid w).data (setIndex r.memAddress) = true ∧
      (s.cache.tag w).data (setIndex r.memAddress) = tagBits r.memAddress := by
    simpa [Icache.line] using hLine
  simp [Icache.cmp, combCompare, hs, hEntry] at hWay

/-- A cycle in `s_hit`. -/
theorem Fresh.step_hit (h : Fresh m s) (hs : s.cache.state = .sHit) :
    Fresh m ((machine m).step s i) := by
  have hQuiet : s.cache.loads i.pmemResp = false := by simp [Icache.loads, hs]
  have hState : ((machine m).step s i).cache.state =
      if !s.cache.cacheHit i.fetch && i.fetch.memRead then .sLoad else .sHit := by
    simp [machine, step, Icache.clock, nextState, hs]
  refine ⟨(emit_step h.inv).2, h.unique.quiet _ _ hQuiet, ?_, ?_⟩
  · intro hNext
    rw [hState] at hNext
    split at hNext
    · rename_i hMiss
      rw [Bool.and_eq_true, Bool.not_eq_true'] at hMiss
      refine ⟨i.fetch.memAddress, ?_, ?_⟩
      · simp [machine, step, Icache.memResp, Icache.controls, stateActions, hs, hMiss]
      · exact fun hHolds => not_holds_of_miss hs hMiss.1
          ((Icache.holds_of_quiet _ _ hQuiet _).1 hHolds)
    · cases hNext
  · intro hNext
    rw [hState] at hNext
    split at hNext <;> cases hNext

/-- While the memory has not answered, nothing comes in. -/
theorem Fresh.step_wait (h : Fresh m s) (hLegal : legal s i)
    (hs : s.cache.state ≠ .sHit) (hResp : i.pmemResp = false) :
    Fresh m ((machine m).step s i) := by
  have hQuiet : s.cache.loads i.pmemResp = false := by simp [Icache.loads, hResp]
  have hState : ((machine m).step s i).cache.state = s.cache.state := by
    cases hState : s.cache.state with
    | sHit => exact absurd hState hs
    | sLoad | sPreload => simp [machine, step, Icache.clock, nextState, hState, hResp]
  refine ⟨(emit_step h.inv).2, h.unique.quiet _ _ hQuiet, ?_, ?_⟩
  · intro hNext
    rw [hState] at hNext
    obtain ⟨a, hPending, hAbsent⟩ := h.demand hNext
    refine ⟨a, ?_, fun hHolds =>
      hAbsent ((Icache.holds_of_quiet _ _ hQuiet _).1 hHolds)⟩
    have hFetch := hLegal a hPending
    simp [machine, step, Icache.memResp, Icache.controls, stateActions,
      setDefaults, hNext, hResp, hFetch]
  · intro hNext
    rw [hState] at hNext
    have hAddr : ((machine m).step s i).cache.addrInPreload =
        s.cache.addrInPreload := by
      simp [machine, step, Icache.clock, Icache.controls, stateActions,
        setDefaults, hNext, hResp]
    rw [hAddr]
    exact fun hHolds =>
      h.prefetch hNext ((Icache.holds_of_quiet _ _ hQuiet _).1 hHolds)

/-- The end of a demand fill. -/
theorem Fresh.step_load (h : Fresh m s) (hLegal : legal s i)
    (hTested : Tested s i) (hs : s.cache.state = .sLoad)
    (hResp : i.pmemResp = true) : Fresh m ((machine m).step s i) := by
  obtain ⟨a, hPending, hAbsent⟩ := h.demand hs
  have hFetch := hLegal a hPending
  have hLoads : s.cache.loads true = true := by simp [Icache.loads, hs]
  have hPort : s.cache.pmemAddress i.fetch true = a := by
    simp [Icache.pmemAddress, Icache.controls, stateActions, setDefaults, hs, hFetch]
  have hState : ((machine m).step s i).cache.state =
      if s.cache.nextLineCached i.fetch then .sHit else .sPreload := by
    simp [machine, step, Icache.clock, nextState, hs, hResp]
  refine ⟨(emit_step h.inv).2, ?_, ?_, ?_⟩
  · simp only [machine, step, hResp]
    exact h.unique.load h.inv _ hLoads (hPort.symm ▸ hAbsent)
  · intro hNext
    rw [hState] at hNext
    split at hNext <;> cases hNext
  · intro hNext
    rw [hState] at hNext
    have hTest : s.cache.nextLineCached i.fetch = false := by
      cases hCached : s.cache.nextLineCached i.fetch with
      | false => rfl
      | true => simp [hCached] at hNext
    have hAddr : ((machine m).step s i).cache.addrInPreload =
        i.fetch.memAddress + 32#32 := by
      simp [machine, step, Icache.clock, Icache.controls, stateActions,
        setDefaults, hs, hResp, hTest]
    rw [hFetch] at hAddr
    have hSet : setIndex (a + 32#32) ≠
        setIndex (s.cache.pmemAddress i.fetch true) := by
      rw [hPort]
      exact Icache.setIndex_next_ne a
    rw [hAddr]
    simp only [machine, step, hResp]
    rw [Icache.holds_of_load h.inv _ hLoads hSet]
    intro hHolds
    have hSays := hTested hs hResp (by rw [hFetch]; exact hHolds)
    rw [(Icache.nextLineCached_iff hs).2 hSays] at hTest
    cases hTest

/-- The end of a prefetch. -/
theorem Fresh.step_preload (h : Fresh m s) (hs : s.cache.state = .sPreload)
    (hResp : i.pmemResp = true) : Fresh m ((machine m).step s i) := by
  have hLoads : s.cache.loads true = true := by simp [Icache.loads, hs]
  have hPort : s.cache.pmemAddress i.fetch true = s.cache.addrInPreload := by
    simp [Icache.pmemAddress, Icache.controls, stateActions, setDefaults, hs]
  have hState : ((machine m).step s i).cache.state = .sHit := by
    simp [machine, step, Icache.clock, nextState, hs, hResp]
  refine ⟨(emit_step h.inv).2, ?_, ?_, ?_⟩
  · simp only [machine, step, hResp]
    exact h.unique.load h.inv _ hLoads (hPort.symm ▸ h.prefetch hs)
  · intro hNext
    rw [hState] at hNext
    cases hNext
  · intro hNext
    rw [hState] at hNext
    cases hNext

theorem Fresh.step (h : Fresh m s) (hLegal : legal s i) (hTested : Tested s i) :
    Fresh m ((machine m).step s i) := by
  cases hs : s.cache.state with
  | sHit => exact h.step_hit hs
  | sLoad =>
      cases hResp : i.pmemResp with
      | false => exact h.step_wait hLegal (by simp [hs]) hResp
      | true => exact h.step_load hLegal hTested hs hResp
  | sPreload =>
      cases hResp : i.pmemResp with
      | false => exact h.step_wait hLegal (by simp [hs]) hResp
      | true => exact h.step_preload hs hResp

/-- A cycle in which the test is right starts no prefetch of a cached line. -/
theorem Tested.absent (h : Tested s i) :
    s.cache.prefetches i.fetch i.pmemResp = true →
      ¬ s.cache.Holds (i.fetch.memAddress + 32#32) := by
  intro hStart hHolds
  obtain ⟨hs, hResp, hTest⟩ := (Icache.prefetches_iff _).1 hStart
  rw [(Icache.nextLineCached_iff hs).2 (h hs hResp hHolds)] at hTest
  cases hTest

/-- And the other way round. -/
theorem NoDuplicate.tested (h : NoDuplicate m s i) : Tested s i := by
  intro hs hResp hHolds
  rw [← Icache.nextLineCached_iff (r := i.fetch) hs]
  cases hTest : s.cache.nextLineCached i.fetch with
  | true => rfl
  | false =>
      exact absurd hHolds (h.absent ((Icache.prefetches_iff _).2 ⟨hs, hResp, hTest⟩))

/--
**No duplicate line.**  In a run from reset no set ever holds a line in both
ways and no prefetch is started for a line that is cached, exactly if at the end
of every demand fill a next line that is cached is found to be.
-/
theorem no_duplicate_iff {c : Icache} (hReset : c.IsReset) (m : LineMem)
    (is : List FetchCycle) (hLegal : (machine m).Legal (boot c) is) :
    (machine m).Always (NoDuplicate m) (boot c) is ↔
      (machine m).Always Tested (boot c) is := by
  refine (machine m).always_iff_of_invariant ?_ (fun _ _ _ _ h => h.tested) is
    (boot c) (fresh_boot hReset m) hLegal
  intro s i hFresh hCycle hTested
  have hNext := hFresh.step hCycle hTested
  exact ⟨⟨hFresh.unique, hNext.unique, hTested.absent⟩, hNext⟩

/-- `legal`, evaluated. -/
def held (s : FetchUnit) (i : FetchCycle) : Bool :=
  s.pending.all fun a => i.fetch.memRead && i.fetch.memAddress == a

theorem legal_of_held {is : List FetchCycle}
    (h : (machine m).Always (fun s i => held s i = true) s is) :
    (machine m).Legal s is := by
  refine (machine m).always_mono (fun s i hHeld a hPending => ?_) h
  rw [held, hPending, Option.all_some, Bool.and_eq_true, beq_iff_eq] at hHeld
  obtain ⟨⟨memRead, memAddress⟩, pmemResp⟩ := i
  exact congrArg₂ Fetch.mk hHeld.1 hHeld.2

/-- Lines 0 and 8, each with a prefetch, that waits, of the line after it; line
16 in the place of line 0; line 0 again, in the place of line 8; and a wait of
the prefetch of line 1. -/
def refetch : List FetchCycle :=
  [⟨⟨true, 0x000#32⟩, false⟩, ⟨⟨true, 0x000#32⟩, false⟩, ⟨⟨true, 0x000#32⟩, true⟩,
    ⟨⟨true, 0x100#32⟩, false⟩, ⟨⟨true, 0x100#32⟩, true⟩,
    ⟨⟨true, 0x100#32⟩, false⟩, ⟨⟨true, 0x100#32⟩, false⟩, ⟨⟨true, 0x100#32⟩, true⟩,
    ⟨⟨true, 0x200#32⟩, false⟩, ⟨⟨true, 0x200#32⟩, true⟩,
    ⟨⟨true, 0x200#32⟩, false⟩, ⟨⟨true, 0x200#32⟩, false⟩, ⟨⟨true, 0x200#32⟩, true⟩,
    ⟨⟨true, 0x000#32⟩, false⟩, ⟨⟨true, 0x000#32⟩, false⟩, ⟨⟨true, 0x000#32⟩, true⟩,
    ⟨⟨true, 0x004#32⟩, false⟩]

/-- The prefetch of line 1 ends. -/
def prefetched : FetchCycle := ⟨⟨true, 0x004#32⟩, true⟩

theorem no_duplicate_iff_coldFetch :
    (machine fun _ _ => 0#8).Always (NoDuplicate fun _ _ => 0#8)
        (boot Icache.afterReset) coldFetch ↔
      (machine fun _ _ => 0#8).Always Tested (boot Icache.afterReset) coldFetch :=
  no_duplicate_iff Icache.afterReset_isReset _ coldFetch
    (legal_of_held (by decide +kernel))

/-- Line 1 is in both ways of its set. -/
theorem refetch_duplicates : ¬ ∀ (c : Icache) (m : LineMem) (is : List FetchCycle),
    c.IsReset → (machine m).Legal (boot c) is →
      (machine m).Always (NoDuplicate m) (boot c) is := by
  intro h
  have hRun := h Icache.afterReset (fun _ _ => 0#8) (refetch ++ [prefetched])
    Icache.afterReset_isReset (legal_of_held (by decide +kernel))
  obtain ⟨_, hLast, _⟩ := (Machine.always_append _ _ _ _ _).1 hRun
  exact hLast.after 1#3 0#24 (by decide +kernel)

end FetchUnit

end CompE.Prefetch
