import CompE.Mp2.Cache

/-!
# Runs of the two-way cache

The cache with its CPU and the memory behind it.  What the two hold together
is one memory (`Shows`): a live way keeps its line, and the rest is in memory.
The way that is being filled is not live.

A run loses bytes in three places, each for want of a signal: a store that
hits puts the memory's bus into the line, a fill takes only the bytes the CPU
enables, and a line is replaced without being written back, because no line is
ever dirty.  Where none of these makes a difference (`Keeps`) the loads are
right (`cache_runs`).
-/

namespace CompE.Mp2

open CompE.Library
open CompE.Caches (Addr SetIndex Line LineMem LineNo WordMem setIndex tagBits
  lineNo lineAt lineTag lineSet lanes wordNo words memWdata256 memByteEnable256)

namespace Cache

/-! ## One clock edge -/

/-- The four arrays that hold lines stand still. -/
structure SameLines (c c' : Cache) : Prop where
  data : ∀ w, (c'.data w).data = (c.data w).data
  tag : ∀ w, (c'.tag w).data = (c.tag w).data
  valid : ∀ w, (c'.valid w).data = (c.valid w).data
  dirty : ∀ w, (c'.dirty w).data = (c.dirty w).data

/-- The output registers show a set. -/
structure Latched (c : Cache) (s : SetIndex) : Prop where
  data : ∀ w, (c.data w).dataout = (c.data w).data s
  tag : ∀ w, (c.tag w).dataout = (c.tag w).data s
  valid : ∀ w, (c.valid w).dataout = (c.valid w).data s
  dirty : ∀ w, (c.dirty w).dataout = (c.dirty w).data s
  lru : c.lru.dataout = c.lru.data s

section Clock

variable {c : Cache} {r : Request} {resp : Bool} {d : Line}

/-- Without a load strobe the lines stay, and the registers follow. -/
theorem sameLines_of_controls
    (hData : (c.controls r resp).loadData = noWay)
    (hTag : (c.controls r resp).loadTag = noWay)
    (hValid : (c.controls r resp).setValid = noWay)
    (hDirty : (c.controls r resp).flushDirty = noWay) :
    SameLines c (c.clock r resp d) where
  data w := by simp [clock, writeEn, hData, noWay]
  tag w := by simp [clock, hTag, noWay]
  valid w := by simp [clock, hValid, noWay]
  dirty w := by simp [clock, hDirty, selDirty_eq, noWay]

private theorem clock_idle (h : c.state = .idle) (hReq : r.active = false) :
    (c.clock r resp d).state = .idle ∧ SameLines c (c.clock r resp d) := by
  have hControls : c.controls r resp = setDefaults .idle := by
    simp [controls, stateActions, h, hReq]
  refine ⟨?_, sameLines_of_controls ?_ ?_ ?_ ?_⟩
  · rw [clock, hControls]
    rfl
  all_goals
    rw [hControls]
    rfl

theorem clock_lookup (h : c.state = .idle) (hReq : r.active = true) :
    (c.clock r resp d).state = .hitDetected ∧
      SameLines c (c.clock r resp d) ∧
      Latched (c.clock r resp d) (setIndex r.memAddress) := by
  have hControls : c.controls r resp =
      { setDefaults .idle with readData := true, nextState := .hitDetected } := by
    simp [controls, stateActions, h, hReq]
  refine ⟨?_, sameLines_of_controls ?_ ?_ ?_ ?_, ?_⟩
  · rw [clock, hControls]
  · rw [hControls]
    rfl
  · rw [hControls]
    rfl
  · rw [hControls]
    rfl
  · rw [hControls]
    rfl
  · exact {
      data := fun w => by
        simp [clock, writeEn, hControls, setDefaults, noWay,
          CompE.Caches.DataArray.clock]
      tag := fun w => by
        simp [clock, hControls, setDefaults, noWay, CompE.Caches.TagArray.clock]
      valid := fun w => by
        simp [clock, hControls, setDefaults, noWay, CompE.Caches.TagArray.clock]
      dirty := fun w => by
        simp [clock, hControls, setDefaults, noWay, CompE.Caches.TagArray.clock]
      lru := by
        simp [clock, hControls, setDefaults, noWay, CompE.Caches.TagArray.clock] }

private theorem clock_read (h : c.state = .hitDetected) (hHit : c.hit r = true)
    (hRead : r.memRead = true) (hWrite : r.memWrite = false) :
    (c.clock r resp d).state = .idle ∧ SameLines c (c.clock r resp d) := by
  have hActive : r.active = true := by simp [Request.active, hRead]
  refine ⟨?_, sameLines_of_controls ?_ ?_ ?_ ?_⟩
  all_goals
    simp [clock, controls, stateActions, setDefaults, h, hHit, hActive, hWrite]

/-- A store that hits: the memory's bus goes into the way. -/
theorem clock_write (h : c.state = .hitDetected) (hHit : c.hit r = true)
    (hWrite : r.memWrite = true) :
    (c.clock r resp d).state = .idle ∧
      (∀ w, ((c.clock r resp d).tag w).data = (c.tag w).data) ∧
      (∀ w, ((c.clock r resp d).valid w).data = (c.valid w).data) ∧
      (∀ w, ((c.clock r resp d).dirty w).data = (c.dirty w).data) ∧
      ∀ w s, ((c.clock r resp d).data w).data s =
        if w = (!c.hitWay r false) ∧ s = setIndex r.memAddress then
          LaneMemory.merge (lanes (enables r)) d ((c.data w).data s)
        else (c.data w).data s := by
  have hActive : r.active = true := by simp [Request.active, hWrite]
  have hLoad : (c.controls r resp).loadData = oneWay (!c.hitWay r false) := by
    simp [controls, stateActions, h, hHit, hWrite]
  refine ⟨?_, ?_, ?_, ?_, ?_⟩
  · simp [clock, controls, stateActions, h, hHit, hActive]
  · intro w
    simp [clock, controls, stateActions, setDefaults, h, hHit, noWay]
  · intro w
    simp [clock, controls, stateActions, setDefaults, h, hHit, noWay]
  · intro w
    simp [clock, controls, stateActions, setDefaults, h, hHit, noWay]
  · intro w s
    simp only [clock, dataIn_eq, writeEn, hLoad, oneWay,
      CompE.Caches.DataArray.clock]
    cases w <;> cases c.hitWay r false <;>
      by_cases hs : s = setIndex r.memAddress <;>
      simp [hs, LaneMemory.store]

/-- A miss makes the least recently used way valid. -/
theorem clock_miss (h : c.state = .hitDetected) (hHit : c.hit r = false)
    (hLatched : Latched c (setIndex r.memAddress))
    (hClean : ∀ w s, (c.dirty w).data s = false) :
    (c.clock r resp d).state = .load ∧
      (∀ w, ((c.clock r resp d).data w).data = (c.data w).data) ∧
      (∀ w, ((c.clock r resp d).tag w).data = (c.tag w).data) ∧
      (∀ w, ((c.clock r resp d).dirty w).data = (c.dirty w).data) ∧
      (∀ w s, ((c.clock r resp d).valid w).data s =
        if w = c.lru.dataout ∧ s = setIndex r.memAddress then true
        else (c.valid w).data s) ∧
      (c.clock r resp d).lru.data = c.lru.data ∧
      (c.clock r resp d).lru.dataout = c.lru.data (setIndex r.memAddress) := by
  have hDirty : ∀ w, (c.dirty w).dataout = false := by
    intro w
    rw [hLatched.dirty, hClean]
  have hControls : c.controls r resp =
      { setDefaults .hitDetected with
        setValid := oneWay c.lru.dataout, nextState := .load } := by
    simp [controls, stateActions, h, hHit, hDirty]
  refine ⟨?_, ?_, ?_, ?_, ?_, ?_, ?_⟩
  · simp [clock, hControls]
  · intro w
    simp [clock, writeEn, hControls, setDefaults, noWay]
  · intro w
    simp [clock, hControls, setDefaults, noWay]
  · intro w
    simp [clock, hControls, setDefaults, noWay]
  · intro w s
    simp [clock, hControls, oneWay, CompE.Caches.TagArray.clock]
  · simp [clock, hControls, setDefaults, noWay]
  · simp [clock, hControls, setDefaults, noWay, CompE.Caches.TagArray.clock]

theorem clock_wait (h : c.state = .load) :
    (c.clock r false d).state = .load ∧ SameLines c (c.clock r false d) ∧
      (c.clock r false d).lru.data = c.lru.data ∧
      (c.clock r false d).lru.dataout = c.lru.data (setIndex r.memAddress) := by
  have hControls : c.controls r false =
      { setDefaults .load with pmemRead := true } := by
    simp [controls, stateActions, h]
  refine ⟨?_, sameLines_of_controls ?_ ?_ ?_ ?_, ?_, ?_⟩
  · rw [clock, hControls]
    rfl
  · rw [hControls]
    rfl
  · rw [hControls]
    rfl
  · rw [hControls]
    rfl
  · rw [hControls]
    rfl
  · simp [clock, hControls, setDefaults, noWay]
  · simp [clock, hControls, setDefaults, noWay, CompE.Caches.TagArray.clock]

/-- The answer fills the enabled bytes. -/
theorem clock_fill (h : c.state = .load) :
    (c.clock r true d).state = .idle ∧
      (∀ w, ((c.clock r true d).valid w).data = (c.valid w).data) ∧
      (∀ w, ((c.clock r true d).dirty w).data = (c.dirty w).data) ∧
      (∀ w s, ((c.clock r true d).tag w).data s =
        if w = c.lru.dataout ∧ s = setIndex r.memAddress then
          tagBits r.memAddress
        else (c.tag w).data s) ∧
      ∀ w s, ((c.clock r true d).data w).data s =
        if w = c.lru.dataout ∧ s = setIndex r.memAddress then
          LaneMemory.merge (lanes (enables r)) d ((c.data w).data s)
        else (c.data w).data s := by
  have hControls : c.controls r true =
      { setDefaults .load with
        loadData := oneWay c.lru.dataout
        loadTag := oneWay c.lru.dataout
        nextState := .idle } := by
    simp [controls, stateActions, h]
  refine ⟨?_, ?_, ?_, ?_, ?_⟩
  · simp [clock, hControls]
  · intro w
    simp [clock, hControls, setDefaults, noWay]
  · intro w
    simp [clock, hControls, setDefaults, noWay]
  · intro w s
    simp [clock, hControls, oneWay, CompE.Caches.TagArray.clock]
  · intro w s
    simp only [clock, dataIn_eq, writeEn, hControls, oneWay,
      CompE.Caches.DataArray.clock]
    cases w <;> cases c.lru.dataout <;>
      by_cases hs : s = setIndex r.memAddress <;>
      simp [hs, LaneMemory.store]

end Clock

/-! ## The cache and its memory as one memory -/

/-- Way `w` of set `s` holds a line.  The way that is filled for address `a`
holds none, although it is valid already. -/
def Live (c : Cache) (a : Addr) (w : Bool) (s : SetIndex) : Prop :=
  (c.valid w).data s = true ∧
    ¬ (c.state = .load ∧ w = c.lru.dataout ∧ s = setIndex a)

/-- The line that a way names. -/
def lineOf (c : Cache) (w : Bool) (s : SetIndex) : LineNo :=
  lineAt ((c.tag w).data s) s

/-- A cache that serves address `a` in front of memory `m` shows `t`. -/
structure Shows (c : Cache) (a : Addr) (m t : LineMem) : Prop where
  kept : ∀ w s, c.Live a w s → (c.data w).data s = t (c.lineOf w s)
  rest : ∀ l, (∀ w s, c.Live a w s → c.lineOf w s ≠ l) → t l = m l
  distinct : ∀ w w' s, c.Live a w s → c.Live a w' s →
    c.lineOf w s = c.lineOf w' s → w = w'
  clean : ∀ w s, (c.dirty w).data s = false
  latched : c.state = .hitDetected → Latched c (setIndex a)
  /-- The line that is fetched is in no way. -/
  absent : c.state = .load → ∀ w s, c.Live a w s → c.lineOf w s ≠ lineNo a
  victim : c.state = .load → c.lru.dataout = c.lru.data (setIndex a)
  noStore : c.state ≠ .store

private theorem live_of_ne_load {c : Cache} (h : c.state ≠ .load) (a : Addr) (w : Bool)
    (s : SetIndex) : c.Live a w s ↔ (c.valid w).data s = true := by
  simp [Live, h]

private theorem lineOf_set {c : Cache} {w : Bool} {s : SetIndex} {a : Addr}
    (h : c.lineOf w s = lineNo a) :
    s = setIndex a ∧ (c.tag w).data s = tagBits a := by
  rw [eq_comm, lineOf, CompE.Caches.eq_lineAt_iff] at h
  simpa [eq_comm, and_comm] using h

/-- The line that a store finds in the way that hits. -/
def writtenLine (c : Cache) (r : Request) : Line :=
  (c.data (!c.hitWay r false)).data (setIndex r.memAddress)

/-- The line that a miss finds in the way to be replaced. -/
def replacedLine (c : Cache) (r : Request) : Line :=
  (c.data c.lru.dataout).data (setIndex r.memAddress)

/-- A way that hits is live and names the line of the request. -/
theorem live_of_hitWay {c : Cache} {r : Request} {w : Bool}
    (h : c.state = .hitDetected)
    (hLatched : Latched c (setIndex r.memAddress))
    (hHit : c.hitWay r w = true) :
    c.Live r.memAddress w (setIndex r.memAddress) ∧
      c.lineOf w (setIndex r.memAddress) = lineNo r.memAddress := by
  rw [hitWay, hLatched.valid, hLatched.tag, Bool.and_eq_true, beq_iff_eq] at hHit
  refine ⟨(live_of_ne_load (by simp [h]) _ _ _).2 hHit.1, ?_⟩
  rw [lineOf, hHit.2, CompE.Caches.lineNo_eq]

/-- The way that hits. -/
theorem hitWay_of_hit {c : Cache} {r : Request} (hHit : c.hit r = true) :
    c.hitWay r (!c.hitWay r false) = true := by
  cases h : c.hitWay r false with
  | true => exact h
  | false => simpa [hit, h] using hHit

/-- Without a hit the line of the request is in no way. -/
theorem absent_of_miss {c : Cache} {r : Request} {w : Bool} {s : SetIndex}
    (hLatched : Latched c (setIndex r.memAddress)) (hHit : c.hit r = false)
    (hLive : c.Live r.memAddress w s) : c.lineOf w s ≠ lineNo r.memAddress := by
  intro hLine
  obtain ⟨rfl, hTag⟩ := lineOf_set hLine
  have hWay : c.hitWay r w = true := by
    rw [hitWay, hLatched.valid, hLatched.tag, hLive.1, hTag]
    simp
  rw [hit, Bool.or_eq_false_iff] at hHit
  cases w with
  | false => simp [hHit.1] at hWay
  | true => simp [hHit.2] at hWay

section Shows

variable {c c' : Cache} {a : Addr} {m t : LineMem}

/-- Between requests any address may come next. -/
theorem Shows.of_idle (hShows : Shows c a m t) (h : c.state = .idle)
    (a' : Addr) : Shows c a' m t := by
  have hLive : ∀ w s, c.Live a' w s ↔ c.Live a w s := by
    intro w s
    rw [live_of_ne_load (by simp [h]), live_of_ne_load (by simp [h])]
  exact {
    kept := fun w s hw => hShows.kept w s ((hLive w s).1 hw)
    rest := fun l hl => hShows.rest l fun w s hw => hl w s ((hLive w s).2 hw)
    distinct := fun w w' s hw hw' =>
      hShows.distinct w w' s ((hLive w s).1 hw) ((hLive w' s).1 hw')
    clean := hShows.clean
    latched := by simp [h]
    absent := by simp [h]
    victim := by simp [h]
    noStore := by simp [h] }

/-- Cycles in which the lines and the live ways stay. -/
theorem Shows.of_sameLines (hShows : Shows c a m t) (hSame : SameLines c c')
    (hLive : ∀ w s, c'.Live a w s ↔ c.Live a w s)
    (hLatched : c'.state = .hitDetected → Latched c' (setIndex a))
    (hLoad : c'.state = .load →
      c.state = .load ∧ c'.lru.dataout = c'.lru.data (setIndex a))
    (hNoStore : c'.state ≠ .store) : Shows c' a m t := by
  have hLine : ∀ w s, c'.lineOf w s = c.lineOf w s := by
    intro w s
    rw [lineOf, lineOf, hSame.tag]
  exact {
    kept := by
      intro w s hw
      rw [hSame.data, hLine]
      exact hShows.kept w s ((hLive w s).1 hw)
    rest := by
      intro l hl
      apply hShows.rest l
      intro w s hw
      rw [← hLine]
      exact hl w s ((hLive w s).2 hw)
    distinct := by
      intro w w' s hw hw'
      rw [hLine, hLine]
      exact hShows.distinct w w' s ((hLive w s).1 hw) ((hLive w' s).1 hw')
    clean := by
      intro w s
      rw [hSame.dirty]
      exact hShows.clean w s
    latched := hLatched
    absent := by
      intro h w s hw
      rw [hLine]
      exact hShows.absent (hLoad h).1 w s ((hLive w s).1 hw)
    victim := fun h => (hLoad h).2
    noStore := hNoStore }

end Shows

section Step

variable {c : Cache} {r : Request} {d : Line} {m t : LineMem}

/-- Looking up, and a hit that reads. -/
theorem Shows.clock_same {resp : Bool} (hShows : Shows c r.memAddress m t)
    (h : c.state ≠ .load) (hSame : SameLines c (c.clock r resp d))
    (hNext : (c.clock r resp d).state = .idle ∨
      (c.clock r resp d).state = .hitDetected ∧
        Latched (c.clock r resp d) (setIndex r.memAddress)) :
    Shows (c.clock r resp d) r.memAddress m t := by
  have hNotLoad : (c.clock r resp d).state ≠ .load := by
    rcases hNext with hNext | ⟨hNext, _⟩ <;> simp [hNext]
  apply hShows.of_sameLines hSame
  · intro w s
    rw [live_of_ne_load hNotLoad, live_of_ne_load h, hSame.valid]
  · intro hHit
    rcases hNext with hNext | ⟨_, hLatched⟩
    · simp [hNext] at hHit
    · exact hLatched
  · intro hLoad
    exact absurd hLoad hNotLoad
  · rcases hNext with hNext | ⟨hNext, _⟩ <;> simp [hNext]

theorem Shows.clock_wait (hShows : Shows c r.memAddress m t)
    (h : c.state = .load) : Shows (c.clock r false d) r.memAddress m t := by
  obtain ⟨hState, hSame, hLruData, hLru⟩ := @Cache.clock_wait c r d h
  have hVictim := hShows.victim h
  apply hShows.of_sameLines hSame
  · intro w s
    rw [Live, Live, hState, h, hSame.valid, hLru, hVictim]
  · simp [hState]
  · intro _
    refine ⟨h, ?_⟩
    rw [hLru, hLruData]
  · simp [hState]

/-- A store that hits is kept if the bus carries its bytes. -/
theorem Shows.clock_write {resp : Bool} (hShows : Shows c r.memAddress m t)
    (h : c.state = .hitDetected) (hHit : c.hit r = true)
    (hWrite : r.memWrite = true)
    (hKeeps : LaneMemory.merge (lanes (enables r)) d (c.writtenLine r) =
      LaneMemory.merge (lanes (memByteEnable256 r.memByteEnable r.memAddress))
        (memWdata256 r.memWdata) (c.writtenLine r)) :
    Shows (c.clock r resp d) r.memAddress m
      (LaneMemory.store t (lineNo r.memAddress)
        (lanes (memByteEnable256 r.memByteEnable r.memAddress))
        (memWdata256 r.memWdata)) := by
  obtain ⟨hState, hTag, hValid, hDirty, hData⟩ :=
    @Cache.clock_write c r resp d h hHit hWrite
  obtain ⟨hWayLive, hWayLine⟩ :=
    live_of_hitWay h (hShows.latched h) (hitWay_of_hit hHit)
  have hLive : ∀ w s, (c.clock r resp d).Live r.memAddress w s ↔
      c.Live r.memAddress w s := by
    intro w s
    rw [live_of_ne_load (by simp [hState]), live_of_ne_load (by simp [h]), hValid]
  have hLine : ∀ w s, (c.clock r resp d).lineOf w s = c.lineOf w s := by
    intro w s
    rw [lineOf, lineOf, hTag]
  exact {
    kept := by
      intro w s hw
      rw [hLive] at hw
      rw [hData, hLine]
      by_cases hThis : w = (!c.hitWay r false) ∧ s = setIndex r.memAddress
      · obtain ⟨rfl, rfl⟩ := hThis
        have hOld := hShows.kept _ _ hw
        rw [hWayLine] at hOld
        rw [if_pos ⟨rfl, rfl⟩, hWayLine, LaneMemory.store_self, ← hOld]
        exact hKeeps
      · have hOther : c.lineOf w s ≠ lineNo r.memAddress := by
          intro hEq
          obtain ⟨rfl, _⟩ := lineOf_set hEq
          exact hThis ⟨hShows.distinct _ _ _ hw hWayLive
            (hEq.trans hWayLine.symm), rfl⟩
        rw [if_neg hThis, LaneMemory.store_of_ne _ _ _ hOther]
        exact hShows.kept w s hw
    rest := by
      intro l hl
      have hNe : l ≠ lineNo r.memAddress := by
        intro hEq
        apply hl _ _ ((hLive _ _).2 hWayLive)
        rw [hLine, hWayLine, hEq]
      rw [LaneMemory.store_of_ne _ _ _ hNe]
      apply hShows.rest l
      intro w s hw
      rw [← hLine]
      exact hl w s ((hLive w s).2 hw)
    distinct := by
      intro w w' s hw hw'
      rw [hLine, hLine]
      exact hShows.distinct w w' s ((hLive w s).1 hw) ((hLive w' s).1 hw')
    clean := by
      intro w s
      rw [hDirty]
      exact hShows.clean w s
    latched := by simp [hState]
    absent := by simp [hState]
    victim := by simp [hState]
    noStore := by simp [hState] }

/-- A miss drops a line; nothing is lost if memory has the same. -/
theorem Shows.clock_miss {resp : Bool} (hShows : Shows c r.memAddress m t)
    (h : c.state = .hitDetected) (hHit : c.hit r = false)
    (hKeeps : (c.valid c.lru.dataout).data (setIndex r.memAddress) = true →
      c.replacedLine r = m (c.lineOf c.lru.dataout (setIndex r.memAddress))) :
    Shows (c.clock r resp d) r.memAddress m t := by
  have hLatched := hShows.latched h
  obtain ⟨hState, hData, hTag, hDirty, hValid, hLruData, hLru⟩ :=
    @Cache.clock_miss c r resp d h hHit hLatched hShows.clean
  have hLive : ∀ w s, (c.clock r resp d).Live r.memAddress w s ↔
      c.Live r.memAddress w s ∧
        ¬ (w = c.lru.dataout ∧ s = setIndex r.memAddress) := by
    intro w s
    have hOld : c.Live r.memAddress w s ↔ (c.valid w).data s = true :=
      live_of_ne_load (by simp [h]) _ _ _
    rw [hOld, Live, hState, hValid, hLru, hLatched.lru]
    by_cases hThis : w = c.lru.data (setIndex r.memAddress) ∧
        s = setIndex r.memAddress
    · simp [hThis]
    · simp [hThis]
  have hLine : ∀ w s, (c.clock r resp d).lineOf w s = c.lineOf w s := by
    intro w s
    rw [lineOf, lineOf, hTag]
  exact {
    kept := by
      intro w s hw
      rw [hData, hLine]
      exact hShows.kept w s ((hLive w s).1 hw).1
    rest := by
      intro l hl
      by_cases hDropped : c.Live r.memAddress c.lru.dataout
          (setIndex r.memAddress) ∧
          c.lineOf c.lru.dataout (setIndex r.memAddress) = l
      · obtain ⟨hWay, rfl⟩ := hDropped
        rw [← hShows.kept _ _ hWay]
        exact hKeeps hWay.1
      · apply hShows.rest l
        intro w s hw hEq
        by_cases hThis : w = c.lru.dataout ∧ s = setIndex r.memAddress
        · obtain ⟨rfl, rfl⟩ := hThis
          exact hDropped ⟨hw, hEq⟩
        · rw [← hLine] at hEq
          exact hl w s ((hLive w s).2 ⟨hw, hThis⟩) hEq
    distinct := by
      intro w w' s hw hw'
      rw [hLine, hLine]
      exact hShows.distinct w w' s ((hLive w s).1 hw).1 ((hLive w' s).1 hw').1
    clean := by
      intro w s
      rw [hDirty]
      exact hShows.clean w s
    latched := by simp [hState]
    absent := by
      intro _ w s hw
      rw [hLine]
      exact absent_of_miss hLatched hHit ((hLive w s).1 hw).1
    victim := by
      intro _
      rw [hLru, hLruData]
    noStore := by simp [hState] }

/-- A fill is right if it makes the way the memory's line. -/
theorem Shows.clock_fill (hShows : Shows c r.memAddress m t)
    (h : c.state = .load)
    (hKeeps : LaneMemory.merge (lanes (enables r)) d (c.replacedLine r) =
      m (lineNo r.memAddress)) :
    Shows (c.clock r true d) r.memAddress m t := by
  obtain ⟨hState, hValid, hDirty, hTag, hData⟩ := @Cache.clock_fill c r d h
  have hMissing : t (lineNo r.memAddress) = m (lineNo r.memAddress) :=
    hShows.rest _ (hShows.absent h)
  have hLive : ∀ w s, (c.clock r true d).Live r.memAddress w s →
      (w = c.lru.dataout ∧ s = setIndex r.memAddress) ∨
        ¬ (w = c.lru.dataout ∧ s = setIndex r.memAddress) ∧
          c.Live r.memAddress w s := by
    intro w s hw
    rw [live_of_ne_load (by simp [hState]), hValid] at hw
    by_cases hThis : w = c.lru.dataout ∧ s = setIndex r.memAddress
    · exact Or.inl hThis
    · exact Or.inr ⟨hThis, hw, fun hLoad => hThis hLoad.2⟩
  have hFilled : (c.clock r true d).lineOf c.lru.dataout
      (setIndex r.memAddress) = lineNo r.memAddress := by
    rw [lineOf, hTag, if_pos ⟨rfl, rfl⟩, CompE.Caches.lineNo_eq]
  have hLine : ∀ w s, ¬ (w = c.lru.dataout ∧ s = setIndex r.memAddress) →
      (c.clock r true d).lineOf w s = c.lineOf w s := by
    intro w s hThis
    rw [lineOf, lineOf, hTag, if_neg hThis]
  exact {
    kept := by
      intro w s hw
      rcases hLive w s hw with ⟨rfl, rfl⟩ | ⟨hThis, hOld⟩
      · rw [hData, if_pos ⟨rfl, rfl⟩, hFilled, hMissing]
        exact hKeeps
      · rw [hData, if_neg hThis, hLine w s hThis]
        exact hShows.kept w s hOld
    rest := by
      intro l hl
      apply hShows.rest l
      intro w s hw
      have hThis : ¬ (w = c.lru.dataout ∧ s = setIndex r.memAddress) :=
        fun hThis => hw.2 ⟨h, hThis⟩
      rw [← hLine w s hThis]
      apply hl
      rw [live_of_ne_load (by simp [hState]), hValid]
      exact hw.1
    distinct := by
      intro w w' s hw hw' hEq
      rcases hLive w s hw with ⟨rfl, rfl⟩ | ⟨hThis, hOld⟩
      · rcases hLive w' _ hw' with ⟨rfl, _⟩ | ⟨hThis', hOld'⟩
        · rfl
        · rw [hFilled, hLine _ _ hThis'] at hEq
          exact absurd hEq.symm (hShows.absent h _ _ hOld')
      · rcases hLive w' s hw' with ⟨rfl, rfl⟩ | ⟨hThis', hOld'⟩
        · rw [hFilled, hLine _ _ hThis] at hEq
          exact absurd hEq (hShows.absent h _ _ hOld)
        · rw [hLine _ _ hThis, hLine _ _ hThis'] at hEq
          exact hShows.distinct w w' s hOld hOld' hEq
    clean := by
      intro w s
      rw [hDirty]
      exact hShows.clean w s
    latched := by simp [hState]
    absent := by simp [hState]
    victim := by simp [hState]
    noStore := by simp [hState] }

end Step

end Cache

/-! ## The system -/

/-- What the CPU observes. -/
abbrev WordEvent := LaneMemory.Event CompE.Caches.WordNo (Fin 4) (BitVec 8)

/-- The cache, the memory behind it, and the request that awaits `mem_resp`. -/
structure System where
  cache : Cache
  mem : LineMem
  pending : Option Request

/-- One cycle of the CPU and the memory.  `bus` is on `pmem_rdata` while the
memory does not answer. -/
structure Cycle where
  req : Request
  pmemResp : Bool
  pmemAddress : Addr
  bus : Line

namespace System

/-- The memory answers with the line of the address it sees. -/
def pmemRdata (s : System) (i : Cycle) : Line :=
  if i.pmemResp then s.mem (lineNo i.pmemAddress) else i.bus

/-- In `STORE` the memory takes a line with its answer. -/
def memAfter (s : System) (i : Cycle) : LineMem :=
  if s.cache.state = .store ∧ i.pmemResp = true then
    LaneMemory.store s.mem (lineNo i.pmemAddress) (fun _ => true)
      (s.cache.pmemWdata i.req)
  else s.mem

def step (s : System) (i : Cycle) : System where
  cache := s.cache.clock i.req i.pmemResp (s.pmemRdata i)
  mem := s.memAfter i
  pending :=
    if i.req.active && !s.cache.memResp i.req i.pmemResp then some i.req
    else none

/-- The CPU's side of a cycle. -/
def emit (s : System) (i : Cycle) : List WordEvent :=
  if s.cache.memResp i.req i.pmemResp then
    if i.req.memWrite then
      [.store (wordNo i.req.memAddress) (fun j => i.req.memByteEnable.getLsbD j)
        i.req.memWdata]
    else [.load (wordNo i.req.memAddress) (s.cache.memRdata i.req)]
  else []

/-- The CPU reads or writes, not both, and holds a request until it is
acknowledged. -/
def legal (s : System) (i : Cycle) : Prop :=
  ¬ (i.req.memRead = true ∧ i.req.memWrite = true) ∧
    ∀ r, s.pending = some r → i.req = r

def machine : Machine System Cycle WordEvent where
  step := step
  emit := emit
  legal := legal

/-- Power-up: no request pending. -/
def boot (c : Cache) (m : LineMem) : System := ⟨c, m, none⟩

/-- The cycle loses no byte. -/
structure Keeps (s : System) (i : Cycle) : Prop where
  /-- A fill: the line the memory answers with and the bytes that are not
  enabled make up the line of the request. -/
  fill : s.cache.state = .load → i.pmemResp = true →
    ∀ j, LaneMemory.merge (lanes (Cache.enables i.req)) (s.pmemRdata i)
        (s.cache.replacedLine i.req) j = s.mem (lineNo i.req.memAddress) j
  /-- A store that hits: the memory's bus carries its bytes. -/
  write : s.cache.state = .hitDetected → s.cache.hit i.req = true →
    i.req.memWrite = true →
    ∀ j, LaneMemory.merge (lanes (Cache.enables i.req)) (s.pmemRdata i)
        (s.cache.writtenLine i.req) j =
      LaneMemory.merge
        (lanes (memByteEnable256 i.req.memByteEnable i.req.memAddress))
        (memWdata256 i.req.memWdata) (s.cache.writtenLine i.req) j
  /-- A miss: the line to be replaced is the memory's, or not valid. -/
  miss : s.cache.state = .hitDetected → s.cache.hit i.req = false →
    (s.cache.valid s.cache.lru.dataout).data (setIndex i.req.memAddress) = true →
    ∀ j, s.cache.replacedLine i.req j =
      s.mem (s.cache.lineOf s.cache.lru.dataout (setIndex i.req.memAddress)) j

/-- The relation between the system and the flat memory of lines. -/
structure Related (s : System) (t : LineMem) : Prop where
  shows : ∃ a, s.cache.Shows a s.mem t
  pending : ∀ r, s.pending = some r →
    r.active = true ∧ s.cache.Shows r.memAddress s.mem t
  idle : s.pending = none → s.cache.state = .idle

theorem Related.boot {c : Cache} (h : c.IsPowerUp) (m : LineMem) :
    Related (boot c m) m where
  shows := by
    have hNone : ∀ w s, ¬ c.Live 0#32 w s := by
      intro w s hw
      rw [Cache.Live, h.valid] at hw
      exact absurd hw.1 (by decide)
    exact ⟨0#32, {
      kept := fun w s hw => absurd hw (hNone w s)
      rest := fun _ _ => rfl
      distinct := fun w _ s hw => absurd hw (hNone w s)
      clean := h.dirty
      latched := fun hState => by simp [System.boot, h.state] at hState
      absent := fun hState => by simp [System.boot, h.state] at hState
      victim := fun hState => by simp [System.boot, h.state] at hState
      noStore := by simp [System.boot, h.state] }⟩
  pending := by simp [System.boot]
  idle := fun _ => h.state

/-- The cache is ready for whatever the CPU legally drives. -/
theorem Related.ready {s : System} {t : LineMem} {i : Cycle}
    (hRel : Related s t) (hLegal : legal s i) :
    s.cache.Shows i.req.memAddress s.mem t ∧
      (s.cache.state ≠ .idle → i.req.active = true) := by
  cases hPending : s.pending with
  | none =>
      have hIdle := hRel.idle hPending
      obtain ⟨a, hShows⟩ := hRel.shows
      exact ⟨hShows.of_idle hIdle _, fun h => absurd hIdle h⟩
  | some r =>
      obtain ⟨hActive, hShows⟩ := hRel.pending r hPending
      rw [hLegal.2 r hPending]
      exact ⟨hShows, fun _ => hActive⟩

/-- The flat memory of lines behind a cycle. -/
def lineAfter (s : System) (i : Cycle) (t : LineMem) : LineMem :=
  if s.cache.memResp i.req i.pmemResp && i.req.memWrite then
    LaneMemory.store t (lineNo i.req.memAddress)
      (lanes (memByteEnable256 i.req.memByteEnable i.req.memAddress))
      (memWdata256 i.req.memWdata)
  else t

theorem memResp_eq (c : Cache) (r : Request) (resp : Bool) :
    c.memResp r resp =
      (decide (c.state = .hitDetected) && c.hit r && r.active) := by
  rw [Cache.memResp, Cache.controls]
  cases hState : c.state with
  | hitDetected =>
      cases hHit : c.hit r with
      | true => simp [stateActions]
      | false =>
          simp only [stateActions]
          split
          · contradiction
          · split <;> rfl
  | _ =>
      simp only [stateActions]
      split <;> rfl

section Step

variable {s : System} {t : LineMem} {i : Cycle}

/-- The flat memory of words takes the same step. -/
theorem after_emit (s : System) (i : Cycle) (t : LineMem) :
    (LaneMemory.flat _ _ _).after (words t) (s.emit i) =
      words (s.lineAfter i t) := by
  rw [emit, lineAfter]
  cases hResp : s.cache.memResp i.req i.pmemResp with
  | false => rfl
  | true =>
      cases hWrite : i.req.memWrite with
      | false => rfl
      | true =>
          simp only [Bool.and_self, if_true]
          rw [CompE.Caches.words_store]
          rfl

/-- An acknowledged load has the word of the flat memory. -/
theorem accepts_emit (hShows : s.cache.Shows i.req.memAddress s.mem t) :
    (LaneMemory.flat _ _ _).Accepts (words t) (s.emit i) := by
  rw [emit]
  split
  · next hResp =>
      split
      · exact ⟨trivial, trivial⟩
      · rw [memResp_eq, Bool.and_eq_true, Bool.and_eq_true,
          decide_eq_true_eq] at hResp
        obtain ⟨⟨hState, hHit⟩, _⟩ := hResp
        have hLatched := hShows.latched hState
        obtain ⟨hLive, hLine⟩ := Cache.live_of_hitWay hState hLatched
          (Cache.hitWay_of_hit hHit)
        have hRead : s.cache.pmemWdata i.req = t (lineNo i.req.memAddress) := by
          rw [← hLine, ← hShows.kept _ _ hLive, ← hLatched.data, Cache.pmemWdata]
          cases s.cache.hitWay i.req false <;> rfl
        refine ⟨fun j => ?_, trivial⟩
        rw [Cache.memRdata, hRead, CompE.Caches.memRdata_line]
  · trivial

/-- A cycle that loses nothing keeps what is shown. -/
theorem shows_step (hShows : s.cache.Shows i.req.memAddress s.mem t)
    (hHeld : s.cache.state ≠ .idle → i.req.active = true)
    (hKeeps : Keeps s i) :
    (s.step i).cache.Shows i.req.memAddress (s.step i).mem (s.lineAfter i t) := by
  have hMem : (s.step i).mem = s.mem := by
    show s.memAfter i = s.mem
    rw [memAfter, if_neg fun h => hShows.noStore h.1]
  rw [hMem]
  show (s.cache.clock i.req i.pmemResp (s.pmemRdata i)).Shows _ _ _
  rw [lineAfter, memResp_eq]
  cases hState : s.cache.state with
  | idle =>
      simp only [decide_false, Bool.false_and, reduceCtorEq]
      cases hActive : i.req.active with
      | false =>
          obtain ⟨hNext, hSame⟩ := @Cache.clock_idle s.cache i.req i.pmemResp
            (s.pmemRdata i) hState hActive
          exact hShows.clock_same (by simp [hState]) hSame (Or.inl hNext)
      | true =>
          obtain ⟨hNext, hSame, hLatched⟩ := @Cache.clock_lookup s.cache i.req
            i.pmemResp (s.pmemRdata i) hState hActive
          exact hShows.clock_same (by simp [hState]) hSame
            (Or.inr ⟨hNext, hLatched⟩)
  | hitDetected =>
      have hActive := hHeld (by simp [hState])
      cases hHit : s.cache.hit i.req with
      | false =>
          exact hShows.clock_miss hState hHit fun hValid =>
            funext (hKeeps.miss hState hHit hValid)
      | true =>
          cases hWrite : i.req.memWrite with
          | true =>
              simp only [hActive, decide_true, Bool.and_self, if_true]
              exact hShows.clock_write hState hHit hWrite
                (funext (hKeeps.write hState hHit hWrite))
          | false =>
              have hRead : i.req.memRead = true := by
                simpa [Request.active, hWrite] using hActive
              obtain ⟨hNext, hSame⟩ := @Cache.clock_read s.cache i.req
                i.pmemResp (s.pmemRdata i) hState hHit hRead hWrite
              rw [Bool.and_false]
              exact hShows.clock_same (by simp [hState]) hSame (Or.inl hNext)
  | load =>
      simp only [decide_false, Bool.false_and, reduceCtorEq]
      cases hResp : i.pmemResp with
      | false => exact hShows.clock_wait hState
      | true => exact hShows.clock_fill hState (funext (hKeeps.fill hState hResp))
  | store => exact absurd hState hShows.noStore

/-- An acknowledged request, or none, leaves the cache in `IDLE`. -/
theorem idle_step (hHeld : s.cache.state ≠ .idle → i.req.active = true)
    (hDone : (s.step i).pending = none) : (s.step i).cache.state = .idle := by
  cases hActive : i.req.active with
  | false =>
      have hIdle : s.cache.state = .idle := by
        apply Decidable.byContradiction
        intro h
        rw [hHeld h] at hActive
        cases hActive
      exact (Cache.clock_idle hIdle hActive).1
  | true =>
      have hResp : s.cache.memResp i.req i.pmemResp = true := by
        simpa [step, hActive] using hDone
      rw [memResp_eq, Bool.and_eq_true, Bool.and_eq_true,
        decide_eq_true_eq] at hResp
      obtain ⟨⟨hState, hHit⟩, _⟩ := hResp
      show (s.cache.clock _ _ _).state = _
      rw [Cache.clock, Cache.controls, hState]
      simp [stateActions, hHit, hActive]

theorem Related.step (hRel : Related s t) (hLegal : legal s i)
    (hKeeps : Keeps s i) : Related (s.step i) (s.lineAfter i t) := by
  obtain ⟨hShows, hHeld⟩ := hRel.ready hLegal
  have hNext := shows_step hShows hHeld hKeeps
  refine ⟨⟨_, hNext⟩, ?_, idle_step hHeld⟩
  intro r hPending
  simp only [System.step] at hPending
  split at hPending
  · next hWait =>
      cases hPending
      rw [Bool.and_eq_true] at hWait
      exact ⟨hWait.1, hNext⟩
  · cases hPending

end Step

instance decidableKeeps (s : System) (i : Cycle) : Decidable (Keeps s i) :=
  have (f g : Line) : Decidable (∀ j, f j = g j) := Nat.decidableForallFin _
  decidable_of_iff
    ((s.cache.state = .load → i.pmemResp = true → ∀ _, _ = _) ∧
      (s.cache.state = .hitDetected → s.cache.hit i.req = true →
        i.req.memWrite = true → ∀ _, _ = _) ∧
      (s.cache.state = .hitDetected → s.cache.hit i.req = false →
        (s.cache.valid s.cache.lru.dataout).data (setIndex i.req.memAddress) =
          true → ∀ _, _ = _))
    ⟨fun ⟨hFill, hWrite, hMiss⟩ => ⟨hFill, hWrite, hMiss⟩,
      fun h => ⟨h.fill, h.write, h.miss⟩⟩

/--
**The loads of a run.**  For every initial memory, and every run from power-up
in which the CPU holds its requests and the memory answers when it likes: if no
cycle loses a byte, then every load returns the latest stored bytes.
-/
theorem cache_runs {c : Cache} (hPowerUp : c.IsPowerUp) (m : LineMem)
    (is : List Cycle) (hLegal : machine.Legal (boot c m) is)
    (hKeeps : machine.Always Keeps (boot c m) is) :
    LaneMemory.ReadsLatest (words m) (machine.events (boot c m) is) := by
  have hRestricted : (machine.restrict Keeps).Legal (boot c m) is :=
    (machine.restrict_legal Keeps _ is).2 ⟨hLegal, hKeeps⟩
  have hAcc := ((machine.restrict Keeps).simulates (LaneMemory.flat _ _ _)
    (R := fun s t => ∃ u, t = words u ∧ Related s u)
    (fun s t i hRel hStep => by
      obtain ⟨u, rfl, hRel⟩ := hRel
      refine ⟨accepts_emit (hRel.ready hStep.1).1, ?_⟩
      exact ⟨s.lineAfter i u, after_emit s i u, hRel.step hStep.1 hStep.2⟩)
    is _ _ ⟨m, rfl, Related.boot hPowerUp m⟩ hRestricted).1
  rw [machine.restrict_events] at hAcc
  exact (LaneMemory.accepts_iff_readsLatest _ _).1 hAcc

/-- Every array zero. -/
def zeroed : Cache where
  state := .idle
  data := fun _ => ⟨fun _ _ => 0#8, fun _ => 0#8⟩
  tag := fun _ => ⟨fun _ => 0#24, 0#24⟩
  valid := fun _ => ⟨fun _ => false, false⟩
  dirty := fun _ => ⟨fun _ => false, false⟩
  lru := ⟨fun _ => false, false⟩

private theorem zeroed_isPowerUp : zeroed.IsPowerUp where
  state := rfl
  valid := fun _ _ => rfl
  dirty := fun _ _ => rfl

/-- A load of word 0, and a store of nines to its enabled bytes. -/
def lw (mbe : BitVec 4) : Request := ⟨true, false, mbe, 0#32, fun _ => 0#8⟩

def sw (mbe : BitVec 4) : Request := ⟨false, true, mbe, 0#32, fun _ => 9#8⟩

/-- A load without enables fills line 0, the bus carries the bytes of the
store, and the last load has them. -/
def luckyRun : List Cycle :=
  [⟨lw 0#4, false, 0#32, fun _ => 0#8⟩, ⟨lw 0#4, false, 0#32, fun _ => 0#8⟩,
    ⟨lw 0#4, false, 0#32, fun _ => 0#8⟩, ⟨lw 0#4, true, 0#32, fun _ => 0#8⟩,
    ⟨lw 0#4, false, 0#32, fun _ => 0#8⟩, ⟨lw 0#4, false, 0#32, fun _ => 0#8⟩,
    ⟨sw 3#4, false, 0#32, fun _ => 9#8⟩, ⟨sw 3#4, false, 0#32, fun _ => 9#8⟩,
    ⟨lw 0#4, false, 0#32, fun _ => 0#8⟩, ⟨lw 0#4, false, 0#32, fun _ => 0#8⟩]

private theorem luckyRun_legal :
    machine.Legal (boot zeroed fun _ _ => 7#8) luckyRun := by
  simp [luckyRun, Machine.Legal, Machine.Always, machine, legal, boot, step, lw,
    sw, Request.active]
  decide

theorem cache_runs_lucky :
    LaneMemory.ReadsLatest (words fun _ _ => 7#8)
      (machine.events (boot zeroed fun _ _ => 7#8) luckyRun) :=
  cache_runs zeroed_isPowerUp _ _ luckyRun_legal (by decide)

/-- A store of two bytes, which misses first, and a load of its word.  The
address is right, and the bus is zero when the memory does not answer. -/
def storeRun : List Cycle :=
  [⟨sw 3#4, false, 0#32, fun _ => 0#8⟩, ⟨sw 3#4, false, 0#32, fun _ => 0#8⟩,
    ⟨sw 3#4, false, 0#32, fun _ => 0#8⟩, ⟨sw 3#4, true, 0#32, fun _ => 0#8⟩,
    ⟨sw 3#4, false, 0#32, fun _ => 0#8⟩, ⟨sw 3#4, false, 0#32, fun _ => 0#8⟩,
    ⟨lw 15#4, false, 0#32, fun _ => 0#8⟩, ⟨lw 15#4, false, 0#32, fun _ => 0#8⟩]

private theorem storeRun_legal :
    machine.Legal (boot zeroed fun _ _ => 7#8) storeRun := by
  simp [storeRun, Machine.Legal, Machine.Always, machine, legal, boot, step, lw,
    sw, Request.active]
  decide

/-- The store is lost: the load has the bytes of the bus. -/
theorem cache_runs_store :
    ¬ ∀ (c : Cache) (m : LineMem) (is : List Cycle), c.IsPowerUp →
      machine.Legal (boot c m) is →
        LaneMemory.ReadsLatest (words m) (machine.events (boot c m) is) := by
  intro h
  have hReads := h zeroed (fun _ _ => 7#8) storeRun zeroed_isPowerUp
    storeRun_legal
  rw [← LaneMemory.accepts_iff_readsLatest] at hReads
  revert hReads
  decide

end System

end CompE.Mp2
