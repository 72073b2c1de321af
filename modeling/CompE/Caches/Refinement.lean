import CompE.Caches.Datapath

/-!
# A cache refines the memory behind it

The content of a cache and its memory together is one line memory, `view`:
a line is the copy in the way that holds it, and otherwise the line in
memory.  While a victim is being written back its valid bit is already clear,
so the way still counts as *live* until the write-back is acknowledged.

`Inv` is the invariant of the controller: valid and dirty bits agree, the
live ways of a set hold different tags, and in each miss state the output
registers describe the requested set.  One clock edge keeps `Inv`
(`Inv.clock`) and changes the view exactly by an acknowledged write
(`view_clock`).  The memory behind is arbitrary: it only has to answer a read
with its own line and to take a full line on a write-back, which is how the
same lemmas serve a cache in front of another cache.
-/

namespace CompE.Caches

open CompE.Library

namespace Cache

/-- Way `w` of set `s` holds a line that must not be looked up in memory: it
is valid, or it is the victim whose write-back is in progress.  `a` is the
address of the request being served. -/
def live (c : Cache) (a : Addr) (w : Bool) (s : SetIndex) : Bool :=
  (c.valid w).data s ||
    (decide (c.state = .sEvict) && (w == c.lru.dataout) &&
      (s == setIndex a))

/-- Way `w` holds line `l`. -/
def holds (c : Cache) (a : Addr) (w : Bool) (l : LineNo) : Bool :=
  c.live a w (lineSet l) && (c.tag w).data (lineSet l) == lineTag l

/-- The line memory that a cache and the memory behind it stand for. -/
def view (c : Cache) (a : Addr) (m : LineMem) : LineMem := fun l =>
  if c.holds a true l then (c.data true).data (lineSet l)
  else if c.holds a false l then (c.data false).data (lineSet l)
  else m l

/-- The invariant of the controller serving a request at address `a`. -/
structure Inv (c : Cache) (a : Addr) : Prop where
  /-- A fill marks the line dirty and an eviction clears both bits. -/
  dirty_eq_valid : ∀ w s, (c.dirty w).data s = (c.valid w).data s
  /-- Two live ways of a set hold different tags. -/
  distinct : ∀ s, c.live a false s = true → c.live a true s = true →
    (c.tag false).data s ≠ (c.tag true).data s
  /-- The lookup states compare registered copies of the requested set. -/
  lookup : c.state = .sRead ∨ c.state = .sWrite → Registered c (setIndex a)
  /-- The requested line is in neither way. -/
  absent : c.state = .sMiss ∨ c.state = .sEvict → ∀ w,
    c.live a w (setIndex a) = true → (c.tag w).data (setIndex a) ≠ tagBits a
  /-- The way to replace is the least recently used one. -/
  replace : c.state = .sMiss ∨ c.state = .sEvict →
    c.lru.dataout = c.lru.data (setIndex a)
  /-- A fill overwrites no valid line. -/
  free : c.state = .sMiss →
    (c.valid c.lru.dataout).data (setIndex a) = false
  /-- The victim's tag and line stay latched while it is written back. -/
  victim : c.state = .sEvict →
    (c.tag c.lru.dataout).dataout =
        (c.tag c.lru.dataout).data (setIndex a) ∧
      (c.data c.lru.dataout).dataout =
        (c.data c.lru.dataout).data (setIndex a)

/-! ## Reading the view -/

private theorem live_of_ne_sEvict {c : Cache} (h : c.state ≠ .sEvict) (a : Addr)
    (w : Bool) (s : SetIndex) : c.live a w s = (c.valid w).data s := by
  simp [live, h]

theorem live_sEvict {c : Cache} (h : c.state = .sEvict) (a : Addr)
    (w : Bool) (s : SetIndex) :
    c.live a w s = ((c.valid w).data s ||
      ((w == c.lru.dataout) && (s == setIndex a))) := by
  simp [live, h]

/-- In `s_hit` nothing depends on the address of the request. -/
theorem Inv.of_sHit {c : Cache} {a : Addr} (h : c.state = .sHit)
    (hInv : Inv c a) (a' : Addr) : Inv c a' where
  dirty_eq_valid := hInv.dirty_eq_valid
  distinct := by
    intro s
    simpa [live_of_ne_sEvict (c := c) (by simp [h])] using hInv.distinct s
  lookup := by simp [h]
  absent := by simp [h]
  replace := by simp [h]
  free := by simp [h]
  victim := by simp [h]

theorem view_of_sHit {c : Cache} (h : c.state = .sHit) (a a' : Addr)
    (m : LineMem) : c.view a m = c.view a' m := by
  funext l
  simp [view, holds, live_of_ne_sEvict (c := c) (by simp [h])]

/-- Reset establishes the invariant, with the memory as the view. -/
theorem IsReset.inv {c : Cache} (h : c.IsReset) (a : Addr) : Inv c a where
  dirty_eq_valid := by simp [h.dirty, h.valid]
  distinct := by
    intro s hLive
    simp [live_of_ne_sEvict (c := c) (by simp [h.state]), h.valid] at hLive
  lookup := by simp [h.state]
  absent := by simp [h.state]
  replace := by simp [h.state]
  free := by simp [h.state]
  victim := by simp [h.state]

theorem IsReset.view {c : Cache} (h : c.IsReset) (a : Addr) (m : LineMem) :
    c.view a m = m := by
  funext l
  simp [Cache.view, holds, live_of_ne_sEvict (c := c) (by simp [h.state]),
    h.valid]

/-- The way that holds a line is the one the view reads. -/
theorem view_of_holds {c : Cache} {a : Addr} (hInv : Inv c a) {w : Bool}
    {l : LineNo} (h : c.holds a w l = true) (m : LineMem) :
    c.view a m l = (c.data w).data (lineSet l) := by
  cases w with
  | true => simp [view, h]
  | false =>
      have hTrue : c.holds a true l = false := by
        rw [Bool.eq_false_iff]
        intro hTrue
        simp only [holds, Bool.and_eq_true, beq_iff_eq] at h hTrue
        exact hInv.distinct _ h.1 hTrue.1 (h.2.trans hTrue.2.symm)
      simp [view, h, hTrue]

private theorem view_of_not_holds {c : Cache} {a : Addr} {l : LineNo}
    (h : ∀ w, c.holds a w l = false) (m : LineMem) : c.view a m l = m l := by
  simp [view, h]

/-- Equal arrays and equal live ways give equal views. -/
theorem view_congr {c c' : Cache} {a a' : Addr} (m : LineMem)
    (hData : ∀ w, (c'.data w).data = (c.data w).data)
    (hTag : ∀ w, (c'.tag w).data = (c.tag w).data)
    (hLive : ∀ w s, c'.live a' w s = c.live a w s) :
    c'.view a' m = c.view a m := by
  have hHolds : ∀ w l, c'.holds a' w l = c.holds a w l := by
    intro w l
    simp only [holds, hTag, hLive]
  funext l
  simp only [view, hHolds, hData]

/-! ## The hit signal -/

/-- In `s_hit` the comparators tell which way holds the requested line. -/
theorem cmp_eq_holds {c : Cache} {r : Request} (h : c.state = .sHit)
    (a : Addr) (w : Bool) :
    c.cmp r w = c.holds a w (lineNo r.memAddress) := by
  rw [cmp_sHit h, holds, lineSet_lineNo, lineTag_lineNo,
    live_of_ne_sEvict (c := c) (by simp [h]), Bool.and_comm]
  rw [Bool.beq_comm]

/-- In a lookup state the comparators read the same entries from the
registers. -/
theorem cmp_lookup {c : Cache} {r : Request}
    (h : c.state = .sRead ∨ c.state = .sWrite)
    (hInv : Inv c r.memAddress) (w : Bool) :
    c.cmp r w = c.holds r.memAddress w (lineNo r.memAddress) := by
  have hNe : c.state ≠ .sHit := by rcases h with h | h <;> simp [h]
  have hNe' : c.state ≠ .sEvict := by rcases h with h | h <;> simp [h]
  have hReg := hInv.lookup h
  rw [cmp_of_ne_sHit hNe, holds, lineSet_lineNo, lineTag_lineNo,
    live_of_ne_sEvict hNe', hReg.tag, hReg.valid, Bool.and_comm]
  rw [Bool.beq_comm]

/-- On a hit the selected way matches, so it is valid and its tag is the
requested one. -/
theorem cmp_of_cacheHit {c : Cache} {r : Request}
    (hHit : c.cacheHit r = true) : c.cmp r (c.cmp r true) = true := by
  cases hTrue : c.cmp r true with
  | true => exact hTrue
  | false => simpa [cacheHit, hTrue] using hHit

private theorem cacheHit_eq_false_iff {c : Cache} {r : Request} :
    c.cacheHit r = false ↔ ∀ w, c.cmp r w = false := by
  simp [cacheHit]

/-! ## One clock edge: live ways -/

section Step

variable {c : Cache} {r : Request} (resp : Bool) (d : Line)

/-- A quiet cycle changes no array and no live way. -/
theorem live_clock_quiet (hInv : Inv c r.memAddress) (h : Quiet c r resp)
    (w : Bool) (s : SetIndex) :
    (c.clock r resp d).live r.memAddress w s = c.live r.memAddress w s := by
  have hSame := clock_quiet r resp d h
  rcases h with ⟨h, hMiss⟩ | h | ⟨h, rfl⟩
  · have hNe : (c.clock r resp d).state ≠ .sEvict := by
      rw [clock_miss_state r resp d h hMiss]
      split
      · simp
      · split <;> simp
    rw [live_of_ne_sEvict hNe, live_of_ne_sEvict (by simp [h]), hSame.valid]
  · have hNe : c.state ≠ .sEvict := by rcases h with h | h <;> simp [h]
    have hReg := hInv.lookup h
    have hState := clock_lookup_state r resp d h
    rw [live_of_ne_sEvict hNe]
    by_cases hEvict : (c.clock r resp d).state = .sEvict
    · have hDirty : (c.dirty c.lru.dataout).dataout = true := by
        rw [hEvict] at hState
        split at hState
        · cases hState
        · split at hState
          · assumption
          · cases hState
      have hLru := (clock_lookup_registers r resp d h).2.2
      have hVictim : (c.valid c.lru.dataout).data (setIndex r.memAddress) =
          true := by
        rw [← hInv.dirty_eq_valid, ← hReg.dirty]
        exact hDirty
      rw [live_sEvict hEvict, hSame.valid, hLru, ← hReg.lru]
      cases hw : (w == c.lru.dataout) && (s == setIndex r.memAddress) with
      | false => simp
      | true =>
          simp only [Bool.and_eq_true, beq_iff_eq] at hw
          simp [hw.1, hw.2, hVictim]
    · rw [live_of_ne_sEvict hEvict, hSame.valid]
  · rw [live_of_ne_sEvict (by simp [clock_wait_state r d h]),
      live_of_ne_sEvict (by simp [h]), hSame.valid]

private theorem live_clock_hit (h : c.state = .sHit) (hHit : c.cacheHit r = true)
    (a : Addr) (w : Bool) (s : SetIndex) :
    (c.clock r resp d).live a w s = c.live a w s := by
  obtain ⟨hState, -, -, hValid, -⟩ :=
    clock_hit r resp d h hHit
  rw [live_of_ne_sEvict (by simp [hState]), live_of_ne_sEvict (by simp [h]),
    hValid]

/-- A fill makes the way to replace live. -/
theorem live_clock_fill (h : c.state = .sMiss) (hReq : r.active = true)
    (w : Bool) (s : SetIndex) :
    (c.clock r true d).live r.memAddress w s =
      if w = c.lru.dataout ∧ s = setIndex r.memAddress then true
      else c.live r.memAddress w s := by
  have hNe : (c.clock r true d).state ≠ .sEvict := by
    rcases clock_fill_state r d h hReq with h' | h' <;> simp [h']
  rw [live_of_ne_sEvict hNe, live_of_ne_sEvict (by simp [h])]
  exact (clock_fill r d h).2.2.1 w s

/-- The victim stays live while its write-back waits, and only until then. -/
theorem live_clock_evict (h : c.state = .sEvict) (w : Bool) (s : SetIndex) :
    (c.clock r resp d).live r.memAddress w s =
      if (w = c.lru.dataout ∧ s = setIndex r.memAddress) ∧ resp = true
      then false else c.live r.memAddress w s := by
  obtain ⟨hState, -, -, hValid, -, hLru, -⟩ :=
    clock_evict r resp d h
  rw [live_sEvict h]
  cases resp with
  | false =>
      rw [live_sEvict (by simpa using hState), hValid, hLru]
      by_cases hw : w = c.lru.dataout ∧ s = setIndex r.memAddress
      · simp [hw]
      · simp [hw]
  | true =>
      rw [live_of_ne_sEvict (by simp [hState]), hValid]
      by_cases hw : w = c.lru.dataout ∧ s = setIndex r.memAddress
      · simp [hw]
      · have hNot : ((w == c.lru.dataout) && (s == setIndex r.memAddress)) =
            false := by
          simpa using hw
        simp [hw, hNot]

/-! ## One clock edge: the invariant -/

/-- In a quiet cycle the arrays stand still: a valid line stays dirty. -/
theorem Inv.quiet_dirty (hInv : Inv c r.memAddress) (h : Quiet c r resp)
    (w : Bool) (s : SetIndex) : ((c.clock r resp d).dirty w).data s =
      ((c.clock r resp d).valid w).data s := by
  have hSame := Cache.clock_quiet r resp d h
  rw [hSame.dirty, hSame.valid, hInv.dirty_eq_valid]

/-- And live ways of one set keep distinct tags. -/
theorem Inv.quiet_distinct (hInv : Inv c r.memAddress) (h : Quiet c r resp)
    (s : SetIndex)
    (hFalse : (c.clock r resp d).live r.memAddress false s = true)
    (hTrue : (c.clock r resp d).live r.memAddress true s = true) :
    ((c.clock r resp d).tag false).data s ≠
      ((c.clock r resp d).tag true).data s := by
  have hSame := Cache.clock_quiet r resp d h
  have hLive := live_clock_quiet resp d hInv h
  rw [hLive] at hFalse hTrue
  rw [hSame.tag, hSame.tag]
  exact hInv.distinct s hFalse hTrue

/-- A miss in `s_hit` only latches the set. -/
theorem Inv.clock_miss (hInv : Inv c r.memAddress) (h : c.state = .sHit)
    (hMiss : c.cacheHit r = false) : Inv (c.clock r resp d) r.memAddress := by
  have hQuiet : Quiet c r resp := Quiet.miss h hMiss
  have hState := clock_miss_state r resp d h hMiss
  have hMove : (c.clock r resp d).state ≠ .sMiss ∧
      (c.clock r resp d).state ≠ .sEvict := by
    rw [hState]
    split
    · simp
    · split <;> simp
  exact {
    dirty_eq_valid := hInv.quiet_dirty resp d hQuiet
    distinct := hInv.quiet_distinct resp d hQuiet
    lookup := fun _ => clock_miss_registered r resp d h hMiss
    absent := fun h' => absurd h' (by simp [hMove])
    replace := fun h' => absurd h' (by simp [hMove])
    free := fun h' => absurd h' hMove.1
    victim := fun h' => absurd h' hMove.2 }

/-- The lookup state decides between hit, write-back and fill. -/
theorem Inv.clock_lookup (hInv : Inv c r.memAddress)
    (h : c.state = .sRead ∨ c.state = .sWrite) :
    Inv (c.clock r resp d) r.memAddress := by
  have hQuiet : Quiet c r resp := Quiet.lookup h
  have hSame := Cache.clock_quiet r resp d hQuiet
  have hLive := live_clock_quiet resp d hInv hQuiet
  have hState := clock_lookup_state r resp d h
  have hReg := hInv.lookup h
  obtain ⟨hData, hTag, hLru⟩ := clock_lookup_registers r resp d h
  have hMiss : (c.clock r resp d).state = .sMiss ∨
      (c.clock r resp d).state = .sEvict → c.cacheHit r = false := by
    intro h'
    cases hHit : c.cacheHit r with
    | false => rfl
    | true => simp [hState, hHit] at h'
  exact {
    dirty_eq_valid := hInv.quiet_dirty resp d hQuiet
    distinct := hInv.quiet_distinct resp d hQuiet
    lookup := by
      rw [hState]
      split
      · simp
      · split <;> simp
    absent := by
      intro h' w hw hTag'
      have hCmp := cacheHit_eq_false_iff.1 (hMiss h') w
      rw [hLive] at hw
      rw [hSame.tag] at hTag'
      rw [cmp_lookup h hInv, holds, lineSet_lineNo, lineTag_lineNo, hw,
        hTag'] at hCmp
      simp at hCmp
    replace := by
      intro _
      rw [hLru, hSame.lru]
    free := by
      intro h'
      have hMiss' := hMiss (.inl h')
      rw [hState, hMiss'] at h'
      rw [hSame.valid, hLru, ← hReg.lru, ← hInv.dirty_eq_valid,
        ← hReg.dirty]
      simpa using h'
    victim := by
      intro _
      rw [hTag, hData, hSame.tag, hSame.data]
      exact ⟨rfl, rfl⟩ }

/-- Waiting for the memory. -/
theorem Inv.clock_wait (hInv : Inv c r.memAddress) (h : c.state = .sMiss) :
    Inv (c.clock r false d) r.memAddress := by
  have hQuiet : Quiet c r false := Quiet.wait h rfl
  have hSame := Cache.clock_quiet r false d hQuiet
  have hLive := live_clock_quiet false d hInv hQuiet
  have hState : (c.clock r false d).state = .sMiss := clock_wait_state r d h
  have hLru : (c.clock r false d).lru.dataout = c.lru.dataout := by
    rw [clock_wait_lru r d h, hInv.replace (.inl h)]
  exact {
    dirty_eq_valid := hInv.quiet_dirty false d hQuiet
    distinct := hInv.quiet_distinct false d hQuiet
    lookup := by simp [hState]
    absent := by
      intro _ w
      rw [hLive, hSame.tag]
      exact hInv.absent (.inl h) w
    replace := by
      intro _
      rw [hLru, hSame.lru]
      exact hInv.replace (.inl h)
    free := by
      intro _
      rw [hLru, hSame.valid]
      exact hInv.free h
    victim := by simp [hState] }

/-- A quiet cycle keeps the invariant: the arrays stand still, and only the
state and the registers move. -/
theorem Inv.clock_quiet (hInv : Inv c r.memAddress) (h : Quiet c r resp) :
    Inv (c.clock r resp d) r.memAddress := by
  rcases h with ⟨h, hMiss⟩ | h | ⟨h, hResp⟩
  · exact hInv.clock_miss resp d h hMiss
  · exact hInv.clock_lookup resp d h
  · subst hResp
    exact hInv.clock_wait d h

/-- A hit keeps the invariant: a write marks a valid line dirty, which it
already is. -/
theorem Inv.clock_hit (hInv : Inv c r.memAddress) (h : c.state = .sHit)
    (hHit : c.cacheHit r = true) :
    Inv (c.clock r resp d) r.memAddress := by
  obtain ⟨hState, -, hTag, hValid, hDirty⟩ := Cache.clock_hit r resp d h hHit
  have hLive := live_clock_hit resp d h hHit r.memAddress
  exact {
    dirty_eq_valid := by
      intro w s
      rw [hDirty, hValid]
      split
      · rename_i hw
        obtain ⟨⟨rfl, -⟩, rfl⟩ := hw
        have hCmp := cmp_of_cacheHit hHit
        rw [cmp_sHit h, Bool.and_eq_true] at hCmp
        exact hCmp.2.symm
      · exact hInv.dirty_eq_valid w s
    distinct := by
      intro s
      rw [hLive, hLive, hTag, hTag]
      exact hInv.distinct s
    lookup := by simp [hState]
    absent := by simp [hState]
    replace := by simp [hState]
    free := by simp [hState]
    victim := by simp [hState] }

/-- A fill keeps the invariant: the requested tag was in neither way. -/
theorem Inv.clock_fill (hInv : Inv c r.memAddress) (h : c.state = .sMiss)
    (hReq : r.active = true) : Inv (c.clock r true d) r.memAddress := by
  obtain ⟨-, hTag, hValid, hDirty, hReg⟩ := Cache.clock_fill r d h
  have hLive := live_clock_fill d h hReq
  have hMove := clock_fill_state r d h hReq
  exact {
    dirty_eq_valid := by
      intro w s
      rw [hDirty, hValid]
      split
      · rfl
      · exact hInv.dirty_eq_valid w s
    distinct := by
      intro s
      rw [hLive, hLive, hTag, hTag]
      by_cases hs : s = setIndex r.memAddress
      · subst hs
        have hAbsent := hInv.absent (.inl h)
        cases hw : c.lru.dataout with
        | false => simpa using fun hLive' hTag' => hAbsent true hLive' hTag'.symm
        | true => simpa using hAbsent false
      · simpa [hs] using hInv.distinct s
    lookup := fun _ => hReg
    absent := by rcases hMove with h' | h' <;> simp [h']
    replace := by rcases hMove with h' | h' <;> simp [h']
    free := by rcases hMove with h' | h' <;> simp [h']
    victim := by rcases hMove with h' | h' <;> simp [h'] }

/-- A write-back cycle keeps the invariant: the victim stays latched until the
memory answers, and leaves a free way behind. -/
theorem Inv.clock_evict (hInv : Inv c r.memAddress) (h : c.state = .sEvict) :
    Inv (c.clock r resp d) r.memAddress := by
  obtain ⟨hState, hData, hTag, hValid, hDirty, hLru, hLine, hTagOut⟩ :=
    Cache.clock_evict r resp d h
  have hLive := live_clock_evict (r := r) resp d h
  have hOld : ∀ w s, (c.clock r resp d).live r.memAddress w s = true →
      c.live r.memAddress w s = true := by
    intro w s hw
    rw [hLive] at hw
    split at hw
    · cases hw
    · exact hw
  exact {
    dirty_eq_valid := by
      intro w s
      rw [hDirty, hValid]
      split
      · rfl
      · exact hInv.dirty_eq_valid w s
    distinct := by
      intro s hFalse hTrue
      rw [hTag, hTag]
      exact hInv.distinct s (hOld _ _ hFalse) (hOld _ _ hTrue)
    lookup := by
      rw [hState]
      split <;> simp
    absent := by
      intro _ w hw
      rw [hTag]
      exact hInv.absent (.inr h) w (hOld _ _ hw)
    replace := by
      intro _
      rw [hLru]
      exact hInv.replace (.inr h)
    free := by
      intro _
      rw [hLru, hValid]
      simp
    victim := by
      intro _
      rw [hLru, hTagOut, hTag, hLine, hData]
      exact ⟨rfl, (hInv.victim h).2⟩ }

/-- The kinds of cycle. -/
theorem cycle_cases (c : Cache) (r : Request) (resp : Bool) :
    Quiet c r resp ∨ (c.state = .sHit ∧ c.cacheHit r = true) ∨
      (c.state = .sMiss ∧ resp = true) ∨ c.state = .sEvict := by
  cases h : c.state with
  | sHit =>
      cases hHit : c.cacheHit r with
      | false => exact .inl (.miss h hHit)
      | true => exact .inr (.inl ⟨rfl, rfl⟩)
  | sRead => exact .inl (.lookup (.inl h))
  | sWrite => exact .inl (.lookup (.inr h))
  | sMiss =>
      cases resp with
      | false => exact .inl (.wait h rfl)
      | true => exact .inr (.inr (.inl ⟨rfl, rfl⟩))
  | sEvict => exact .inr (.inr (.inr rfl))

/-- Every clock edge keeps the invariant, as long as a request that left
`s_hit` is held. -/
theorem Inv.clock (hInv : Inv c r.memAddress)
    (hReq : c.state ≠ .sHit → r.active = true) :
    Inv (c.clock r resp d) r.memAddress := by
  rcases cycle_cases c r resp with h | ⟨h, hHit⟩ | ⟨h, rfl⟩ | h
  · exact hInv.clock_quiet resp d h
  · exact hInv.clock_hit resp d h hHit
  · exact hInv.clock_fill d h (hReq (by simp [h]))
  · exact hInv.clock_evict resp d h

/-! ## One clock edge: the view -/

/-- Two states that hold a line in the same ways, with the same bytes, and
whose memories agree on it show the same line. -/
theorem view_congr_line {c' : Cache} {a a' : Addr} {m m' : LineMem}
    {l : LineNo} (hHolds : ∀ w, c'.holds a' w l = c.holds a w l)
    (hData : ∀ w, c.holds a w l = true →
      (c'.data w).data (lineSet l) = (c.data w).data (lineSet l))
    (hMem : m' l = m l) : c'.view a' m' l = c.view a m l := by
  simp only [view, hHolds]
  split
  · exact hData true ‹_›
  · split
    · exact hData false ‹_›
    · exact hMem

private theorem view_clock_quiet (hInv : Inv c r.memAddress) (h : Quiet c r resp)
    (m : LineMem) :
    (c.clock r resp d).view r.memAddress m = c.view r.memAddress m :=
  have hSame := clock_quiet r resp d h
  view_congr m hSame.data hSame.tag (live_clock_quiet resp d hInv h)

/-- A hit changes the view by the write, if it is one: a way has one tag in the
set, so its line there is the requested one. -/
theorem view_clock_hit (hInv : Inv c r.memAddress) (h : c.state = .sHit)
    (hHit : c.cacheHit r = true) (m : LineMem) :
    (c.clock r resp d).view r.memAddress m =
      if r.memWrite then
        LaneMemory.store (c.view r.memAddress m) (lineNo r.memAddress)
          (lanes r.memByteEnable256) r.memWdata256
      else c.view r.memAddress m := by
  obtain ⟨-, hData, hTag, -, -⟩ := clock_hit r resp d h hHit
  have hLive := live_clock_hit resp d h hHit r.memAddress
  have hHolds : ∀ w l, (c.clock r resp d).holds r.memAddress w l =
      c.holds r.memAddress w l := by
    intro w l
    simp only [holds, hLive, hTag]
  have hWay : c.holds r.memAddress (c.cmp r true) (lineNo r.memAddress) =
      true := by
    rw [← cmp_eq_holds h]
    exact cmp_of_cacheHit hHit
  funext l
  by_cases hl : l = lineNo r.memAddress
  · subst hl
    rw [view_of_holds (hInv.clock_hit resp d h hHit) ((hHolds _ _).trans hWay),
      hData]
    cases hWrite : r.memWrite <;> simp [view_of_holds hInv hWay]
  · have hKeep : ∀ w, c.holds r.memAddress w l = true →
        ((c.clock r resp d).data w).data (lineSet l) =
          (c.data w).data (lineSet l) := by
      intro w hw
      rw [hData, if_neg]
      rintro ⟨⟨rfl, -⟩, hs⟩
      simp only [holds, Bool.and_eq_true, beq_iff_eq, lineSet_lineNo,
        lineTag_lineNo] at hw hWay
      rw [hs, hWay.2] at hw
      exact hl (eq_lineNo_iff.2 ⟨hw.2.symm, hs⟩)
    rw [view_congr_line (fun w => hHolds w l) hKeep (rfl : m l = m l)]
    split
    · rw [LaneMemory.store_of_ne _ _ _ hl]
    · rfl

/-- A fill with the memory's own line changes nothing. -/
theorem view_clock_fill (hInv : Inv c r.memAddress) (h : c.state = .sMiss)
    (hReq : r.active = true) (m : LineMem)
    (hFill : d = m (lineNo r.memAddress)) :
    (c.clock r true d).view r.memAddress m = c.view r.memAddress m := by
  obtain ⟨hData, hTag, -, -, -⟩ := clock_fill r d h
  have hLive := live_clock_fill d h hReq
  funext l
  by_cases hl : l = lineNo r.memAddress
  · subst hl
    have hAbsent : ∀ w, c.holds r.memAddress w (lineNo r.memAddress) =
        false := by
      intro w
      rw [Bool.eq_false_iff]
      intro hw
      simp only [holds, lineSet_lineNo, lineTag_lineNo, Bool.and_eq_true,
        beq_iff_eq] at hw
      exact hInv.absent (.inl h) w hw.1 hw.2
    have hNew : (c.clock r true d).holds r.memAddress c.lru.dataout
        (lineNo r.memAddress) = true := by
      simp [holds, hLive, hTag]
    rw [view_of_holds (hInv.clock_fill d h hReq) hNew, hData,
      view_of_not_holds hAbsent, hFill]
    simp
  · refine view_congr_line (fun w => ?_) (fun w hw => ?_) rfl
    · rw [holds, holds, hLive, hTag]
      by_cases hw : w = c.lru.dataout ∧ lineSet l = setIndex r.memAddress
      · obtain ⟨rfl, hs⟩ := hw
        have hTagNe : tagBits r.memAddress ≠ lineTag l := fun hTag' =>
          hl (eq_lineNo_iff.2 ⟨hTag'.symm, hs⟩)
        have hFree := hInv.free h
        simp [hs, hTagNe, live_of_ne_sEvict (c := c) (by simp [h]), hFree]
      · simp [hw]
    · rw [hData, if_neg]
      rintro ⟨rfl, hs⟩
      have hFree := hInv.free h
      rw [← hs] at hFree
      simp [holds, live_of_ne_sEvict (c := c) (by simp [h]), hFree] at hw

/-- A write-back cycle changes nothing, when the acknowledged line reaches
the memory in full. -/
theorem view_clock_evict (hInv : Inv c r.memAddress) (h : c.state = .sEvict)
    (m : LineMem) :
    (c.clock r resp d).view r.memAddress
        (if resp then
          LaneMemory.store m (lineNo (c.pmemAddress r)) (fun _ => true)
            c.pmemWdata
        else m) = c.view r.memAddress m := by
  obtain ⟨-, hData, hTag, -, -, -, -⟩ := clock_evict r resp d h
  have hLive := live_clock_evict (r := r) resp d h
  obtain ⟨hVictimTag, hVictimLine⟩ := hInv.victim h
  have hVictim : ∀ l, l = lineNo (c.pmemAddress r) ↔
      (c.tag c.lru.dataout).data (lineSet l) = lineTag l ∧
        lineSet l = setIndex r.memAddress := by
    intro l
    rw [lineNo_pmemAddress_sEvict h, eq_lineAt_iff, hVictimTag]
    constructor
    · rintro ⟨hl, hs⟩; exact ⟨by rw [hs, hl], hs⟩
    · rintro ⟨hl, hs⟩; exact ⟨by rw [← hl, hs], hs⟩
  have hWay : ∀ l, lineSet l = setIndex r.memAddress →
      c.live r.memAddress c.lru.dataout (lineSet l) = true := by
    intro l hs
    simp [live_sEvict h, hs]
  funext l
  by_cases hl : l = lineNo (c.pmemAddress r) ∧ resp = true
  · obtain ⟨hl, rfl⟩ := hl
    have hSplit := (hVictim l).1 hl
    have hHolds : c.holds r.memAddress c.lru.dataout l = true := by
      rw [holds, hWay l hSplit.2, hSplit.1]
      simp
    have hGone : ∀ w, (c.clock r true d).holds r.memAddress w l = false := by
      intro w
      rw [Bool.eq_false_iff]
      intro hw
      rw [holds, hLive, hTag] at hw
      by_cases hw' : w = c.lru.dataout
      · simp [hw', hSplit.2] at hw
      · simp only [hw', false_and, if_false, Bool.and_eq_true,
          beq_iff_eq] at hw
        have hLru := hWay l hSplit.2
        have hOther := hInv.distinct (lineSet l)
        cases hv : c.lru.dataout <;> cases w <;> simp_all
    rw [view_of_not_holds hGone, view_of_holds hInv hHolds, if_pos rfl, hl,
      LaneMemory.store_self, LaneMemory.merge_true, pmemWdata, hVictimLine,
      ← hl, hSplit.2]
  · refine view_congr_line (fun w => ?_) (fun w _ => by rw [hData]) ?_
    · rw [holds, holds, hLive, hTag]
      split
      · rename_i hw
        obtain ⟨⟨rfl, hs⟩, rfl⟩ := hw
        have hTagNe : (c.tag c.lru.dataout).data (lineSet l) ≠ lineTag l :=
          fun hTag' => hl ⟨(hVictim l).2 ⟨hTag', hs⟩, rfl⟩
        simp [hTagNe]
      · rfl
    · cases resp with
      | false => rfl
      | true =>
          rw [if_pos rfl, LaneMemory.store_of_ne]
          exact fun h' => hl ⟨h', rfl⟩

/-- The memory behind the cache after a cycle: it takes a full line when it
acknowledges a write-back. -/
def memAfter (c : Cache) (r : Request) (resp : Bool) (m : LineMem) : LineMem :=
  if c.pmemWrite r && resp then
    LaneMemory.store m (lineNo (c.pmemAddress r)) (fun _ => true) c.pmemWdata
  else m

/--
**One cycle of a cache.**  If the memory answers a read with its own line,
takes a write-back in full and is otherwise left alone, then the view changes
exactly by an acknowledged write.
-/
theorem view_clock (hInv : Inv c r.memAddress)
    (hReq : c.state ≠ .sHit → r.active = true) (m : LineMem)
    (hFill : c.pmemRead r = true → resp = true →
      d = m (lineNo (c.pmemAddress r))) :
    (c.clock r resp d).view r.memAddress (c.memAfter r resp m) =
      if c.memResp r && r.memWrite then
        LaneMemory.store (c.view r.memAddress m) (lineNo r.memAddress)
          (lanes r.memByteEnable256) r.memWdata256
      else c.view r.memAddress m := by
  rcases cycle_cases c r resp with h | ⟨h, hHit⟩ | ⟨h, rfl⟩ | h
  · have hResp : c.memResp r = false := by
      rw [memResp_eq]
      rcases h with ⟨_, hMiss⟩ | (h | h) | ⟨h, -⟩ <;> simp [*]
    have hMem : c.memAfter r resp m = m := by
      rw [memAfter, pmemWrite_eq]
      rcases h with ⟨h, -⟩ | (h | h) | ⟨h, -⟩ <;> simp [h]
    rw [hMem, view_clock_quiet resp d hInv h, hResp]
    rfl
  · have hMem : c.memAfter r resp m = m := by
      simp [memAfter, pmemWrite_eq, h]
    rw [hMem, view_clock_hit resp d hInv h hHit, memResp_eq, h, hHit]
    simp
  · have hMem : c.memAfter r true m = m := by
      simp [memAfter, pmemWrite_eq, h]
    have hLine : d = m (lineNo r.memAddress) := by
      rw [← pmemAddress_sMiss h]
      exact hFill (by simp [pmemRead_eq, h]) rfl
    rw [hMem, view_clock_fill d hInv h (hReq (by simp [h])) m hLine,
      memResp_eq, h]
    simp
  · rw [memResp_eq, memAfter, pmemWrite_eq, h]
    simpa using view_clock_evict resp d hInv h m

/-- An acknowledged read returns the line of the view. -/
theorem memRdata256_of_memResp (hInv : Inv c r.memAddress)
    (hResp : c.memResp r = true) (hRead : r.memWrite = false) (m : LineMem) :
    c.memRdata256 r resp d = c.view r.memAddress m (lineNo r.memAddress) := by
  rw [memResp_eq, Bool.and_eq_true, decide_eq_true_eq] at hResp
  obtain ⟨h, hHit⟩ := hResp
  have hWay : c.holds r.memAddress (c.cmp r true) (lineNo r.memAddress) =
      true := by
    rw [← cmp_eq_holds h]
    exact cmp_of_cacheHit hHit
  rw [view_of_holds hInv hWay]
  simp [memRdata256, controls, stateActions, setDefaults, h, hHit, hRead,
    wayIndex_sHit h, dataWriteEn]

/-! ## Progress

A request passes at most once through the write-back and the fill, so the
number of cycles it needs, apart from those spent waiting for the memory, is
bounded by its rank.
-/

/-- The cycles a request needs before the one that acknowledges it. -/
def rank (c : Cache) (r : Request) : Nat :=
  match c.state with
  | .sHit => if c.cacheHit r then 0 else 5
  | .sRead | .sWrite => if c.cacheHit r then 1 else 4
  | .sEvict => 3
  | .sMiss => 2

/-- The cache waits for the memory. -/
def waits (c : Cache) (r : Request) (resp : Bool) : Bool :=
  (c.pmemRead r || c.pmemWrite r) && !resp

/-- A hit in a lookup state is a hit in the next `s_hit`. -/
theorem cacheHit_clock_lookup (hInv : Inv c r.memAddress)
    (h : c.state = .sRead ∨ c.state = .sWrite) (hHit : c.cacheHit r = true) :
    (c.clock r resp d).cacheHit r = true := by
  have hState : (c.clock r resp d).state = .sHit := by
    simp [clock_lookup_state r resp d h, hHit]
  have hSame := clock_quiet r resp d (.lookup h)
  have hCmp : ∀ w, (c.clock r resp d).cmp r w = c.cmp r w := by
    intro w
    rw [cmp_eq_holds hState r.memAddress, cmp_lookup h hInv, holds, holds,
      live_clock_quiet resp d hInv (.lookup h), hSame.tag]
  simpa only [cacheHit, hCmp] using hHit

/-- The filled way matches in the lookup state that follows the fill. -/
theorem cacheHit_clock_fill (hInv : Inv c r.memAddress) (h : c.state = .sMiss)
    (hReq : r.active = true) : (c.clock r true d).cacheHit r = true := by
  have hMove := clock_fill_state r d h hReq
  have hCmp : (c.clock r true d).cmp r c.lru.dataout = true := by
    rw [cmp_lookup hMove (hInv.clock_fill d h hReq), holds,
      live_clock_fill d h hReq, (clock_fill r d h).2.1]
    simp
  cases hw : c.lru.dataout <;> simp_all [cacheHit]

private theorem rank_of_lookup (h : c.state = .sRead ∨ c.state = .sWrite) :
    c.rank r = if c.cacheHit r then 1 else 4 := by
  rcases h with h | h <;> simp [rank, h]

private theorem rank_clock_lookup (hInv : Inv c r.memAddress)
    (h : c.state = .sRead ∨ c.state = .sWrite) :
    1 + (c.clock r resp d).rank r ≤ c.rank r := by
  have hState := clock_lookup_state r resp d h
  rw [rank_of_lookup h]
  cases hHit : c.cacheHit r with
  | true =>
      have hNext := cacheHit_clock_lookup resp d hInv h hHit
      rw [hHit, if_pos rfl] at hState
      simp [rank, hState, hNext]
  | false =>
      cases hDirty : (c.dirty c.lru.dataout).dataout <;>
        simp [rank, hState, hHit, hDirty]

/-- Every cycle of a held request that is neither acknowledged nor waiting
lowers the rank. -/
theorem rank_clock (hInv : Inv c r.memAddress) (hReq : r.active = true)
    (hResp : c.memResp r = false) :
    (if c.waits r resp then 0 else 1) + (c.clock r resp d).rank r ≤
      c.rank r := by
  have hWaits : c.waits r resp = ((decide (c.state = .sMiss) ||
      decide (c.state = .sEvict)) && !resp) := by
    rw [waits, pmemRead_eq, pmemWrite_eq]
  rw [memResp_eq] at hResp
  cases h : c.state with
  | sHit =>
      have hMiss : c.cacheHit r = false := by simpa [h] using hResp
      have hState := clock_miss_state r resp d h hMiss
      have hLookup : (c.clock r resp d).state = .sRead ∨
          (c.clock r resp d).state = .sWrite := by
        rw [hState]
        cases hRead : r.memRead <;> simp_all [Request.active]
      rw [hWaits, rank_of_lookup hLookup]
      cases hNext : (c.clock r resp d).cacheHit r <;> simp [rank, h, hMiss]
  | sRead =>
      simpa [hWaits, h] using rank_clock_lookup resp d hInv (.inl h)
  | sWrite =>
      simpa [hWaits, h] using rank_clock_lookup resp d hInv (.inr h)
  | sMiss =>
      cases resp with
      | false => simp [hWaits, rank, h, clock_wait_state r d h]
      | true =>
          have hNext := cacheHit_clock_fill d hInv h hReq
          rw [rank_of_lookup (clock_fill_state r d h hReq)]
          simp [hWaits, hNext, rank, h]
  | sEvict =>
      have hState := (clock_evict r resp d h).1
      cases resp <;> simp [hWaits, rank, h, hState]

end Step

end Cache

end CompE.Caches
