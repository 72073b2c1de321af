import CompE.Caches.WriteBack

/-!
# Which lines are written back

`s_evict` is entered for a victim whose dirty bit is set.  The bit is set by a
write hit in `s_hit` and cleared in `s_evict`, but `s_miss` also sets it for
every line it fills.  So the controller writes back each valid line that it
replaces, also one that was only read.

The history of a line is followed beside the system: `written w s` says that a
write of the CPU has hit the line in way `w` of set `s` since that line was
filled.  `onlyModified_iff` says that the runs in which every write-back is of
a modified line are those in which no unmodified line is ever replaced.
-/

namespace CompE.Caches

open CompE.Library

/-- A system and the history of the lines in its cache. -/
structure Audited where
  system : System
  written : Bool → SetIndex → Bool

namespace Audited

/-- The memory delivers the line that the cache fills. -/
def fills (s : System) (i : Cycle) : Bool :=
  s.cache.pmemRead i.req && i.pmemResp

/-- A write of the CPU hits. -/
def writeHits (s : System) (i : Cycle) : Bool :=
  s.cache.memResp i.req && i.req.memWrite

/-- The history after a cycle: a fill starts a line's history, a write hit is
recorded in it. -/
def writtenAfter (s : Audited) (i : Cycle) (w : Bool) (x : SetIndex) : Bool :=
  if w = s.system.cache.wayIndex i.req ∧ x = setIndex i.req.memAddress then
    if fills s.system i then false
    else writeHits s.system i || s.written w x
  else s.written w x

def step (s : Audited) (i : Cycle) : Audited where
  system := s.system.step i
  written := s.writtenAfter i

def machine : Machine Audited Cycle LineEvent where
  step := step
  emit s i := System.machine.emit s.system i
  legal s i := s.system.legal i

/-- Power-up: no line has been filled or written. -/
def boot (c : Cache) (m : LineMem) : Audited :=
  ⟨System.boot c m, fun _ _ => false⟩

/-- A write-back in progress is of a line that the CPU has written since the
line was filled. -/
def OnlyModified (s : Audited) : Prop :=
  ∀ r, s.system.pending = some r → s.system.cache.pmemWrite r = true →
    s.written (s.system.cache.wayIndex r) (setIndex r.memAddress) = true

/-- The lookup after a miss is about to replace a valid line. -/
def replaces (s : System) (i : Cycle) : Bool :=
  (decide (s.cache.state = .sRead) || decide (s.cache.state = .sWrite)) &&
    !s.cache.cacheHit i.req &&
    (s.cache.valid (s.cache.wayIndex i.req)).data (setIndex i.req.memAddress)

/-- A line that is replaced has been written since it was filled. -/
def ReplacesModified (s : Audited) (i : Cycle) : Prop :=
  replaces s.system i = true →
    s.written (s.system.cache.wayIndex i.req) (setIndex i.req.memAddress) = true

/-! ## When a write-back starts and goes on -/

/-- The ways into `s_evict`: from a lookup that replaces a valid line, and
from `s_evict` while the memory has not answered. -/
theorem step_sEvict_iff {s : System} {i : Cycle} {t : LineMem}
    (hRel : System.Related s t) (hLegal : s.legal i) :
    (s.step i).cache.state = .sEvict ↔
      replaces s i = true ∨
        (s.cache.state = .sEvict ∧ i.pmemResp = false) := by
  have hInv := (hRel.ready hLegal).1.inv
  simp only [System.step]
  generalize s.pmemRdata i = d
  cases h : s.cache.state with
  | sHit =>
      cases hHit : s.cache.cacheHit i.req with
      | true =>
          have hState := (Cache.clock_hit i.req i.pmemResp d h hHit).1
          simp [replaces, h, hState]
      | false =>
          rw [Cache.clock_miss_state i.req i.pmemResp d h hHit]
          simp only [replaces, h]
          cases i.req.memRead <;> cases i.req.memWrite <;> simp
  | sRead | sWrite =>
      have hLookup : s.cache.state = .sRead ∨ s.cache.state = .sWrite := by
        simp [h]
      have hReg := hInv.lookup hLookup
      have hWay : s.cache.wayIndex i.req = s.cache.lru.dataout :=
        Cache.wayIndex_of_ne_sHit (by simp [h])
      rw [Cache.clock_lookup_state i.req i.pmemResp d hLookup, hReg.dirty,
        hInv.dirty_eq_valid]
      simp only [replaces, h, hWay]
      cases s.cache.cacheHit i.req <;>
        cases (s.cache.valid s.cache.lru.dataout).data
          (setIndex i.req.memAddress) <;> simp
  | sMiss =>
      simp only [Cache.clock, nextState, h, replaces]
      cases i.pmemResp <;> cases i.req.memRead <;> cases i.req.memWrite <;> simp
  | sEvict =>
      rw [(Cache.clock_evict i.req i.pmemResp d h).1]
      cases i.pmemResp <;> simp [replaces, h]

/-- The victim of a write-back that starts or goes on is the one the cycle's
way select names, and its history is unchanged. -/
theorem step_victim {s : Audited} {i : Cycle} {t : LineMem}
    (hRel : System.Related s.system t) (hLegal : s.system.legal i)
    (hEvict : (s.step i).system.cache.state = .sEvict) :
    (s.step i).system.pending = some i.req ∧
      (s.step i).written
          ((s.step i).system.cache.wayIndex i.req)
          (setIndex i.req.memAddress) =
        s.written (s.system.cache.wayIndex i.req)
          (setIndex i.req.memAddress) := by
  have hReady := hRel.ready hLegal
  have hFrom := (step_sEvict_iff hRel hLegal).1 hEvict
  have hState : s.system.cache.state = .sRead ∨
      s.system.cache.state = .sWrite ∨ s.system.cache.state = .sEvict := by
    rcases hFrom with hNew | ⟨hOld, -⟩
    · simp only [replaces, Bool.and_eq_true, Bool.or_eq_true,
        decide_eq_true_eq] at hNew
      rcases hNew.1.1 with h | h
      · exact .inl h
      · exact .inr (.inl h)
    · exact .inr (.inr hOld)
  have hNe : s.system.cache.state ≠ .sHit := by
    rcases hState with h | h | h <;> simp [h]
  have hResp : s.system.cache.memResp i.req = false := by
    simp [Cache.memResp_eq, hNe]
  have hRead : s.system.cache.pmemRead i.req = false := by
    rw [Cache.pmemRead_eq]
    rcases hState with h | h | h <;> simp [h]
  have hActive := hReady.2 hNe
  have hLru : (s.step i).system.cache.lru.dataout =
      s.system.cache.lru.dataout := by
    simp only [step, System.step]
    rcases hState with h | h | h
    · rw [(Cache.clock_lookup_registers _ _ _ (.inl h)).2.2,
        (hReady.1.inv.lookup (.inl h)).lru]
    · rw [(Cache.clock_lookup_registers _ _ _ (.inr h)).2.2,
        (hReady.1.inv.lookup (.inr h)).lru]
    · rw [(Cache.clock_evict i.req i.pmemResp _ h).2.2.2.2.2.1]
  constructor
  · simp [step, System.step, hActive, hResp]
  · rw [Cache.wayIndex_of_ne_sHit (by simp [hEvict]), hLru,
      Cache.wayIndex_of_ne_sHit hNe]
    simp [step, writtenAfter, fills, writeHits, hResp, hRead]

/-! ## Runs -/

/-- What a run keeps: the cache and its memory stand for a flat memory, and
the write-back in progress is of a modified line. -/
structure Sound (s : Audited) : Prop where
  related : ∃ t, System.Related s.system t
  modified : OnlyModified s

theorem OnlyModified.of_ne_sEvict {s : Audited}
    (h : s.system.cache.state ≠ .sEvict) : OnlyModified s := by
  intro r _ hWrite
  rw [Cache.pmemWrite_eq, decide_eq_true_eq] at hWrite
  exact absurd hWrite h

theorem Sound.boot {c : Cache} (h : c.IsReset) (m : LineMem) :
    Sound (boot c m) where
  related := ⟨m, System.Related.boot h m⟩
  modified := by
    apply OnlyModified.of_ne_sEvict
    simp [Audited.boot, System.boot, h.state]

theorem Sound.step {s : Audited} {i : Cycle} (hSound : Sound s)
    (hLegal : machine.legal s i) (hModified : ReplacesModified s i) :
    OnlyModified (machine.step s i) ∧ Sound (machine.step s i) := by
  obtain ⟨t, hRel⟩ := hSound.related
  have hNext : OnlyModified (machine.step s i) := by
    by_cases hEvict : (s.step i).system.cache.state = .sEvict
    · obtain ⟨hPend, hVictim⟩ := step_victim hRel hLegal hEvict
      intro r hr _
      have hSame : i.req = r := by
        rw [show (machine.step s i).system.pending = some i.req from hPend] at hr
        exact Option.some.inj hr
      subst hSame
      refine hVictim.trans ?_
      rcases (step_sEvict_iff hRel hLegal).1 hEvict with hNew | ⟨hOld, -⟩
      · exact hModified hNew
      · cases hOldPend : s.system.pending with
        | none =>
            have hIdle := hRel.idle hOldPend
            rw [hOld] at hIdle
            cases hIdle
        | some r =>
            have hHeld := hLegal.2 r hOldPend
            rw [hHeld]
            exact hSound.modified r hOldPend (by simp [Cache.pmemWrite_eq, hOld])
    · exact OnlyModified.of_ne_sEvict hEvict
  exact ⟨hNext, ⟨_, (hRel.step hLegal).2⟩, hNext⟩

theorem Sound.replaces_of_onlyModified {s : Audited} {i : Cycle}
    (hSound : Sound s) (hLegal : machine.legal s i)
    (hModified : OnlyModified (machine.step s i)) : ReplacesModified s i := by
  intro hReplaces
  obtain ⟨t, hRel⟩ := hSound.related
  have hEvict := (step_sEvict_iff hRel hLegal).2 (.inl hReplaces)
  obtain ⟨hPend, hVictim⟩ := step_victim hRel hLegal hEvict
  rw [← hVictim]
  refine hModified i.req hPend ?_
  rw [Cache.pmemWrite_eq, decide_eq_true_eq]
  exact hEvict

/--
**Which runs write back modified lines only.**  From reset, for every initial
memory and every sequence of held reads and byte-masked writes with any memory
delays: each state reached writes back a modified line, if it writes back at
all, exactly when no line is replaced that was only read since it was filled.
-/
theorem onlyModified_iff {c : Cache} (hReset : c.IsReset) (m : LineMem)
    (is : List Cycle) (hLegal : machine.Legal (boot c m) is) :
    machine.Always (fun s i => OnlyModified (machine.step s i)) (boot c m) is ↔
      machine.Always ReplacesModified (boot c m) is :=
  machine.always_iff_of_invariant
    (fun _ _ hSound hLegal hModified => hSound.step hLegal hModified)
    (fun _ _ hSound hLegal hModified =>
      hSound.replaces_of_onlyModified hLegal hModified)
    is _ (Sound.boot hReset m) hLegal

/-! ## A line that was only read -/

theorem legal_of_held {s : System} {i j : Cycle} (hReq : j.req = i.req)
    (hOne : ¬ (j.req.memRead = true ∧ j.req.memWrite = true)) :
    (s.step i).legal j := by
  refine ⟨hOne, fun r hPend => ?_⟩
  simp only [System.step] at hPend
  split at hPend
  · rw [hReq]
    exact Option.some.inj hPend
  · cases hPend

private theorem legal_of_memResp {s : System} {i j : Cycle}
    (hResp : s.cache.memResp i.req = true)
    (hOne : ¬ (j.req.memRead = true ∧ j.req.memWrite = true)) :
    (s.step i).legal j := by
  refine ⟨hOne, fun r hPend => ?_⟩
  simp [System.step, hResp] at hPend

/-- A read at `a` that misses and whose line the memory delivers at once. -/
def missingRead (a : Addr) : List Cycle :=
  [false, false, true, false, false].map fun resp =>
    ⟨⟨true, false, a, fun _ => 0#8, 0#32⟩, resp⟩

/-- Reads of three lines of set 0, up to the lookup of the third. -/
def threeReads : List Cycle :=
  missingRead 0x000#32 ++ missingRead 0x100#32 ++
    (missingRead 0x200#32).take 2

private theorem threeReads_legal :
    machine.Legal (boot Cache.afterReset fun _ _ => 0#8) threeReads :=
  ⟨⟨by decide, by simp [boot, System.boot]⟩,
    legal_of_held rfl (by decide), legal_of_held rfl (by decide),
    legal_of_held rfl (by decide), legal_of_held rfl (by decide),
    legal_of_memResp (by decide) (by decide), legal_of_held rfl (by decide),
    legal_of_held rfl (by decide), legal_of_held rfl (by decide),
    legal_of_held rfl (by decide),
    legal_of_memResp (by decide) (by decide), legal_of_held rfl (by decide),
    trivial⟩

theorem onlyModified_iff_threeReads :
    machine.Always (fun s i => OnlyModified (machine.step s i))
        (boot Cache.afterReset fun _ _ => 0#8) threeReads ↔
      machine.Always ReplacesModified
        (boot Cache.afterReset fun _ _ => 0#8) threeReads :=
  onlyModified_iff Cache.afterReset_isReset _ _ threeReads_legal

/-- The third read writes back the line of the first, which was only read. -/
theorem threeReads_writes_back :
    ¬ ∀ (c : Cache) (m : LineMem) (is : List Cycle), c.IsReset →
      machine.Legal (boot c m) is →
        machine.Always (fun s i => OnlyModified (machine.step s i))
          (boot c m) is := by
  intro h
  have hAlways := h _ _ _ Cache.afterReset_isReset threeReads_legal
  have hSplit : threeReads = threeReads.take 11 ++ threeReads.drop 11 := rfl
  rw [hSplit, machine.always_append] at hAlways
  have hLast := hAlways.2.1 _ rfl (by decide)
  revert hLast
  decide

end Audited

end CompE.Caches
