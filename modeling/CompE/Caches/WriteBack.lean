import CompE.Caches.Refinement

/-!
# A write-back cache in front of a line memory

One cache, its client and the line memory behind it as a clocked machine.
The client holds a request until `mem_resp`; the memory answers whenever it
likes, with its own line on a read, and takes a full line on a write-back.

`writeBack_refines` says that the reads of every run return the latest written
bytes, that no two ways of a set are valid with one tag, that a valid clean
line equals the memory, and that a held request is acknowledged after at most
five cycles besides those spent waiting for the memory.
-/

namespace CompE.Caches

open CompE.Library

/-- The observable events of a line memory. -/
abbrev LineEvent := LaneMemory.Event LineNo (Fin 32) (BitVec 8)

/-! ## Serving a request -/

/-- A cache that serves address `a` in front of memory `m` shows `t`. -/
structure Shows (c : Cache) (a : Addr) (m t : LineMem) : Prop where
  inv : Cache.Inv c a
  view : t = c.view a m

/-- A cache in `s_hit` shows the same at every address. -/
theorem Shows.of_sHit {c : Cache} {a : Addr} {m t : LineMem}
    (hShows : Shows c a m t) (h : c.state = .sHit) (a' : Addr) :
    Shows c a' m t where
  inv := hShows.inv.of_sHit h a'
  view := hShows.view.trans (c.view_of_sHit h a a' m)

theorem Cache.IsReset.shows {c : Cache} (h : c.IsReset) (a : Addr)
    (m : LineMem) : Shows c a m m where
  inv := h.inv a
  view := (h.view a m).symm

/-- The events of a cycle at the request port. -/
def lineEvents (c : Cache) (r : Request) (resp : Bool) (d : Line) :
    List LineEvent :=
  if c.memResp r then
    if r.memWrite then
      [.store (lineNo r.memAddress) (lanes r.memByteEnable256) r.memWdata256]
    else if r.memRead then
      [.load (lineNo r.memAddress) (c.memRdata256 r resp d)]
    else []
  else []

section

variable {c : Cache} {m t : LineMem} {r : Request} (resp : Bool) (d : Line)

/-- The flat memory after the events of a cycle. -/
theorem after_lineEvents (t : LineMem) :
    (LaneMemory.flat _ _ _).after t (lineEvents c r resp d) =
      if c.memResp r && r.memWrite then
        LaneMemory.store t (lineNo r.memAddress) (lanes r.memByteEnable256)
          r.memWdata256
      else t := by
  rw [lineEvents]
  cases c.memResp r <;> cases r.memWrite <;> cases r.memRead <;> rfl

/-- The flat memory accepts the events of a cycle, and its state after them
is what the cache shows after the clock edge. -/
theorem Shows.clock (hShows : Shows c r.memAddress m t)
    (hHeld : c.state ≠ .sHit → r.active = true)
    (hFill : c.pmemRead r = true → resp = true →
      d = m (lineNo (c.pmemAddress r))) :
    (LaneMemory.flat _ _ _).Accepts t (lineEvents c r resp d) ∧
      Shows (c.clock r resp d) r.memAddress (c.memAfter r resp m)
        ((LaneMemory.flat _ _ _).after t (lineEvents c r resp d)) := by
  have hView := Cache.view_clock resp d hShows.inv hHeld m hFill
  rw [← hShows.view] at hView
  refine ⟨?_, hShows.inv.clock resp d hHeld, ?_⟩
  · rw [lineEvents]
    split
    · rename_i hResp
      split
      · exact ⟨trivial, trivial⟩
      · rename_i hRead
        split
        · refine ⟨fun i => ?_, trivial⟩
          rw [Cache.memRdata256_of_memResp resp d hShows.inv hResp
            (by simpa using hRead) m, ← hShows.view]
        · trivial
    · trivial
  · rw [hView, after_lineEvents]

/-- A cache is outside `s_hit` only for a request it has not acknowledged. -/
theorem clock_state_of_done (hHeld : c.state ≠ .sHit → r.active = true)
    (hDone : r.active = false ∨ c.memResp r = true) :
    (c.clock r resp d).state = .sHit := by
  rcases hDone with hIdle | hResp
  · have h : c.state = .sHit := by
      cases h : decide (c.state = .sHit) with
      | true => exact of_decide_eq_true h
      | false =>
          have hActive := hHeld (of_decide_eq_false h)
          rw [hIdle] at hActive
          cases hActive
    cases hHit : c.cacheHit r with
    | true => exact (Cache.clock_hit r resp d h hHit).1
    | false =>
        rw [Cache.clock_miss_state r resp d h hHit]
        simp_all [Request.active]
  · rw [Cache.memResp_eq, Bool.and_eq_true, decide_eq_true_eq] at hResp
    exact (Cache.clock_hit r resp d hResp.1 hResp.2).1

end

/-! ## The system -/

/-- A cache, its memory, and the request that awaits `mem_resp`. -/
structure System where
  cache : Cache
  mem : LineMem
  pending : Option Request

/-- What the client and the memory drive in one cycle. -/
structure Cycle where
  req : Request
  pmemResp : Bool

namespace System

/-- The line the memory drives: the one the cache addresses. -/
def pmemRdata (s : System) (i : Cycle) : Line :=
  s.mem (lineNo (s.cache.pmemAddress i.req))

def step (s : System) (i : Cycle) : System where
  cache := s.cache.clock i.req i.pmemResp (s.pmemRdata i)
  mem := s.cache.memAfter i.req i.pmemResp s.mem
  pending :=
    if i.req.active && !s.cache.memResp i.req then some i.req else none

/-- The client asks for a read or a write, not both, and holds a request
until it is acknowledged. -/
def legal (s : System) (i : Cycle) : Prop :=
  ¬ (i.req.memRead = true ∧ i.req.memWrite = true) ∧
    ∀ r, s.pending = some r → i.req = r

def machine : Machine System Cycle LineEvent where
  step := step
  emit s i := lineEvents s.cache i.req i.pmemResp (s.pmemRdata i)
  legal := legal

/-- Power-up: reset, no request pending. -/
def boot (c : Cache) (m : LineMem) : System := ⟨c, m, none⟩

/-- The relation between the system and the flat memory. -/
structure Related (s : System) (t : LineMem) : Prop where
  shows : ∃ a, Shows s.cache a s.mem t
  pending : ∀ r, s.pending = some r →
    r.active = true ∧ Shows s.cache r.memAddress s.mem t
  idle : s.pending = none → s.cache.state = .sHit

theorem Related.boot {c : Cache} (h : c.IsReset) (m : LineMem) :
    Related (boot c m) m where
  shows := ⟨0#32, h.shows _ m⟩
  pending := by simp [System.boot]
  idle := fun _ => h.state

/-- The cache is ready for whatever the client legally drives. -/
theorem Related.ready {s : System} {t : LineMem} {i : Cycle}
    (hRel : Related s t) (hLegal : legal s i) :
    Shows s.cache i.req.memAddress s.mem t ∧
      (s.cache.state ≠ .sHit → i.req.active = true) := by
  cases hPend : s.pending with
  | none =>
      have h := hRel.idle hPend
      obtain ⟨a, hShows⟩ := hRel.shows
      exact ⟨hShows.of_sHit h _, fun h' => absurd h h'⟩
  | some r =>
      obtain ⟨hActive, hShows⟩ := hRel.pending r hPend
      rw [hLegal.2 r hPend]
      exact ⟨hShows, fun _ => hActive⟩

theorem Related.step {s : System} {t : LineMem} {i : Cycle}
    (hRel : Related s t) (hLegal : legal s i) :
    (LaneMemory.flat _ _ _).Accepts t (machine.emit s i) ∧
      Related (machine.step s i)
        ((LaneMemory.flat _ _ _).after t (machine.emit s i)) := by
  obtain ⟨hShows, hHeld⟩ := hRel.ready hLegal
  obtain ⟨hAcc, hNext⟩ := hShows.clock i.pmemResp (s.pmemRdata i) hHeld
    (fun _ _ => rfl)
  refine ⟨hAcc, ⟨_, hNext⟩, ?_, ?_⟩
  · intro r hPend
    simp only [machine, System.step] at hPend
    split at hPend
    · rename_i hWait
      cases hPend
      rw [Bool.and_eq_true] at hWait
      exact ⟨hWait.1, hNext⟩
    · cases hPend
  · intro hPend
    refine clock_state_of_done i.pmemResp (s.pmemRdata i) hHeld ?_
    simp only [machine, System.step] at hPend
    cases hActive : i.req.active <;> cases hResp : s.cache.memResp i.req <;>
      simp_all

/-! ## Progress -/

/-- The runs in which the client holds `r` and is never acknowledged. -/
def holding (r : Request) : Machine System Cycle LineEvent :=
  machine.restrict fun s i => i.req = r ∧ s.cache.memResp i.req = false

/-- The cycle is not spent waiting for the memory. -/
def busy (s : System) (i : Cycle) : Bool :=
  !s.cache.waits i.req i.pmemResp

theorem Related.holding_step {s : System} {i : Cycle} {r : Request}
    (hReq : r.active = true) (hRel : ∃ t, Related s t)
    (hLegal : (holding r).legal s i) :
    (∃ t, Related ((holding r).step s i) t) ∧
      (if busy s i then 1 else 0) + ((holding r).step s i).cache.rank r ≤
        s.cache.rank r := by
  obtain ⟨t, hRel⟩ := hRel
  obtain ⟨hLegal, rfl, hResp⟩ := hLegal
  refine ⟨⟨_, (hRel.step hLegal).2⟩, ?_⟩
  have hRank := Cache.rank_clock i.pmemResp (s.pmemRdata i)
    (hRel.ready hLegal).1.inv hReq hResp
  rw [busy]
  cases hWait : s.cache.waits i.req i.pmemResp <;> rw [hWait] at hRank <;>
    exact hRank

private theorem rank_le (c : Cache) (r : Request) : c.rank r ≤ 5 := by
  rw [Cache.rank]
  split <;> (try split) <;> decide

/-! ## The result -/

/-- No two ways of a set are valid with the same tag, and a valid line that
is not dirty equals the line in memory. -/
structure Coherent (s : System) : Prop where
  distinct : ∀ i, (s.cache.valid false).data i = true →
    (s.cache.valid true).data i = true →
    (s.cache.tag false).data i ≠ (s.cache.tag true).data i
  clean : ∀ w i, (s.cache.valid w).data i = true →
    (s.cache.dirty w).data i = false →
    (s.cache.data w).data i = s.mem (lineAt ((s.cache.tag w).data i) i)

/-- The controller marks every filled line dirty: no valid line is clean. -/
theorem Related.coherent {s : System} {t : LineMem} (hRel : Related s t) :
    Coherent s := by
  obtain ⟨a, hShows⟩ := hRel.shows
  exact {
    distinct := fun i hFalse hTrue =>
      hShows.inv.distinct i (by simp [Cache.live, hFalse])
        (by simp [Cache.live, hTrue])
    clean := by
      intro w i hValid hClean
      rw [hShows.inv.dirty_eq_valid, hValid] at hClean
      cases hClean }

/--
**A write-back cache refines the line memory behind it.**  For every initial
memory and every run from reset: each read returns the latest bytes written,
the reached state is coherent, and from there a held request is acknowledged
after at most five cycles that do not wait for the memory.
-/
theorem writeBack_refines {c : Cache} (hReset : c.IsReset) (m : LineMem)
    (is : List Cycle) (hLegal : machine.Legal (boot c m) is) :
    LaneMemory.ReadsLatest m (machine.events (boot c m) is) ∧
      Coherent (machine.run (boot c m) is) ∧
      ∀ r js, r.active = true →
        (holding r).Legal (machine.run (boot c m) is) js →
        (holding r).count busy (machine.run (boot c m) is) js ≤ 5 := by
  obtain ⟨hAcc, hRel⟩ := machine.simulates (LaneMemory.flat _ _ _)
    (fun _ _ _ hRel hLegal => Related.step hRel hLegal) is _ m
    (Related.boot hReset m) hLegal
  refine ⟨(LaneMemory.accepts_iff_readsLatest _ _).1 hAcc, hRel.coherent, ?_⟩
  intro r js hReq hHold
  have hRank := (holding r).count_le_rank busy (fun s => s.cache.rank r)
    (fun _ _ hRel hLegal => Related.holding_step hReq hRel hLegal) js _
    ⟨_, hRel⟩ hHold
  exact Nat.le_trans hRank (rank_le _ r)

/-- A request that is held over the memory's responses. -/
def held (r : Request) (resps : List Bool) : List Cycle :=
  resps.map fun resp => ⟨r, resp⟩

private theorem held_legal {r : Request} (hOne : ¬ (r.memRead = true ∧ r.memWrite = true))
    (resps : List Bool) : ∀ s : System, (∀ r', s.pending = some r' → r = r') →
      machine.Legal s (held r resps) := by
  induction resps with
  | nil => exact fun _ _ => trivial
  | cons resp resps ih =>
      intro s hPending
      refine ⟨⟨hOne, hPending⟩, ih _ ?_⟩
      intro r' hNext
      simp only [machine, step] at hNext
      split at hNext
      · exact Option.some.inj hNext
      · cases hNext

/-- A request is held from a cycle in which none is pending. -/
theorem legal_held_append {r : Request} {resps : List Bool} {is : List Cycle} {s : System}
    (hOne : ¬ (r.memRead = true ∧ r.memWrite = true)) (hIdle : s.pending.isNone = true)
    (hRest : machine.Legal (machine.run s (held r resps)) is) :
    machine.Legal s (held r resps ++ is) := by
  have hPending : ∀ r', s.pending = some r' → r = r' := by
    intro r' hSome
    simp [hSome] at hIdle
  rw [machine.legal_append]
  exact ⟨held_legal hOne resps s hPending, hRest⟩

def readLine (a : Addr) : Request := ⟨true, false, a, fun _ => 0#8, 0#32⟩

/-- Bytes 0, 1 and 5 of line 0 are written, two other lines of its set are
read, and then line 0 again, with the memory's responses late. -/
def evictedRun : List Cycle :=
  held ⟨false, true, 0#32, fun _ => 1#8, 0b100011#32⟩
      [false, false, false, true, false, false] ++
    (held (readLine 0x100#32) [false, false, true, false, false] ++
      (held (readLine 0x200#32) [false, false, false, true, false, true, false, false] ++
        (held (readLine 0x000#32) [false, false, true, true, false, false] ++ [])))

private theorem evictedRun_legal :
    machine.Legal (boot Cache.afterReset fun _ _ => 7#8) evictedRun :=
  legal_held_append (by decide) rfl <|
    legal_held_append (by decide) (by decide +kernel) <|
      legal_held_append (by decide) (by decide +kernel) <|
        legal_held_append (by decide) (by decide +kernel) trivial

/-- The written bytes go to the memory, the others of the line stay, and the
last read finds them. -/
theorem writeBack_refines_evicted :
    let start := boot Cache.afterReset fun _ _ => 7#8
    ((machine.run start evictedRun).mem 0 5 = 1#8 ∧
        (machine.run start evictedRun).mem 0 6 = 7#8) ∧
      LaneMemory.ReadsLatest (fun _ _ => 7#8) (machine.events start evictedRun) ∧
      Coherent (machine.run start evictedRun) ∧
      ∀ r js, r.active = true → (holding r).Legal (machine.run start evictedRun) js →
        (holding r).count busy (machine.run start evictedRun) js ≤ 5 :=
  ⟨by decide +kernel,
    writeBack_refines Cache.afterReset_isReset _ _ evictedRun_legal⟩

end System

end CompE.Caches
