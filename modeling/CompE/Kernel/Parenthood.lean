import CompE.Kernel.Lifecycle

/-!
# Parents and consoles, from boot on

During boot `execute` gives its child no parent, whoever calls it, and a timer
interrupt leaves the console of the next shell in a flag that the next
`execute` obeys.  Both are decided by what the queue looks like and not by who
calls.

The shells that timer interrupts have started never end, so that their number
says how far the boot is: this bounds the console numbers, and it leaves a
slot for the next shell.  The flag turns out harmless: the only one that
outlives its interrupt is that of the first shell, on console 0.  The parents
are right exactly if no process starts a program during boot.
-/

namespace CompE.Kernel

open CompE.Library

variable {Sp : Type}

/-! ## Shells and tasks -/

/-- There are at least `n` processes without a parent. -/
def HasRoots (tree : ProcessTree Slot) (n : Nat) : Prop :=
  ∃ shells : List Slot, shells.Nodup ∧ shells.length = n ∧
    ∀ p ∈ shells, tree.live p ∧ tree.parent p = none

/-- There are exactly `n` of them. -/
def ExactRoots (tree : ProcessTree Slot) (n : Nat) : Prop :=
  ∃ shells : List Slot, shells.Nodup ∧ shells.length = n ∧
    ∀ p, p ∈ shells ↔ tree.live p ∧ tree.parent p = none

section Roots

variable {tree : ProcessTree Slot} {n : Nat} {c : Slot}

theorem ExactRoots.hasRoots (h : ExactRoots tree n) : HasRoots tree n := by
  obtain ⟨shells, hNodup, hLength, hMem⟩ := h
  exact ⟨shells, hNodup, hLength, fun p => (hMem p).1⟩

/-- No process, no shell. -/
theorem HasRoots.empty (h : HasRoots emptyTree n) : n = 0 := by
  obtain ⟨shells, _, hLength, hRoots⟩ := h
  cases shells with
  | nil => exact hLength.symm
  | cons p shells => exact (hRoots p (List.mem_cons_self ..)).1.elim

theorem HasRoots.spawn (h : HasRoots tree n) (hFree : ¬ tree.live c)
    (parent : Option Slot) : HasRoots (tree.spawn parent c) n := by
  obtain ⟨shells, hNodup, hLength, hRoots⟩ := h
  refine ⟨shells, hNodup, hLength, fun p hp => ?_⟩
  obtain ⟨hLive, hNone⟩ := hRoots p hp
  have hNe : p ≠ c := fun hEq => hFree (hEq ▸ hLive)
  exact ⟨Or.inr hLive, by rw [ProcessTree.spawn_parent_of_ne hNe, hNone]⟩

theorem HasRoots.spawn_root (h : HasRoots tree n) (hFree : ¬ tree.live c) :
    HasRoots (tree.spawn none c) (n + 1) := by
  obtain ⟨shells, hNodup, hLength, hRoots⟩ := h
  have hNew : c ∉ shells := fun hMem => hFree (hRoots c hMem).1
  refine ⟨c :: shells, List.nodup_cons.2 ⟨hNew, hNodup⟩, by simp [hLength], ?_⟩
  intro p hp
  by_cases hEq : p = c
  · subst hEq
    exact ⟨Or.inl rfl, ProcessTree.spawn_parent_self⟩
  · obtain ⟨hLive, hNone⟩ := hRoots p ((List.mem_cons.1 hp).resolve_left hEq)
    exact ⟨Or.inr hLive, by rw [ProcessTree.spawn_parent_of_ne hEq, hNone]⟩

theorem HasRoots.exit (h : HasRoots tree n) {cur : Slot}
    (hChild : tree.parent cur ≠ none) : HasRoots (tree.exit cur) n := by
  obtain ⟨shells, hNodup, hLength, hRoots⟩ := h
  refine ⟨shells, hNodup, hLength, fun p hp => ?_⟩
  obtain ⟨hLive, hNone⟩ := hRoots p hp
  exact ⟨⟨fun hEq => hChild (hEq ▸ hNone), hLive⟩, hNone⟩

theorem ExactRoots.spawn_root (h : ExactRoots tree n) (hFree : ¬ tree.live c) :
    ExactRoots (tree.spawn none c) (n + 1) := by
  obtain ⟨shells, hNodup, hLength, hMem⟩ := h
  have hNew : c ∉ shells := fun hIn => hFree ((hMem c).1 hIn).1
  refine ⟨c :: shells, List.nodup_cons.2 ⟨hNew, hNodup⟩, by simp [hLength], ?_⟩
  intro p
  rw [List.mem_cons]
  by_cases hEq : p = c
  · subst hEq
    exact ⟨fun _ => ⟨Or.inl rfl, ProcessTree.spawn_parent_self⟩,
      fun _ => Or.inl rfl⟩
  · rw [hMem p, ProcessTree.spawn_parent_of_ne hEq]
    constructor
    · rintro (hSelf | ⟨hLive, hNone⟩)
      · exact absurd hSelf hEq
      · exact ⟨Or.inr hLive, hNone⟩
    · rintro ⟨hLive, hNone⟩
      exact Or.inr ⟨hLive.resolve_left hEq, hNone⟩

theorem ExactRoots.spawn_child (h : ExactRoots tree n) (hFree : ¬ tree.live c)
    (parent : Slot) : ExactRoots (tree.spawn (some parent) c) n := by
  obtain ⟨shells, hNodup, hLength, hMem⟩ := h
  refine ⟨shells, hNodup, hLength, fun p => ?_⟩
  rw [hMem p]
  by_cases hEq : p = c
  · subst hEq
    rw [ProcessTree.spawn_parent_self]
    exact ⟨fun hOld => absurd hOld.1 hFree, fun hNew => nomatch hNew.2⟩
  · rw [ProcessTree.spawn_parent_of_ne hEq]
    exact and_congr_left fun _ => ⟨Or.inr, fun hNew => hNew.resolve_left hEq⟩

theorem ExactRoots.exit (h : ExactRoots tree n) {cur : Slot}
    (hChild : tree.parent cur ≠ none) : ExactRoots (tree.exit cur) n := by
  obtain ⟨shells, hNodup, hLength, hMem⟩ := h
  refine ⟨shells, hNodup, hLength, fun p => ?_⟩
  rw [hMem p]
  constructor
  · rintro ⟨hLive, hNone⟩
    exact ⟨⟨fun hEq => hChild (hEq ▸ hNone), hLive⟩, hNone⟩
  · rintro ⟨⟨_, hLive⟩, hNone⟩
    exact ⟨hLive, hNone⟩

variable {ts : List (Task Sp)}

/-- Live processes are tasks. -/
theorem QueueInv.length_ge (h : QueueInv tree ts) {l : List Slot}
    (hNodup : l.Nodup) (hLive : ∀ p ∈ l, tree.live p) :
    l.length ≤ ts.length := by
  have hSub : l.map some ⊆ ts.map Task.pcb := by
    intro x hx
    obtain ⟨p, hp, hEq⟩ := List.mem_map.1 hx
    rw [← hEq]
    exact (h.live_iff p).1 (hLive p hp)
  have hSome : (l.map some).Nodup :=
    List.Pairwise.map some (fun _ _ hNe hEq => hNe (Option.some.inj hEq)) hNodup
  have hLe := hSome.length_le_of_subset hSub
  simpa using hLe

/-- Tasks are live processes. -/
theorem QueueInv.length_le (h : QueueInv tree ts)
    (hFull : ∀ t ∈ ts, t.pcb ≠ none) {l : List Slot}
    (hAll : ∀ p, tree.live p → p ∈ l) : ts.length ≤ l.length := by
  have hSub : ts.map Task.pcb ⊆ l.map some := by
    intro x hx
    obtain ⟨t, ht, hPcb⟩ := List.mem_map.1 hx
    obtain ⟨p, hp⟩ := Option.ne_none_iff_exists'.1 (hFull t ht)
    rw [← hPcb, hp]
    refine List.mem_map_of_mem (hAll p ((h.live_iff p).2 ?_))
    rw [← hp]
    exact List.mem_map_of_mem ht
  have hLe := h.distinct.length_le_of_subset hSub
  simpa using hLe

end Roots

section Boot

variable {k : Globals Sp} {tree : ProcessTree Slot} {front : Task Sp}
  {others : List (Task Sp)} {cur : Slot}

/-- While the kernel boots it has started fewer than three shells. -/
theorem Scheduled.roots_lt (h : Scheduled k tree front others cur) {n : Nat}
    (hRoots : HasRoots tree n) (hBoot : booting k) : n < 3 := by
  obtain ⟨shells, hNodup, hLength, hLive⟩ := hRoots
  have hLe := h.queue.length_ge hNodup fun p hp => (hLive p hp).1
  have hShort := h.booting_iff.1 hBoot
  simp only [List.length_cons] at hLe
  omega

/-- And a slot is free. -/
theorem Scheduled.slot_of_booting (h : Scheduled k tree front others cur)
    (hBoot : booting k) : (freeSlot k).isSome := by
  cases hFree : freeSlot k with
  | some c => rfl
  | none =>
      have hAll : ∀ p, tree.live p := by
        intro p
        rw [← h.present_iff p]
        have hTaken := List.find?_eq_none.1 hFree p (List.mem_finRange p)
        simpa using hTaken
      have hLe := h.queue.length_ge (List.nodup_finRange maxProcess)
        fun p _ => hAll p
      have hShort := h.booting_iff.1 hBoot
      simp only [List.length_finRange, List.length_cons, maxProcess] at hLe
      omega

/-- After boot the parent is the caller. -/
theorem Scheduled.executeParent_up (h : Scheduled k tree front others cur)
    (hUp : ¬ booting k) : executeParent k = some cur := by
  unfold executeParent
  rw [h.curPcb]
  simp only [h.pid cur h.cur_live]
  rw [if_neg fun hShort => hUp (Or.inr hShort)]

/-- During boot there is none. -/
theorem Scheduled.executeParent_boot (h : Scheduled k tree front others cur)
    (hBoot : booting k) : executeParent k = none := by
  unfold executeParent
  rcases hBoot with hNone | hShort
  · rw [hNone]
  · rw [h.curPcb]
    simp only [if_pos hShort]

end Boot

/-- A shell that loads is always started during boot. -/
theorem LifeInv.boot_takes {fs : FileSys} {s : Life Sp}
    {linked : ProcessTree Slot} (h : LifeInv s linked) (hShell : ShellLoads fs)
    {isr : Regs Sp} (hBoot : booting (saveTask isr s.kernel)) :
    TakesSlot fs shell (nextConsole (saveTask isr s.kernel)) := by
  refine ⟨hShell.1, ?_⟩
  show (freeSlot s.kernel).isSome
  cases h.running with
  | initial hInit _ =>
      have hZero : freeSlot s.kernel = some 0 := by
        refine freeSlot_eq ?_ (fun p hp => absurd hp (Nat.not_lt_zero p.val))
        rw [hInit.userPde]
        exact initUserPde_absent 0
      rw [hZero]
      rfl
  | scheduled front others cur hSched =>
      exact hSched.slot_of_booting ((hSched.booting_saveTask isr).1 hBoot)

/-- How far the boot is, whether or not there is a process yet. -/
theorem LifeInv.ticks_lt {s : Life Sp} {linked : ProcessTree Slot}
    (h : LifeInv s linked) {n : Nat} (hRoots : HasRoots linked n)
    {isr : Regs Sp} (hBoot : booting (saveTask isr s.kernel)) : n < 3 := by
  cases h.running with
  | initial _ hEmpty =>
      subst hEmpty
      have hZero := hRoots.empty
      omega
  | scheduled front others cur hSched =>
      exact hSched.roots_lt hRoots ((hSched.booting_saveTask isr).1 hBoot)

/-- A process that ends has a parent. -/
theorem LifeInv.child_of_halt {s : Life Sp} {linked : ProcessTree Slot}
    (h : LifeInv s linked) {cur : Slot} (hCur : s.kernel.curPcb = some cur)
    (hRoot : ¬ haltsRoot s.kernel) : linked.parent cur ≠ none := by
  obtain ⟨_, _, hSched⟩ := h.scheduled hCur
  exact fun hNone => hRoot (hSched.haltsRoot_iff.2 (Or.inl hNone))

/-! ## Consoles -/

/-- The console variables before the first timer interrupt. -/
structure ConsoleInit (k : Globals Sp) : Prop where
  conIdx : k.conIdx = 0
  flag : k.conOvr.flag = false

/-- Every live process is on the console where it belongs, and there are three
consoles. -/
def Attached (s : Life Sp) : Prop :=
  ∀ p, s.callers.live p → (s.kernel.pcbs p).con = s.seat p ∧ s.seat p < 3

/-- What a step has to do with the consoles: everybody stays where it belongs;
the shell of the k-th interrupt of the boot is on console k-1; and a process
started by a process is on the console of its caller. -/
structure AttachedStep (fs : FileSys) (s : Life Sp) (i : SystemStep Sp) :
    Prop where
  attached : Attached ((lifeMachine fs).step s i)
  bootShell : ∀ isr exec c, i = .tick isr exec → newProcess fs s i = some c →
    (((lifeMachine fs).step s i).kernel.pcbs c).con = s.ticks
  child : ∀ strname temp cur c, i = .execute strname temp →
    s.kernel.curPcb = some cur → newProcess fs s i = some c →
    (((lifeMachine fs).step s i).kernel.pcbs c).con = (s.kernel.pcbs cur).con

/-- The override is only ever left set by the first interrupt, for console 0,
when everybody is there. -/
structure ConInv (s : Life Sp) (linked : ProcessTree Slot) : Prop where
  attached : Attached s
  override : s.kernel.conOvr.flag = true →
    s.kernel.conOvr.idx = 0 ∧ ∀ p, s.callers.live p → s.seat p = 0
  conIdx : s.kernel.conIdx = s.ticks
  roots : HasRoots linked s.ticks

/-- The choice of the console for any slot but the first. -/
theorem chooseCon_eq {k : Globals Sp} {c : Slot} (hNotZero : c ≠ 0)
    (p : Slot) :
    chooseCon k c (some p) =
      if k.conOvr.flag then (k.conOvr.idx, { k.conOvr with flag := false })
      else ((k.pcbs p).con, k.conOvr) := by
  have hVal : ¬ c.val = 0 := fun hEq => hNotZero (Fin.ext hEq)
  unfold chooseCon
  rw [if_neg hVal]

section Consoles

variable {fs : FileSys} {s : Life Sp} {linked : ProcessTree Slot}

/-- A change that concerns neither the consoles nor who is live. -/
theorem ConInv.same (h : ConInv s linked) {k' : Globals Sp}
    (hCon : ∀ p, (k'.pcbs p).con = (s.kernel.pcbs p).con)
    (hOvr : k'.conOvr = s.kernel.conOvr) (hIdx : k'.conIdx = s.kernel.conIdx) :
    ConInv { s with kernel := k' } linked where
  attached := fun p hp => by
    show (k'.pcbs p).con = s.seat p ∧ s.seat p < 3
    rw [hCon p]
    exact h.attached p hp
  override := by
    intro hFlag
    obtain ⟨hZero, hAll⟩ := h.override (hOvr ▸ hFlag)
    exact ⟨by rw [hOvr]; exact hZero, hAll⟩
  conIdx := hIdx.trans h.conIdx
  roots := h.roots

/-- A program started by process `cur` goes to its console. -/
theorem ConInv.started (h : ConInv s linked) (hLife : LifeInv s linked)
    {k' : Globals Sp} {cur c : Slot} (hCur : s.kernel.curPcb = some cur)
    (hFree : ¬ linked.live c) (hBorn : Born s.kernel k' c)
    (hOthers : ∀ p, p ≠ c → k'.pcbs p = s.kernel.pcbs p) :
    (k'.pcbs c).con = (s.kernel.pcbs cur).con ∧
    ConInv
      { s with
        kernel := k'
        callers := s.callers.spawn (some cur) c
        seat := Function.update s.seat c (s.seat cur) }
      (linked.spawn (executeParent s.kernel) c) := by
  have hFree' : ¬ s.callers.live c := fun hLive =>
    hFree ((hLife.live_iff c).2 hLive)
  have hNotZero : c ≠ 0 := fun hEq => hFree' (hEq ▸ hLife.zero_live hCur)
  have hCurLive := hLife.cur_live hCur
  have hCon := hBorn.con
  have hOvr := hBorn.conOvr
  rw [hCur, chooseCon_eq hNotZero] at hCon hOvr
  have hOff : k'.conOvr.flag = false := by
    rw [hOvr]
    split
    · rfl
    · rename_i hFlag
      simpa using hFlag
  have hChild : (k'.pcbs c).con = (s.kernel.pcbs cur).con := by
    rw [hCon]
    split
    · rename_i hFlag
      obtain ⟨hIdx, hAll⟩ := h.override hFlag
      rw [hIdx, (h.attached cur hCurLive).1, hAll cur hCurLive]
    · rfl
  refine ⟨hChild, ?_, ?_, hBorn.conIdx.trans h.conIdx, h.roots.spawn hFree _⟩
  · intro p hp
    by_cases hEq : p = c
    · subst hEq
      simp only [Function.update_self, hChild]
      exact h.attached cur hCurLive
    · simp only [Function.update_of_ne hEq, hOthers p hEq]
      exact h.attached p (hp.resolve_left hEq)
  · intro hFlag
    rw [hOff] at hFlag
    contradiction

/-- The shell of a timer interrupt goes to the next console. -/
theorem ConInv.bootStarted (h : ConInv s linked) (hLife : LifeInv s linked)
    {isr : Regs Sp} (hBoot : booting (saveTask isr s.kernel))
    {k' : Globals Sp} {c : Slot} (hFree : ¬ linked.live c)
    (hBorn : Born (nextConsole (saveTask isr s.kernel)) k' c)
    (hOthers : ∀ p, p ≠ c → k'.pcbs p = s.kernel.pcbs p) :
    (k'.pcbs c).con = s.ticks ∧
    ConInv
      { kernel := k', callers := s.callers.spawn none c, hung := s.hung
        ticks := s.ticks + 1, seat := Function.update s.seat c s.ticks }
      (linked.spawn none c) := by
  have hTicks := hLife.ticks_lt h.roots hBoot
  have hSet : (nextConsole (saveTask isr s.kernel)).conOvr =
      { idx := s.ticks, flag := true } := by
    rw [← h.conIdx]
    rfl
  have hFirst : c = 0 → s.ticks = 0 ∧ ∀ p, ¬ s.callers.live p := by
    intro hZero
    cases hLife.running with
    | initial _ hEmpty =>
        refine ⟨(hEmpty ▸ h.roots).empty, fun p hLive => ?_⟩
        have hOld := (hLife.live_iff p).2 hLive
        rw [hEmpty] at hOld
        exact hOld
    | scheduled front others cur hSched =>
        exact absurd (hZero ▸ hSched.zero_live) hFree
  have hCon : (k'.pcbs c).con = s.ticks := by
    rw [hBorn.con]
    unfold chooseCon
    by_cases hVal : c.val = 0
    · rw [if_pos hVal]
      exact (hFirst (Fin.ext hVal)).1.symm
    · rw [if_neg hVal, hSet]
      rfl
  refine ⟨hCon, ?_, ?_, ?_, h.roots.spawn_root hFree⟩
  · intro p hp
    by_cases hEq : p = c
    · subst hEq
      simp only [Function.update_self, hCon]
      exact ⟨trivial, hTicks⟩
    · simp only [Function.update_of_ne hEq, hOthers p hEq]
      exact h.attached p (hp.resolve_left hEq)
  · intro hFlag
    have hOvr := hBorn.conOvr
    unfold chooseCon at hOvr
    by_cases hVal : c.val = 0
    · obtain ⟨hZero, hNone⟩ := hFirst (Fin.ext hVal)
      rw [if_pos hVal, hSet] at hOvr
      refine ⟨by rw [hOvr]; exact hZero, fun p hp => ?_⟩
      have hEq : p = c := hp.resolve_right (hNone p)
      simp only [hEq, Function.update_self]
      exact hZero
    · rw [if_neg hVal, hSet] at hOvr
      rw [hOvr] at hFlag
      contradiction
  · rw [hBorn.conIdx]
    show s.kernel.conIdx + 1 = s.ticks + 1
    rw [h.conIdx]

/-- A process that ends. -/
theorem ConInv.ended (h : ConInv s linked) (hLife : LifeInv s linked)
    {k' : Globals Sp} {cur : Slot} (hRoot : ¬ haltsRoot s.kernel)
    (hCur : s.kernel.curPcb = some cur) (hEnded : Ended s.kernel k' cur) :
    ConInv { s with kernel := k', callers := s.callers.exit cur }
      (linked.exit cur) where
  attached := by
    rintro p ⟨hNe, hLive⟩
    show (k'.pcbs p).con = s.seat p ∧ s.seat p < 3
    rw [hEnded.pcbs, Function.update_of_ne hNe]
    exact h.attached p hLive
  override := by
    intro hFlag
    obtain ⟨hIdx, hAll⟩ := h.override (hEnded.conOvr ▸ hFlag)
    exact ⟨by rw [hEnded.conOvr]; exact hIdx, fun p hp => hAll p hp.2⟩
  conIdx := hEnded.conIdx.trans h.conIdx
  roots := h.roots.exit (hLife.child_of_halt hCur hRoot)

end Consoles

/-- One step keeps the invariant, and puts a new process where it belongs. -/
theorem ConInv.step {fs : FileSys} (hShell : ShellLoads fs) {s s' : Life Sp}
    {linked linked' : ProcessTree Slot} {i : SystemStep Sp}
    (h : ConInv s linked) (hLife : LifeInv s linked)
    (hStep : (lifeMachine fs).step s i = s')
    (hEffect : Effect fs s linked i s' linked') :
    AttachedStep fs s i ∧ ConInv s' linked' := by
  have hQuiet : newProcess fs s i = none → ConInv s' linked' →
      AttachedStep fs s i ∧ ConInv s' linked' := by
    intro hNew hNext
    refine ⟨{ attached := ?_, bootShell := ?_, child := ?_ }, hNext⟩
    · rw [hStep]
      exact hNext.attached
    · intro isr exec c _ hc
      rw [hNew] at hc
      contradiction
    · intro strname temp cur c _ _ hc
      rw [hNew] at hc
      contradiction
  cases hEffect with
  | quiet i k' hNew hSame hOvr hIdx =>
      exact hQuiet hNew (h.same (fun p => by rw [hSame.pcbs]) hOvr hIdx)
  | bootFailed isr exec k' _ hBoot hTakes =>
      exact absurd (hLife.boot_takes hShell hBoot) hTakes
  | bootStarted isr exec k' c hNew hBoot hFree hBorn hOthers =>
      obtain ⟨hCon, hNext⟩ := h.bootStarted hLife hBoot hFree hBorn hOthers
      refine ⟨{ attached := ?_, bootShell := ?_, child := nofun }, hNext⟩
      · rw [hStep]
        exact hNext.attached
      · intro _ _ d _ hd
        rw [hNew] at hd
        rw [hStep, ← Option.some.inj hd]
        exact hCon
  | started strname temp k' cur c hNew hCur hFree hBorn hOthers =>
      obtain ⟨hCon, hNext⟩ := h.started hLife hCur hFree hBorn hOthers
      refine ⟨{ attached := ?_, bootShell := nofun, child := ?_ }, hNext⟩
      · rw [hStep]
        exact hNext.attached
      · intro _ _ p d _ hp hd
        rw [hNew] at hd
        rw [hCur] at hp
        rw [hStep, ← Option.some.inj hd, ← Option.some.inj hp]
        exact hCon
  | ended temp k' cur hRoot _ hCur hEnded =>
      exact hQuiet rfl (h.ended hLife hRoot hCur hEnded)
  | filed c r files cur hCur =>
      refine hQuiet rfl (h.same (fun p => ?_) ?_ ?_)
      · rw [Globals.writePcb_some hCur]
        by_cases hEq : p = cur
        · subst hEq
          simp
        · simp [hEq]
      · rw [Globals.writePcb_some hCur]
      · rw [Globals.writePcb_some hCur]
  | mapped screenStart cur =>
      refine hQuiet rfl (h.same (fun p => ?_) rfl rfl)
      by_cases hEq : p = cur
      · subst hEq
        simp [mapVideo]
      · simp [mapVideo, hEq]

/--
**Consoles.**  With a shell that loads, in every run from boot on in which no
program fails after it took a slot, every step leaves every process on the
console where it belongs, one of three: the boot shells one each, every other
process that of its caller.
-/
theorem console_attachment {fs : FileSys} (hShell : ShellLoads fs)
    {k : Globals Sp} (hInit : AfterInit k) (hCon : ConsoleInit k)
    (run : List (SystemStep Sp))
    (hLegal : (lifeMachine fs).Legal (lifeStart k) run) :
    (lifeMachine fs).Always (AttachedStep fs) (lifeStart k) run := by
  refine (lifeMachine fs).always_of_invariant
    (I := fun s => ∃ linked, LifeInv s linked ∧ ConInv s linked)
    (q := fun _ _ => True) ?_ run (lifeStart k)
    ⟨emptyTree, lifeStart_inv hInit, ?_⟩ hLegal
    ((lifeMachine fs).always_of_forall (fun _ _ => trivial) _ _)
  · rintro s i ⟨linked, hLife, hInv⟩ hStep _
    obtain ⟨s', linked', hEq, hNext, hEffect⟩ := hLife.step i hStep
    obtain ⟨hHere, hKept⟩ := hInv.step hShell hLife hEq hEffect
    exact ⟨hHere, by rw [hEq]; exact ⟨linked', hNext, hKept⟩⟩
  · exact
      { attached := fun p hp => hp.elim
        override := by
          intro hFlag
          rw [show (lifeStart k).kernel.conOvr.flag = false from hCon.flag]
            at hFlag
          contradiction
        conIdx := hCon.conIdx
        roots := ⟨[], List.nodup_nil, rfl, nofun⟩ }

private theorem initGlobals_console (sp : Sp) : ConsoleInit (initGlobals sp) where
  conIdx := rfl
  flag := rfl

/-- The first shell starts a program before the other two are up. -/
def earlyRun : List (SystemStep Nat) :=
  [.tick ⟨0, 0⟩ ⟨0, 0⟩, .execute shell ⟨0, 0⟩, .tick ⟨0, 0⟩ ⟨0, 0⟩,
    .execute shell ⟨0, 0⟩, .halt ⟨0, 0, 0, true, none⟩]

private theorem earlyRun_legal :
    (lifeMachine programImage).Legal (lifeStart (initGlobals 0)) earlyRun := by
  decide +kernel

theorem console_attachment_early :
    (lifeMachine programImage).Always (AttachedStep programImage)
      (lifeStart (initGlobals 0)) earlyRun :=
  console_attachment programImage_shell (initGlobals_afterInit 0)
    (initGlobals_console 0) earlyRun earlyRun_legal

/-- `"bad"`. -/
def bad : CString := [0x62#8, 0x61#8, 0x64#8]

/-- Four failures fill the slots before the second timer interrupt, which then
finds none for its shell; a `halt` gives one back. -/
def lateRun : List (SystemStep Nat) :=
  [.tick ⟨0, 0⟩ ⟨0, 0⟩, .execute bad ⟨0, 0⟩, .execute bad ⟨0, 0⟩,
    .execute bad ⟨0, 0⟩, .execute shell ⟨0, 0⟩, .execute bad ⟨0, 0⟩,
    .tick ⟨0, 0⟩ ⟨0, 0⟩, .halt ⟨0, 0, 0, true, none⟩]

/-- The next program is on console 1, its caller on console 0. -/
theorem lateRun_elsewhere :
    ((lifeMachine programImage).run (lifeStart (initGlobals 0)) lateRun).hung =
      false ∧
    ¬ (lifeMachine programImage).Always (AttachedStep programImage)
      (lifeStart (initGlobals 0)) (lateRun ++ [.execute shell ⟨0, 0⟩]) := by
  obtain ⟨hRuns, hCaller, hChild, hCon⟩ :
      let s := (lifeMachine programImage).run (lifeStart (initGlobals 0)) lateRun
      let s' := (lifeMachine programImage).step s (.execute shell ⟨0, 0⟩)
      s.hung = false ∧ s.kernel.curPcb = some 4 ∧
        newProcess programImage s (.execute shell ⟨0, 0⟩) = some 5 ∧
        (s'.kernel.pcbs 5).con ≠ (s.kernel.pcbs 4).con := by
    decide +kernel
  refine ⟨hRuns, ?_⟩
  rw [Machine.always_append]
  rintro ⟨_, hLast, _⟩
  exact hCon (hLast.child shell ⟨0, 0⟩ 4 5 rfl hCaller hChild)

/-! ## Parents -/

/-- The PCBs say who called `execute`; the processes without a parent are the
shells of the boot, three at most; and the tasks that are disabled are those
of the callers whose child is live. -/
structure Parenthood (s : Life Sp) : Prop where
  listed : ∀ p, s.callers.live p ↔
    some p ∈ (tasks s.kernel.taskQueue).map Task.pcb
  links : ∀ p, s.callers.live p →
    (s.kernel.pcbs p).parentPid = s.callers.parent p
  shells : ∃ shells : List Slot, shells.Nodup ∧ shells.length = s.ticks ∧
    ∀ p, p ∈ shells ↔ s.callers.live p ∧ (s.kernel.pcbs p).parentPid = none
  three : s.ticks ≤ 3
  waits : ∀ t ∈ tasks s.kernel.taskQueue, ∀ p, t.pcb = some p →
    (t.enabled = false ↔ s.callers.HasChild p)

/-- After a step; and the first three timer interrupts, no others, start a
shell. -/
structure ParenthoodStep (fs : FileSys) (s : Life Sp) (i : SystemStep Sp) :
    Prop where
  holds : Parenthood ((lifeMachine fs).step s i)
  boots : ∀ isr exec, i = .tick isr exec →
    (newProcess fs s i ≠ none ↔ s.ticks < 3)

/-- No process starts a program before the three shells are up. -/
def StartsAfterBoot (fs : FileSys) (s : Life Sp) : SystemStep Sp → Prop
  | .execute strname _ => booting s.kernel → ¬ TakesSlot fs strname s.kernel
  | _ => True

/-- The parents in the PCBs are the callers, and before the three shells are up
there is nothing but shells. -/
structure ParentInv (callers linked : ProcessTree Slot) (ticks : Nat) :
    Prop where
  same : ∀ p, callers.live p → linked.parent p = callers.parent p
  roots : ExactRoots linked ticks
  three : ticks ≤ 3
  early : ticks < 3 → ∀ p, linked.live p → linked.parent p = none

section Parents

variable {fs : FileSys} {s : Life Sp} {linked : ProcessTree Slot}

theorem Scheduled.booting_iff_roots {k : Globals Sp} {front : Task Sp}
    {others : List (Task Sp)} {cur : Slot}
    (h : Scheduled k linked front others cur) {callers : ProcessTree Slot}
    {n : Nat} (hInv : ParentInv callers linked n) : booting k ↔ n < 3 := by
  refine ⟨h.roots_lt hInv.roots.hasRoots, fun hLt => ?_⟩
  obtain ⟨shells, _, hLength, hMem⟩ := hInv.roots
  have hLe := h.queue.length_le h.lists.full fun p hp =>
    (hMem p).2 ⟨hp, hInv.early hLt p hp⟩
  rw [h.booting_iff]
  simp only [List.length_cons] at hLe
  omega

theorem LifeInv.booting_iff (h : LifeInv s linked)
    (hInv : ParentInv s.callers linked s.ticks) (isr : Regs Sp) :
    booting (saveTask isr s.kernel) ↔ s.ticks < 3 := by
  refine ⟨h.ticks_lt hInv.roots.hasRoots, fun hLt => ?_⟩
  cases h.running with
  | initial hInit _ => exact Or.inl hInit.curPcb
  | scheduled front others cur hSched =>
      exact (hSched.booting_saveTask isr).2 ((hSched.booting_iff_roots hInv).2 hLt)

/-- Trees with the same parents have the same waiting processes. -/
theorem ParentInv.hasChild_iff {callers : ProcessTree Slot} {n : Nat}
    (h : ParentInv callers linked n)
    (hLive : ∀ p, linked.live p ↔ callers.live p) (p : Slot) :
    linked.HasChild p ↔ callers.HasChild p := by
  constructor
  · rintro ⟨c, hc, hLink⟩
    have hc' := (hLive c).1 hc
    exact ⟨c, hc', (h.same c hc').symm.trans hLink⟩
  · rintro ⟨c, hc, hLink⟩
    exact ⟨c, (hLive c).2 hc, (h.same c hc).trans hLink⟩

/-- What the invariant says about the kernel. -/
theorem LifeInv.toParenthood (h : LifeInv s linked)
    (hInv : ParentInv s.callers linked s.ticks) : Parenthood s := by
  cases h.running with
  | initial hInit hEmpty =>
      have hNone : ∀ p, ¬ s.callers.live p := by
        intro p hp
        have hOld := (h.live_iff p).2 hp
        rw [hEmpty] at hOld
        exact hOld
      have hTasks : tasks s.kernel.taskQueue = [] := by
        cases hQueue : s.kernel.taskQueue with
        | nil => rfl
        | cons t rest =>
            have hFree := (hInit.empty t (by simp [hQueue])).1
            simp [tasks, hFree]
      have hZero : s.ticks = 0 := (hEmpty ▸ hInv.roots.hasRoots).empty
      exact
        { listed := fun p => by simp [hTasks, hNone p]
          links := fun p hp => absurd hp (hNone p)
          shells := ⟨[], List.nodup_nil, hZero.symm, fun p => by simp [hNone p]⟩
          three := hInv.three
          waits := by simp [hTasks] }
  | scheduled front others cur hSched =>
      have hLink : ∀ p, s.callers.live p →
          (s.kernel.pcbs p).parentPid = s.callers.parent p := fun p hp =>
        (hSched.parentPid p ((h.live_iff p).2 hp)).trans (hInv.same p hp)
      refine
        { listed := ?_, links := hLink, shells := ?_, three := hInv.three
          waits := ?_ }
      · rw [hSched.lists.tasks_eq]
        exact fun p => (h.live_iff p).symm.trans (hSched.queue.live_iff p)
      · obtain ⟨shells, hNodup, hLength, hMem⟩ := hInv.roots
        refine ⟨shells, hNodup, hLength, fun p => (hMem p).trans ?_⟩
        rw [← h.live_iff p]
        exact and_congr_right fun hp => by rw [hSched.parentPid p hp]
      · rw [hSched.lists.tasks_eq]
        intro t ht p hp
        rw [hSched.queue.disabled_iff t ht p hp]
        exact hInv.hasChild_iff h.live_iff p

/-- When a call of `execute` starts a program. -/
theorem startedBy_iff {k : Globals Sp} {front : Task Sp}
    {rest : List (Task Sp)} {strname : CString} (temp : Regs Sp)
    (hQueue : k.taskQueue = front :: rest)
    (hLoads : ¬ (TakesSlot fs strname k ∧ LoadFails fs strname)) :
    startedBy fs strname temp k ≠ none ↔ TakesSlot fs strname k := by
  unfold startedBy
  by_cases hTakes : TakesSlot fs strname k
  · rcases execute_takesSlot temp hQueue hTakes with
      ⟨hFails, _⟩ | ⟨_, c, k', child, _, hStart, hExec⟩
    · exact absurd ⟨hTakes, hFails⟩ hLoads
    · simp [hExec, hStart.curPcb, hTakes]
  · have hExec : execute fs strname temp k = (.failed, k) :=
      execute_early temp (by rw [hQueue]; exact List.cons_ne_nil _ _) hTakes
    simp [hExec, hTakes]

/-- A shell that a timer interrupt started. -/
theorem ParentInv.spawn_root {callers : ProcessTree Slot} {n : Nat} {c : Slot}
    (h : ParentInv callers linked n) (hFree : ¬ linked.live c) (hLt : n < 3) :
    ParentInv (callers.spawn none c) (linked.spawn none c) (n + 1) where
  same := by
    intro p hp
    by_cases hEq : p = c
    · subst hEq
      rw [ProcessTree.spawn_parent_self, ProcessTree.spawn_parent_self]
    · rw [ProcessTree.spawn_parent_of_ne hEq, ProcessTree.spawn_parent_of_ne hEq]
      exact h.same p (hp.resolve_left hEq)
  roots := h.roots.spawn_root hFree
  three := hLt
  early := by
    intro _ p hp
    by_cases hEq : p = c
    · subst hEq
      exact ProcessTree.spawn_parent_self
    · rw [ProcessTree.spawn_parent_of_ne hEq]
      exact h.early hLt p (hp.resolve_left hEq)

/-- A program that a process started after boot. -/
theorem ParentInv.spawn_child {callers : ProcessTree Slot} {n : Nat}
    {c cur : Slot} (h : ParentInv callers linked n) (hFree : ¬ linked.live c)
    (hUp : ¬ n < 3) :
    ParentInv (callers.spawn (some cur) c) (linked.spawn (some cur) c) n where
  same := by
    intro p hp
    by_cases hEq : p = c
    · subst hEq
      rw [ProcessTree.spawn_parent_self, ProcessTree.spawn_parent_self]
    · rw [ProcessTree.spawn_parent_of_ne hEq, ProcessTree.spawn_parent_of_ne hEq]
      exact h.same p (hp.resolve_left hEq)
  roots := h.roots.spawn_child hFree cur
  three := h.three
  early := fun hLt => absurd hLt hUp

theorem ParentInv.exit {callers : ProcessTree Slot} {n : Nat} {cur : Slot}
    (h : ParentInv callers linked n) (hChild : linked.parent cur ≠ none) :
    ParentInv (callers.exit cur) (linked.exit cur) n where
  same := fun p hp => h.same p hp.2
  roots := h.roots.exit hChild
  three := h.three
  early := fun hLt p hp => h.early hLt p hp.2

/-- One step. -/
theorem ParentInv.step (hShell : ShellLoads fs) {s' : Life Sp}
    {linked' : ProcessTree Slot} {i : SystemStep Sp}
    (h : ParentInv s.callers linked s.ticks) (hLife : LifeInv s linked)
    (hLegal : (lifeMachine fs).legal s i)
    (hEffect : Effect fs s linked i s' linked')
    (hAfter : StartsAfterBoot fs s i) :
    ParentInv s'.callers linked' s'.ticks := by
  cases hEffect with
  | quiet | filed | mapped => exact h
  | bootFailed isr exec k' _ hBoot hTakes =>
      exact absurd (hLife.boot_takes hShell hBoot) hTakes
  | bootStarted isr exec k' c _ hBoot hFree =>
      exact h.spawn_root hFree ((hLife.booting_iff h isr).1 hBoot)
  | started strname temp k' cur c hNew hCur hFree =>
      obtain ⟨front, others, hSched⟩ := hLife.scheduled hCur
      obtain ⟨rest, hQueue⟩ := hSched.head
      have hTakes := (startedBy_iff temp hQueue hLegal.2).1 (by
        show newProcess fs s (.execute strname temp) ≠ none
        rw [hNew]
        exact Option.some_ne_none c)
      have hUp : ¬ booting s.kernel := fun hBoot => hAfter hBoot hTakes
      rw [hSched.executeParent_up hUp]
      exact h.spawn_child hFree fun hLt =>
        hUp ((hSched.booting_iff_roots h).2 hLt)
  | ended temp k' cur hRoot _ hCur =>
      exact h.exit (hLife.child_of_halt hCur hRoot)

/-- The timer interrupts that start a shell. -/
theorem LifeInv.boots (hLife : LifeInv s linked) (hShell : ShellLoads fs)
    (h : ParentInv s.callers linked s.ticks) (isr exec : Regs Sp) :
    newProcess fs s (.tick isr exec) ≠ none ↔ s.ticks < 3 := by
  rw [← hLife.booting_iff h isr]
  show bootShell fs isr exec s.kernel ≠ none ↔ _
  unfold bootShell
  by_cases hBoot : booting (saveTask isr s.kernel)
  · rw [if_pos hBoot]
    have hSaved : Running (nextConsole (saveTask isr s.kernel)) linked :=
      (hLife.running.boot isr hBoot).1
    obtain ⟨front, rest, hQueue⟩ := hSaved.queue_ne
    have hTakes := hLife.boot_takes hShell hBoot
    exact iff_of_true ((startedBy_iff exec hQueue
      fun hBoth => hShell.2 hBoth.2).2 hTakes) hBoot
  · rw [if_neg hBoot]
    exact iff_of_false (fun hNe => hNe rfl) hBoot

/-- A program started during boot gets no parent. -/
theorem ParentInv.only {s' : Life Sp} {linked' : ProcessTree Slot}
    {i : SystemStep Sp} (hLife : LifeInv s linked)
    (hLegal : (lifeMachine fs).legal s i) (hNext : LifeInv s' linked')
    (hEffect : Effect fs s linked i s' linked') (hHolds : Parenthood s') :
    StartsAfterBoot fs s i := by
  cases i with
  | execute strname temp =>
      intro hBoot hTakes
      obtain ⟨cur, hCur⟩ := Option.ne_none_iff_exists'.1 hLegal.1
      obtain ⟨front, others, hSched⟩ := hLife.scheduled hCur
      obtain ⟨rest, hQueue⟩ := hSched.head
      have hStarts := (startedBy_iff temp hQueue hLegal.2).2 hTakes
      cases hEffect with
      | quiet _ k' hNew => exact hStarts hNew
      | started _ _ k' p c hNew hp hFree hBorn =>
          have hLive : (s.callers.spawn (some p) c).live c := Or.inl rfl
          have hLink := hHolds.links c hLive
          rw [ProcessTree.spawn_parent_self] at hLink
          cases hNext.running with
          | initial _ hEmpty =>
              have hEmptyLive : emptyTree.live c := hEmpty ▸ Or.inl rfl
              exact hEmptyLive
          | scheduled front' others' cur' hSched' =>
              have hPcb := hSched'.parentPid c (Or.inl rfl)
              rw [ProcessTree.spawn_parent_self,
                hSched.executeParent_boot hBoot] at hPcb
              exact nomatch hPcb.symm.trans hLink
  | tick | halt | file | vidmap => trivial

end Parents

/--
**Parents.**  With a shell that loads, from boot on: in every run exactly the
shells that the first three timer interrupts start have no parent, and every
other process has its caller as parent, which is disabled until that child
halts, if and only if no process starts a program before the three shells are
up.
-/
theorem parenthood {fs : FileSys} (hShell : ShellLoads fs) {k : Globals Sp}
    (hInit : AfterInit k) (run : List (SystemStep Sp))
    (hLegal : (lifeMachine fs).Legal (lifeStart k) run) :
    (lifeMachine fs).Always (ParenthoodStep fs) (lifeStart k) run ↔
      (lifeMachine fs).Always (StartsAfterBoot fs) (lifeStart k) run := by
  refine (lifeMachine fs).always_iff_of_invariant
    (I := fun s => ∃ linked, LifeInv s linked ∧
      ParentInv s.callers linked s.ticks)
    ?_ ?_ run (lifeStart k) ⟨emptyTree, lifeStart_inv hInit, ?_⟩ hLegal
  · rintro s i ⟨linked, hLife, hInv⟩ hStep hAfter
    obtain ⟨s', linked', hEq, hNext, hEffect⟩ := hLife.step i hStep
    have hKept := hInv.step hShell hLife hStep hEffect hAfter
    refine ⟨{ holds := ?_, boots := ?_ }, ?_⟩
    · rw [hEq]
      exact hNext.toParenthood hKept
    · intro isr exec hTick
      rw [hTick]
      exact hLife.boots hShell hInv isr exec
    · rw [hEq]
      exact ⟨linked', hNext, hKept⟩
  · rintro s i ⟨linked, hLife, hInv⟩ hStep hHolds
    obtain ⟨s', linked', hEq, hNext, hEffect⟩ := hLife.step i hStep
    have hAfter := hHolds.holds
    rw [hEq] at hAfter
    exact ParentInv.only hLife hStep hNext hEffect hAfter
  · exact
      { same := fun _ hp => hp.elim
        roots := ⟨[], List.nodup_nil, rfl, fun p => by
          simp [emptyTree]⟩
        three := Nat.zero_le 3
        early := fun _ _ hp => hp.elim }

/-- Three shells, a child and its end. -/
theorem parenthood_child :
    (lifeMachine programImage).Always (ParenthoodStep programImage)
      (lifeStart (initGlobals 0))
      (List.replicate 3 (.tick ⟨0, 0⟩ ⟨0, 0⟩) ++
        [.execute shell ⟨0, 0⟩, .halt ⟨0, 0, 0, true, none⟩]) := by
  refine (parenthood programImage_shell (initGlobals_afterInit 0) _
    (by decide +kernel)).2 ⟨trivial, trivial, trivial, ?_, trivial, trivial⟩
  exact fun hBoot => absurd hBoot (by decide +kernel)

/-- A program that the first shell starts at once has no parent. -/
theorem earlyRun_orphan :
    (lifeMachine programImage).Legal (lifeStart (initGlobals 0)) earlyRun ∧
    ¬ (lifeMachine programImage).Always (ParenthoodStep programImage)
      (lifeStart (initGlobals 0)) earlyRun := by
  refine ⟨earlyRun_legal, ?_⟩
  rintro ⟨_, hExec, _⟩
  have hLink := hExec.holds.links 1 (Or.inl rfl)
  revert hLink
  decide +kernel

end CompE.Kernel
