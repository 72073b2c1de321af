import CompE.Kernel.SystemCalls

/-!
# One step of the kernel, from boot on

`Running` is the state of the scheduler between two steps: nothing started
yet, or the invariant of `Kernel.Scheduled`.  `Effect` lists what a step can
do, with everything that the properties of processes need to know about it,
and `Running.step` shows that a legal step does one of these things and leaves
the kernel running.  The properties of tables, mappings, parents and consoles
are each proved by cases on `Effect`.
-/

namespace CompE.Kernel

open CompE.Library

variable {Sp : Type}

/-- Nothing has been started yet, or the scheduler's invariant holds with the
parents that the PCBs give. -/
inductive Running (k : Globals Sp) (linked : ProcessTree Slot) : Prop where
  | initial (h : AfterInit k) (hEmpty : linked = emptyTree)
  | scheduled (front : Task Sp) (others : List (Task Sp)) (cur : Slot)
      (h : Scheduled k linked front others cur)

/-- Nothing that belongs to a process differs. -/
structure SameProcesses (k k' : Globals Sp) : Prop where
  pcbs : k'.pcbs = k.pcbs
  vmemTable2 : k'.vmemTable2 = k.vmemTable2

/-- The process that a step starts. -/
def newProcess (fs : FileSys) (s : Life Sp) : SystemStep Sp → Option Slot
  | .tick isr exec => bootShell fs isr exec s.kernel
  | .execute strname temp => startedBy fs strname temp s.kernel
  | _ => none

/-- What a step can do. -/
inductive Effect (fs : FileSys) (s : Life Sp) (linked : ProcessTree Slot) :
    SystemStep Sp → Life Sp → ProcessTree Slot → Prop where
  /-- a timer interrupt after boot, a call that fails, a root shell's `halt` -/
  | quiet (i : SystemStep Sp) (k' : Globals Sp)
      (hNew : newProcess fs s i = none)
      (hSame : SameProcesses s.kernel k')
      (hOvr : k'.conOvr = s.kernel.conOvr)
      (hIdx : k'.conIdx = s.kernel.conIdx)
      (hRoot : ∀ temp, i = .halt temp → haltsRoot s.kernel) :
      Effect fs s linked i { s with kernel := k' } linked
  /-- a timer interrupt during boot that cannot start the shell -/
  | bootFailed (isr exec : Regs Sp) (k' : Globals Sp)
      (hNew : newProcess fs s (.tick isr exec) = none)
      (hBoot : booting (saveTask isr s.kernel))
      (hShell : ¬ TakesSlot fs shell (nextConsole (saveTask isr s.kernel)))
      (hSame : SameProcesses s.kernel k') :
      Effect fs s linked (.tick isr exec)
        { s with kernel := k', ticks := s.ticks + 1 } linked
  /-- a shell started during boot -/
  | bootStarted (isr exec : Regs Sp) (k' : Globals Sp) (c : Slot)
      (hNew : newProcess fs s (.tick isr exec) = some c)
      (hBoot : booting (saveTask isr s.kernel))
      (hFree : ¬ linked.live c)
      (hBorn : Born (nextConsole (saveTask isr s.kernel)) k' c)
      (hOthers : ∀ p, p ≠ c → k'.pcbs p = s.kernel.pcbs p) :
      Effect fs s linked (.tick isr exec)
        { kernel := k', callers := s.callers.spawn none c, hung := s.hung
          ticks := s.ticks + 1, seat := Function.update s.seat c s.ticks }
        (linked.spawn none c)
  /-- a program started by a process -/
  | started (strname : CString) (temp : Regs Sp) (k' : Globals Sp)
      (cur c : Slot)
      (hNew : newProcess fs s (.execute strname temp) = some c)
      (hCur : s.kernel.curPcb = some cur)
      (hFree : ¬ linked.live c)
      (hBorn : Born s.kernel k' c)
      (hOthers : ∀ p, p ≠ c → k'.pcbs p = s.kernel.pcbs p) :
      Effect fs s linked (.execute strname temp)
        { s with
          kernel := k'
          callers := s.callers.spawn (some cur) c
          seat := Function.update s.seat c (s.seat cur) }
        (linked.spawn (executeParent s.kernel) c)
  /-- the end of a process with a parent -/
  | ended (temp : Task Sp) (k' : Globals Sp) (cur : Slot)
      (hRoot : ¬ haltsRoot s.kernel) (hNotZero : cur ≠ 0)
      (hCur : s.kernel.curPcb = some cur)
      (hEnded : Ended s.kernel k' cur) :
      Effect fs s linked (.halt temp)
        { s with kernel := k', callers := s.callers.exit cur }
        (linked.exit cur)
  /-- a call on files that returns -/
  | filed (c : FileCall) (r : CallResult) (files : FileArray) (cur : Slot)
      (hCur : s.kernel.curPcb = some cur)
      (hRun : c.run fs (s.kernel.pcbs cur).fileArray = some (r, files)) :
      Effect fs s linked (.file c)
        { s with kernel := s.kernel.writePcb ({ · with fileArray := files }) }
        linked
  /-- `vidmap` behind its first check -/
  | mapped (screenStart : Nat) (cur : Slot)
      (hCur : s.kernel.curPcb = some cur) :
      Effect fs s linked (.vidmap screenStart)
        { s with kernel := mapVideo s.kernel cur } linked

/-! ## Timer interrupts -/

theorem Scheduled.booting_saveTask {k : Globals Sp}
    {tree : ProcessTree Slot} {front : Task Sp} {others : List (Task Sp)}
    {cur : Slot} (h : Scheduled k tree front others cur) (isr : Regs Sp) :
    booting (Kernel.saveTask isr k) ↔ booting k :=
  (h.saveTask isr).booting_iff.trans h.booting_iff.symm

/-- After boot a timer interrupt changes no process. -/
theorem pitInterrupt_same {fs : FileSys} {isr exec : Regs Sp}
    {k k' : Globals Sp} (hUp : ¬ booting (saveTask isr k))
    (hTick : pitInterrupt fs isr exec k = some k') :
    SameProcesses k k' ∧ k'.conOvr = k.conOvr ∧ k'.conIdx = k.conIdx := by
  have hSwitch : ∀ (queue : List (Task Sp)) (k1 : Globals Sp),
      SameProcesses k1 (switchTask queue k1) ∧
        (switchTask queue k1).conOvr = k1.conOvr ∧
        (switchTask queue k1).conIdx = k1.conIdx := by
    intro queue k1
    unfold switchTask
    split
    · exact ⟨⟨rfl, rfl⟩, rfl, rfl⟩
    · simp only
      split
      · exact ⟨⟨rfl, rfl⟩, rfl, rfl⟩
      · unfold swapTaskPaging
        split
        · exact ⟨⟨rfl, rfl⟩, rfl, rfl⟩
        · rename_i hSwap
          split at hSwap
          · contradiction
          · injection hSwap with hSwap
            subst hSwap
            exact ⟨⟨rfl, rfl⟩, rfl, rfl⟩
  unfold pitInterrupt at hTick
  simp only [if_neg hUp] at hTick
  split at hTick
  · contradiction
  · split at hTick
    · contradiction
    · injection hTick with hTick
      subst hTick
      obtain ⟨hSame, hOvr, hIdx⟩ := hSwitch _ (saveTask isr k)
      exact ⟨⟨hSame.pcbs, hSame.vmemTable2⟩, hOvr, hIdx⟩

/-- What `execute` finds during boot, and what is left to check when it starts
the shell. -/
theorem Running.boot {k : Globals Sp} {linked : ProcessTree Slot}
    (h : Running k linked) (isr : Regs Sp)
    (hBoot : booting (saveTask isr k)) :
    Running (nextConsole (saveTask isr k)) linked ∧
    ∀ k' c front child, (nextConsole (saveTask isr k)).taskQueue.head? = some front →
      freeSlot (nextConsole (saveTask isr k)) = some c →
      Started (nextConsole (saveTask isr k)) k' c front child →
      ¬ linked.live c ∧ Running k' (linked.spawn none c) := by
  cases h with
  | initial h hEmpty =>
      have hSaved := h.saved isr
      refine ⟨.initial hSaved hEmpty, ?_⟩
      intro k' c front child _ hFree hStart
      have hZero : freeSlot (nextConsole (saveTask isr k)) = some 0 := by
        refine freeSlot_eq ?_ (fun p hp => absurd hp (Nat.not_lt_zero p.val))
        rw [hSaved.userPde]
        exact initUserPde_absent 0
      have hc : c = 0 := Option.some.inj (hFree.symm.trans hZero)
      subst hc hEmpty
      exact ⟨fun hLive => hLive, .scheduled _ _ _ (hSaved.started hStart)⟩
  | scheduled front others cur h =>
      have hSaved := h.saveTask isr
      have h1 := hSaved.quiet (Quiet.nextConsole (saveTask isr k))
      refine ⟨.scheduled _ _ _ h1, ?_⟩
      intro k' c front' child hHead hFree hStart
      have hBoot1 : booting (nextConsole (saveTask isr k)) :=
        h1.booting_iff.2 (hSaved.booting_iff.1 hBoot)
      have hParent : executeParent (nextConsole (saveTask isr k)) = none := by
        unfold executeParent
        rcases hBoot1 with hNone | hShort
        · rw [hNone]
        · rw [h1.curPcb]
          simp only [if_pos hShort]
      have hFront : front' =
          { front with esp := isr.esp, ebp := isr.ebp, state := 0 } := by
        obtain ⟨rest, hQueue⟩ := h1.head
        rw [hQueue] at hHead
        exact (Option.some.inj hHead).symm
      subst hFront
      have hNew : ¬ linked.live c := fun hLive =>
        freeSlot_spec hFree ((h1.present_iff c).2 hLive)
      have hNext := h1.started hFree rfl rfl hStart
      rw [hParent] at hNext
      exact ⟨hNew, .scheduled _ _ _ hNext⟩

theorem Running.queue_ne {k : Globals Sp} {linked : ProcessTree Slot}
    (h : Running k linked) : ∃ front rest, k.taskQueue = front :: rest := by
  cases h with
  | initial h _ =>
      cases hQueue : k.taskQueue with
      | nil =>
          have hLength := h.length
          rw [hQueue] at hLength
          contradiction
      | cons front rest => exact ⟨front, rest, rfl⟩
  | scheduled front others cur h =>
      obtain ⟨rest, hHead⟩ := h.head
      exact ⟨front, rest, hHead⟩

/-- A step: where it leads, and what it did. -/
def Steps (fs : FileSys) (s : Life Sp) (linked : ProcessTree Slot)
    (i : SystemStep Sp) : Prop :=
  ∃ s' linked', (lifeMachine fs).step s i = s' ∧ Running s'.kernel linked' ∧
    Effect fs s linked i s' linked'

theorem Running.tick {fs : FileSys} {s : Life Sp} {linked : ProcessTree Slot}
    (h : Running s.kernel linked) (isr exec : Regs Sp)
    (hLegal : (lifeMachine fs).legal s (.tick isr exec)) :
    Steps fs s linked (.tick isr exec) := by
  by_cases hBoot : booting (saveTask isr s.kernel)
  · obtain ⟨h1, hStarts⟩ := h.boot isr hBoot
    obtain ⟨front, rest, hQueue⟩ := h1.queue_ne
    by_cases hTakes : TakesSlot fs shell (nextConsole (saveTask isr s.kernel))
    · rcases execute_takesSlot exec hQueue hTakes with
        ⟨hFails, _⟩ | ⟨_, c, k', child, hFree, hStart, hExec⟩
      · exact absurd ⟨hBoot, hTakes, hFails⟩ hLegal
      · obtain ⟨hNew, hNext⟩ := hStarts k' c front child (by rw [hQueue]; rfl)
          hFree hStart
        have hShell : bootShell fs isr exec s.kernel = some c := by
          unfold bootShell
          rw [if_pos hBoot, hExec]
          exact hStart.curPcb
        have hPit : pitInterrupt fs isr exec s.kernel = some k' := by
          unfold pitInterrupt
          simp only [if_pos hBoot, hExec]
        refine ⟨_, _, ?_, hNext, .bootStarted isr exec k' c hShell hBoot hNew
          (born_of_started hFree hExec) hStart.others⟩
        show Life.step fs s (.tick isr exec) = _
        simp only [Life.step, hShell, hPit, if_pos hBoot, Life.spawn]
    · have hExec : execute fs shell exec (nextConsole (saveTask isr s.kernel)) =
          (.failed, nextConsole (saveTask isr s.kernel)) :=
        execute_early exec (by rw [hQueue]; exact List.cons_ne_nil _ _) hTakes
      have hShell : bootShell fs isr exec s.kernel = none := by
        unfold bootShell
        rw [if_pos hBoot, hExec]
      have hPit : pitInterrupt fs isr exec s.kernel =
          some (nextConsole (saveTask isr s.kernel)) := by
        unfold pitInterrupt
        simp only [if_pos hBoot, hExec]
      refine ⟨{ s with
        kernel := nextConsole (saveTask isr s.kernel)
        ticks := s.ticks + 1 }, linked, ?_, h1,
        .bootFailed isr exec _ hShell hBoot hTakes ⟨rfl, rfl⟩⟩
      show Life.step fs s (.tick isr exec) = _
      simp only [Life.step, hShell, hPit, if_pos hBoot, Life.spawn]
  · cases h with
    | initial h _ => exact absurd (Or.inl h.curPcb) hBoot
    | scheduled front others cur h =>
        obtain ⟨k', next, rest, p, hPit, _, _, hNext⟩ := h.tick fs isr exec
          (fun hUp => hBoot ((h.booting_saveTask isr).2 hUp))
        obtain ⟨hSame, hOvr, hIdx⟩ := pitInterrupt_same hBoot hPit
        have hShell : bootShell fs isr exec s.kernel = none := by
          unfold bootShell
          rw [if_neg hBoot]
        refine ⟨_, _, ?_, .scheduled _ _ _ hNext, .quiet _ k' hShell hSame hOvr
          hIdx (fun temp hEq => nomatch hEq)⟩
        show Life.step fs s (.tick isr exec) = _
        simp only [Life.step, hShell, hPit, if_neg hBoot, Life.spawn]

/-! ## Calls of a process -/

section Calls

variable {fs : FileSys} {s : Life Sp} {linked : ProcessTree Slot}
  {front : Task Sp} {others : List (Task Sp)} {cur : Slot}

/-- A call that changes nothing. -/
theorem Scheduled.steps_quiet
    (h : Scheduled s.kernel linked front others cur) {i : SystemStep Sp}
    (hStep : (lifeMachine fs).step s i = s) (hNew : newProcess fs s i = none)
    (hRoot : ∀ temp, i = .halt temp → haltsRoot s.kernel) :
    Steps fs s linked i :=
  ⟨s, linked, hStep, .scheduled _ _ _ h,
    .quiet i s.kernel hNew ⟨rfl, rfl⟩ rfl rfl hRoot⟩

theorem Scheduled.steps_execute
    (h : Scheduled s.kernel linked front others cur) (strname : CString)
    (temp : Regs Sp)
    (hLegal : ¬ (TakesSlot fs strname s.kernel ∧ LoadFails fs strname)) :
    Steps fs s linked (.execute strname temp) := by
  obtain ⟨rest, hHead⟩ := h.head
  by_cases hTakes : TakesSlot fs strname s.kernel
  · rcases execute_takesSlot temp hHead hTakes with
      ⟨hFails, _⟩ | ⟨_, c, k', child, hFree, hStart, hExec⟩
    · exact absurd ⟨hTakes, hFails⟩ hLegal
    · have hNew : ¬ linked.live c := fun hLive =>
        freeSlot_spec hFree ((h.present_iff c).2 hLive)
      have hStarted : startedBy fs strname temp s.kernel = some c := by
        unfold startedBy
        rw [hExec]
        exact hStart.curPcb
      refine ⟨_, _, ?_, .scheduled _ _ _ (h.started hFree rfl rfl hStart),
        .started strname temp k' cur c hStarted h.curPcb hNew
          (born_of_started hFree hExec) hStart.others⟩
      show Life.step fs s (.execute strname temp) = _
      simp only [Life.step, hStarted, hExec, Life.spawn, callerSeat, h.curPcb]
      simp
  · have hExec : execute fs strname temp s.kernel = (.failed, s.kernel) :=
      execute_early temp (by rw [hHead]; exact List.cons_ne_nil _ _) hTakes
    have hStarted : startedBy fs strname temp s.kernel = none := by
      unfold startedBy
      rw [hExec]
    refine h.steps_quiet ?_ hStarted (fun temp hEq => nomatch hEq)
    show Life.step fs s (.execute strname temp) = _
    simp only [Life.step, hStarted, hExec, Life.spawn]
    simp

theorem Scheduled.steps_halt
    (h : Scheduled s.kernel linked front others cur) (temp : Task Sp) :
    Steps fs s linked (.halt temp) := by
  by_cases hRoot : haltsRoot s.kernel
  · refine h.steps_quiet ?_ rfl (fun _ _ => hRoot)
    show Life.step fs s (.halt temp) = _
    simp only [Life.step, Kernel.halt, if_pos hRoot]
  · obtain ⟨q, woken, rest, hLink, hNext⟩ := h.halted temp hRoot
    have hEnded := ended_of_halt temp h.curPcb (h.pid cur h.cur_live)
      ((h.parentPid cur h.cur_live).trans hLink) hRoot
    have hNotZero : cur ≠ 0 := fun hZero =>
      hRoot (h.haltsRoot_iff.2 (Or.inr hZero))
    refine ⟨_, _, ?_, .scheduled _ _ _ hNext,
      .ended temp _ cur hRoot hNotZero h.curPcb hEnded⟩
    show Life.step fs s (.halt temp) = _
    simp only [Life.step, if_neg hRoot, h.curPcb]

theorem Scheduled.steps_file
    (h : Scheduled s.kernel linked front others cur) (c : FileCall) :
    Steps fs s linked (.file c) := by
  cases hRun : c.run fs (s.kernel.pcbs cur).fileArray with
  | none =>
      refine h.steps_quiet ?_ rfl (fun temp hEq => nomatch hEq)
      show Life.step fs s (.file c) = _
      simp only [Life.step, fileCall, h.curPcb, hRun]
  | some r =>
      obtain ⟨r, files⟩ := r
      have hQuiet : Quiet s.kernel
          (s.kernel.writePcb ({ · with fileArray := files })) :=
        Quiet.writePcb s.kernel (fun _ => rfl) (fun _ => rfl)
      refine ⟨_, _, ?_, .scheduled _ _ _ (h.quiet hQuiet),
        .filed c r files cur h.curPcb hRun⟩
      show Life.step fs s (.file c) = _
      simp only [Life.step, fileCall, h.curPcb, hRun]

theorem Scheduled.steps_vidmap
    (h : Scheduled s.kernel linked front others cur) (screenStart : Nat) :
    Steps fs s linked (.vidmap screenStart) := by
  by_cases hCheck : screenStart = 0 ∨ screenStart = videoLoc ∨
      screenStart = kernelLoc
  · refine h.steps_quiet ?_ rfl (fun temp hEq => nomatch hEq)
    show Life.step fs s (.vidmap screenStart) = _
    simp only [Life.step, Kernel.vidmap, if_pos hCheck]
  · have hQuiet : Quiet s.kernel (mapVideo s.kernel cur) :=
      { pid := by
          intro p
          by_cases hp : p = cur
          · subst hp; simp [mapVideo]
          · simp [mapVideo, hp]
        parentPid := by
          intro p
          by_cases hp : p = cur
          · subst hp; simp [mapVideo]
          · simp [mapVideo, hp]
        curPcb := rfl, taskQueue := rfl, userPde := rfl, cr3 := rfl }
    refine ⟨_, _, ?_, .scheduled _ _ _ (h.quiet hQuiet),
      .mapped screenStart cur h.curPcb⟩
    show Life.step fs s (.vidmap screenStart) = _
    simp only [Life.step,
      vidmap_mapped hCheck h.curPcb (h.pid cur h.cur_live)]

end Calls

/-- **A legal step** leaves the kernel running and does one of the things that
`Effect` lists. -/
theorem Running.step {fs : FileSys} {s : Life Sp} {linked : ProcessTree Slot}
    (h : Running s.kernel linked) (i : SystemStep Sp)
    (hLegal : (lifeMachine fs).legal s i) : Steps fs s linked i := by
  cases i with
  | tick isr exec => exact h.tick isr exec hLegal
  | execute strname temp =>
      cases h with
      | initial h _ => exact absurd h.curPcb hLegal.1
      | scheduled _ _ _ h => exact h.steps_execute strname temp hLegal.2
  | halt temp =>
      cases h with
      | initial h _ => exact absurd h.curPcb hLegal
      | scheduled _ _ _ h => exact h.steps_halt temp
  | file c =>
      cases h with
      | initial h _ => exact absurd h.curPcb hLegal
      | scheduled _ _ _ h => exact h.steps_file c
  | vidmap screenStart =>
      cases h with
      | initial h _ => exact absurd h.curPcb hLegal
      | scheduled _ _ _ h => exact h.steps_vidmap screenStart

/-! ## Runs -/

/-- Between two steps: the kernel runs, and its live processes are the ones
that were started and have not ended. -/
structure LifeInv (s : Life Sp) (linked : ProcessTree Slot) : Prop where
  returns : s.hung = false
  running : Running s.kernel linked
  live_iff : ∀ p, linked.live p ↔ s.callers.live p

theorem lifeStart_inv {k : Globals Sp} (hInit : AfterInit k) :
    LifeInv (lifeStart k) emptyTree where
  returns := rfl
  running := .initial hInit rfl
  live_iff := fun _ => Iff.rfl

theorem LifeInv.step {fs : FileSys} {s : Life Sp} {linked : ProcessTree Slot}
    (h : LifeInv s linked) (i : SystemStep Sp)
    (hLegal : (lifeMachine fs).legal s i) :
    ∃ s' linked', (lifeMachine fs).step s i = s' ∧ LifeInv s' linked' ∧
      Effect fs s linked i s' linked' := by
  obtain ⟨s', linked', hStep, hRunning, hEffect⟩ := h.running.step i hLegal
  refine ⟨s', linked', hStep, ?_, hEffect⟩
  cases hEffect with
  | quiet | bootFailed | filed | mapped =>
      exact { returns := h.returns, running := hRunning, live_iff := h.live_iff }
  | bootStarted isr exec k' c =>
      exact
        { returns := h.returns, running := hRunning
          live_iff := fun p => or_congr Iff.rfl (h.live_iff p) }
  | started strname temp k' cur c =>
      exact
        { returns := h.returns, running := hRunning
          live_iff := fun p => or_congr Iff.rfl (h.live_iff p) }
  | ended temp k' cur =>
      exact
        { returns := h.returns, running := hRunning
          live_iff := fun p => and_congr Iff.rfl (h.live_iff p) }

section

variable {s : Life Sp} {linked : ProcessTree Slot} {cur : Slot}

/-- Once there is a running process. -/
theorem LifeInv.scheduled (h : LifeInv s linked)
    (hCur : s.kernel.curPcb = some cur) :
    ∃ front others, Scheduled s.kernel linked front others cur := by
  cases h.running with
  | initial hInit _ =>
      rw [hInit.curPcb] at hCur
      contradiction
  | scheduled front others p hSched =>
      rw [hSched.curPcb] at hCur
      rw [← Option.some.inj hCur]
      exact ⟨front, others, hSched⟩

theorem LifeInv.cur_live (h : LifeInv s linked)
    (hCur : s.kernel.curPcb = some cur) : s.callers.live cur := by
  obtain ⟨_, _, hSched⟩ := h.scheduled hCur
  exact (h.live_iff cur).1 hSched.cur_live

/-- The first shell stays. -/
theorem LifeInv.zero_live (h : LifeInv s linked)
    (hCur : s.kernel.curPcb = some cur) : s.callers.live 0 := by
  obtain ⟨_, _, hSched⟩ := h.scheduled hCur
  exact (h.live_iff 0).1 hSched.zero_live

end

end CompE.Kernel
