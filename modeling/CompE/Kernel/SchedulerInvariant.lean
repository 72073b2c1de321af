import CompE.Library.Machine
import CompE.Kernel.Scheduled

/-!
# The process and scheduler invariant over whole runs

The kernel starts with an empty queue; the first three timer interrupts start
the three shells.  From then on the steps are timer interrupts, calls of
`execute` and calls of `halt`, each taken as one step.  A run is followed with
the tree of the processes it has started and ended.

`scheduler_invariant` is about every such run in which each `execute` succeeds
or fails before it takes a slot: on the lookup, on the magic number or for want
of a slot.  `legal` keeps out a program that passes the checks and then does not
load (what happens then is in `Kernel.ExecuteFailure`).
-/

namespace CompE.Kernel

open CompE.Library

variable {Sp : Type}

/-! ## The invariant -/

/-- Queue, PCBs and page directories agree on who is live and who waits. -/
structure SchedulerInvariant (k : Globals Sp) (tree : ProcessTree Slot) :
    Prop where
  gapFree : ∀ t ∈ k.taskQueue.drop (tasks k.taskQueue).length, t.pcb = none
  listsLive : ∀ p, tree.live p ↔ some p ∈ (tasks k.taskQueue).map Task.pcb
  once : ((tasks k.taskQueue).map Task.pcb).Nodup
  frontRuns : ∃ front rest cur, k.taskQueue = front :: rest ∧
    front.pcb = some cur ∧ k.curPcb = some cur ∧ front.enabled = true
  disabledIff : ∀ t ∈ tasks k.taskQueue, ∀ p, t.pcb = some p →
    (t.enabled = false ↔ tree.HasChild p)
  links : ∀ p, tree.live p → (k.pcbs p).parentPid = tree.parent p
  presentIff : ∀ p, present (k.userPde p) ↔ tree.live p
  atMostSix : (tasks k.taskQueue).length ≤ 6

namespace Scheduled

variable {k k' : Globals Sp} {tree : ProcessTree Slot} {front : Task Sp}
  {others : List (Task Sp)} {cur : Slot}

theorem schedulerInvariant (h : Scheduled k tree front others cur) :
    SchedulerInvariant k tree where
  gapFree := h.lists.drop_free
  listsLive := by rw [h.lists.tasks_eq]; exact h.queue.live_iff
  once := by rw [h.lists.tasks_eq]; exact h.queue.distinct
  frontRuns := by
    obtain ⟨rest, hHead⟩ := h.head
    exact ⟨front, rest, cur, hHead, h.front_pcb, h.curPcb, h.front_enabled⟩
  disabledIff := by rw [h.lists.tasks_eq]; exact h.queue.disabled_iff
  links := h.parentPid
  presentIff := h.present_iff
  atMostSix := by rw [h.lists.tasks_eq]; exact h.lists.length_le

theorem booting_iff (h : Scheduled k tree front others cur) :
    booting k ↔ others.length < 2 := by
  unfold booting
  rw [h.curPcb]
  constructor
  · rintro (hNone | hShort)
    · contradiction
    · cases Nat.lt_or_ge others.length 2 with
      | inl hLt => exact hLt
      | inr hGe =>
          exact absurd hShort (h.lists.pcbAt_eq (by simp only [List.length_cons]; omega))
  · intro hLt
    right
    obtain ⟨free, hQueue, hFree⟩ := h.lists.gap
    have hLength := h.lists.length
    rw [hQueue, List.length_append, List.length_cons] at hLength
    have hIndex : (front :: others).length ≤ 2 := by
      simp only [List.length_cons]
      omega
    rw [pcbAt, hQueue, List.getElem?_append_right hIndex]
    cases hGet : free[2 - (front :: others).length]? with
    | none => rfl
    | some t => exact hFree t (List.mem_of_getElem? hGet)

end Scheduled

/-! ## Boot -/

/-- A user page-directory entry as `init_paging` sets it. -/
def initUserPde (j : Slot) : BitVec 32 :=
  (BitVec.ofNat 32 (0x800000 + j.val * 0x400000) &&& 0xFFFFF000#32) + 0x96#32

theorem initUserPde_absent (j : Slot) : ¬ present (initUserPde j) := by
  revert j
  decide

/-- The state after `init_paging` and `init_schedule`. -/
structure AfterInit (k : Globals Sp) : Prop where
  curPcb : k.curPcb = none
  length : k.taskQueue.length = maxProcess
  empty : ∀ t ∈ k.taskQueue, t.pcb = none ∧ t.enabled = true
  userPde : ∀ p, k.userPde p = initUserPde p

/-- The image has a program `"shell"` that loads. -/
def ShellLoads (fs : FileSys) : Prop :=
  (checkExecutable fs (parseExec shell).1).isSome ∧ ¬ LoadFails fs shell

/-- The first three timer interrupts. -/
def bootShells (fs : FileSys) (isr exec : Fin 3 → Regs Sp) (k : Globals Sp) :
    Option (Globals Sp) :=
  ((pitInterrupt fs (isr 0) (exec 0) k).bind
    (pitInterrupt fs (isr 1) (exec 1))).bind (pitInterrupt fs (isr 2) (exec 2))

/-- No process. -/
def emptyTree : ProcessTree Slot where
  live := fun _ => False
  parent := fun _ => none

/-- The three shells. -/
def bootTree : ProcessTree Slot :=
  ((emptyTree.spawn none 0).spawn none 1).spawn none 2

/-- `new_process_ptable` takes the lowest slot that is free. -/
theorem freeSlot_eq {k : Globals Sp} {c : Slot} (hFree : ¬ present (k.userPde c))
    (hBelow : ∀ p, p < c → present (k.userPde p)) : freeSlot k = some c := by
  unfold freeSlot
  rw [List.find?_eq_some_iff_getElem]
  refine ⟨by simpa using hFree, c.val, by simp, by simp, ?_⟩
  intro j hj
  have hTaken := hBelow ⟨j, Nat.lt_trans hj c.isLt⟩ hj
  simpa using hTaken

/-- What `execute` finds at the first interrupt is still the initial state. -/
theorem AfterInit.saved {k : Globals Sp} (h : AfterInit k) (isr : Regs Sp) :
    AfterInit (nextConsole (saveTask isr k)) where
  curPcb := h.curPcb
  length := by
    show (k.taskQueue.modifyHead _).length = maxProcess
    rw [List.length_modifyHead]
    exact h.length
  empty := by
    intro t ht
    cases hQueue : k.taskQueue with
    | nil => simp [nextConsole, saveTask, hQueue] at ht
    | cons e rest =>
        simp only [nextConsole, saveTask, hQueue, List.modifyHead_cons,
          List.mem_cons] at ht
        rcases ht with ht | ht
        · rw [ht]
          exact h.empty e (by simp [hQueue])
        · exact h.empty t (by simp [hQueue, ht])
  userPde := h.userPde

/-- The first shell, started from the initial state, is alone and has no
parent. -/
theorem AfterInit.started {k k' : Globals Sp} (h : AfterInit k)
    {front child : Task Sp} (hStart : Started k k' 0 front child) :
    Scheduled k' (emptyTree.spawn none 0) child [] 0 := by
  have hOnly : ∀ p, (emptyTree.spawn none (0 : Slot)).live p ↔ p = 0 :=
    fun p => ⟨fun hLive => hLive.resolve_right id, Or.inl⟩
  have hParent : executeParent k = none := by
    unfold executeParent
    rw [h.curPcb]
  have hQueue : k'.taskQueue = k.taskQueue.set 0 child := hStart.taskQueue
  exact
    { lists :=
        { length := by
            rw [hQueue, List.length_set]
            exact h.length
          full := by
            intro t ht
            rw [List.mem_singleton.1 ht, hStart.child_pcb]
            exact Option.some_ne_none _
          gap := by
            have hLength := h.length
            have hEmpty := h.empty
            cases hOld : k.taskQueue with
            | nil =>
                rw [hOld] at hLength
                contradiction
            | cons e rest =>
                rw [hOld] at hEmpty
                refine ⟨rest, by rw [hQueue, hOld]; rfl, ?_⟩
                exact fun t ht => (hEmpty t (List.mem_cons_of_mem _ ht)).1 }
      queue :=
        { distinct := by simp
          live_iff := by
            intro p
            rw [hOnly p]
            simp [hStart.child_pcb]
          disabled_iff := by
            intro t ht p hp
            rw [List.mem_singleton.1 ht, hStart.child_enabled,
              ProcessTree.hasChild_spawn (fun hLive => hLive)]
            simp [emptyTree, ProcessTree.HasChild] }
      front_pcb := hStart.child_pcb
      front_enabled := hStart.child_enabled
      curPcb := hStart.curPcb
      cr3 := hStart.cr3
      present_iff := by
        intro p
        rw [hOnly p, hStart.userPde]
        by_cases hp : p = 0
        · subst hp
          rw [Function.update_self]
          exact ⟨fun _ => rfl, fun _ => present_or _⟩
        · rw [Function.update_of_ne hp, h.userPde]
          exact ⟨fun hPresent => absurd hPresent (initUserPde_absent p),
            fun hEq => absurd hEq hp⟩
      wellFormed :=
        (ProcessTree.wellFormed_empty _).spawn (fun hLive => hLive)
          (fun q hq => nomatch hq)
      pid := by
        intro p hLive
        rw [(hOnly p).1 hLive]
        exact hStart.pid
      parentPid := by
        intro p hLive
        rw [(hOnly p).1 hLive, ProcessTree.spawn_parent_self,
          hStart.parentPid, hParent]
      zero_live := Or.inl rfl }

/-- The first interrupt: `execute` finds no process at all. -/
theorem AfterInit.first_tick {fs : FileSys} {k : Globals Sp} (h : AfterInit k)
    (hShell : ShellLoads fs) (isr exec : Regs Sp) :
    ∃ k' child, pitInterrupt fs isr exec k = some k' ∧
      Scheduled k' (emptyTree.spawn none 0) child [] 0 := by
  have hSaved := h.saved isr
  have hFree : freeSlot (nextConsole (saveTask isr k)) = some 0 := by
    refine freeSlot_eq ?_ (fun p hp => absurd hp (Nat.not_lt_zero p.val))
    rw [hSaved.userPde]
    exact initUserPde_absent 0
  have hTakes : TakesSlot fs shell (nextConsole (saveTask isr k)) :=
    ⟨hShell.1, by rw [hFree]; rfl⟩
  cases hQueue : (nextConsole (saveTask isr k)).taskQueue with
  | nil =>
      have hLength := hSaved.length
      rw [hQueue] at hLength
      contradiction
  | cons front rest =>
      rcases execute_takesSlot exec hQueue hTakes with
        ⟨hFails, _⟩ | ⟨_, c, k', child, hSlot, hStart, hExec⟩
      · exact absurd hFails hShell.2
      · have hc : c = 0 := Option.some.inj (hSlot.symm.trans hFree)
        subst hc
        refine ⟨k', child, ?_, hSaved.started hStart⟩
        have hBoot : booting (saveTask isr k) := Or.inl h.curPcb
        unfold pitInterrupt
        simp only [if_pos hBoot, hExec]

/-- A further interrupt during boot starts a shell without a parent. -/
theorem Scheduled.boot_tick {fs : FileSys} {k : Globals Sp}
    {tree : ProcessTree Slot} {front : Task Sp} {others : List (Task Sp)}
    {cur c : Slot} (h : Scheduled k tree front others cur)
    (hShell : ShellLoads fs) (hBoot : booting k) (hFree : freeSlot k = some c)
    (isr exec : Regs Sp) :
    ∃ k' child, pitInterrupt fs isr exec k = some k' ∧
      Scheduled k' (tree.spawn none c) child (others ++
        [{ front with esp := isr.esp, ebp := isr.ebp, state := 0 }]) c := by
  obtain ⟨k1, hk1⟩ : ∃ k1, k1 = nextConsole (Kernel.saveTask isr k) := ⟨_, rfl⟩
  have hSaved := h.saveTask isr
  have h1 := hSaved.quiet (Quiet.nextConsole (Kernel.saveTask isr k))
  rw [← hk1] at h1
  have hStill : booting (Kernel.saveTask isr k) :=
    hSaved.booting_iff.2 (h.booting_iff.1 hBoot)
  have hBoot1 : booting k1 := h1.booting_iff.2 (h.booting_iff.1 hBoot)
  have hFree1 : freeSlot k1 = some c := by rw [hk1]; exact hFree
  have hParent : executeParent k1 = none := by
    unfold executeParent
    rcases hBoot1 with hNone | hShort
    · rw [hNone]
    · rw [h1.curPcb]
      simp only [if_pos hShort]
  obtain ⟨rest, hHead⟩ := h1.head
  have hTakes : TakesSlot fs shell k1 := ⟨hShell.1, by rw [hFree1]; rfl⟩
  rcases execute_takesSlot exec hHead hTakes with
    ⟨hFails, _⟩ | ⟨_, d, k', child, hSlot, hStart, hExec⟩
  · exact absurd hFails hShell.2
  · have hd : d = c := Option.some.inj (hSlot.symm.trans hFree1)
    subst hd
    have hNext := h1.started hSlot rfl rfl hStart
    rw [hParent] at hNext
    refine ⟨k', child, ?_, hNext⟩
    unfold pitInterrupt
    simp only [if_pos hStill]
    rw [← hk1, hExec]

private theorem slot_lt_one : ∀ p : Slot, p < 1 → p = 0 := by decide

private theorem slot_lt_two : ∀ p : Slot, p < 2 → p = 0 ∨ p = 1 := by decide

private theorem slot_lt_three : ∀ p : Slot, p.val < 3 → p = 0 ∨ p = 1 ∨ p = 2 := by
  decide

/-- Three interrupts start the three shells.  The first two wait in the queue
with the stack pointers that the next interrupt saved. -/
theorem AfterInit.boot {fs : FileSys} {k : Globals Sp} (h : AfterInit k)
    (hShell : ShellLoads fs) (isr exec : Fin 3 → Regs Sp) :
    ∃ k' front others, bootShells fs isr exec k = some k' ∧
      Scheduled k' bootTree front others 2 ∧
      ∀ t ∈ others, t.esp = (isr 1).esp ∨ t.esp = (isr 2).esp := by
  obtain ⟨k1, front1, hTick1, h1⟩ := h.first_tick hShell (isr 0) (exec 0)
  have hFree1 : freeSlot k1 = some 1 := by
    refine freeSlot_eq ?_ ?_
    · rw [h1.present_iff]
      rintro (hEq | hNone)
      · contradiction
      · exact hNone
    · intro p hp
      rw [h1.present_iff]
      exact Or.inl (slot_lt_one p hp)
  obtain ⟨k2, front2, hTick2, h2⟩ :=
    h1.boot_tick hShell (h1.booting_iff.2 (by simp)) hFree1 (isr 1) (exec 1)
  have hFree2 : freeSlot k2 = some 2 := by
    refine freeSlot_eq ?_ ?_
    · rw [h2.present_iff]
      rintro (hEq | hEq | hNone)
      · contradiction
      · contradiction
      · exact hNone
    · intro p hp
      rw [h2.present_iff]
      rcases slot_lt_two p hp with hZero | hOne
      · exact Or.inr (Or.inl hZero)
      · exact Or.inl hOne
  obtain ⟨k3, front3, hTick3, h3⟩ :=
    h2.boot_tick hShell (h2.booting_iff.2 (by simp)) hFree2 (isr 2) (exec 2)
  refine ⟨k3, front3, _, ?_, h3, ?_⟩
  · unfold bootShells
    rw [hTick1, Option.bind_some, hTick2, Option.bind_some, hTick3]
  · intro t ht
    simp only [List.nil_append, List.cons_append, List.mem_cons,
      List.not_mem_nil, or_false] at ht
    rcases ht with ht | ht
    · exact Or.inl (by rw [ht])
    · exact Or.inr (by rw [ht])

/-! ## Runs -/

/-- The kernel, the processes it has started and not ended, and whether it
still returns from its calls. -/
structure System (Sp : Type) where
  kernel : Globals Sp
  tree : ProcessTree Slot
  hung : Bool

/-- The steps after boot.  Stack pointers, and the uninitialised local of
`halt`, are whatever they are. -/
inductive KernelStep (Sp : Type) where
  | tick (isr exec : Regs Sp)
  | execute (strname : CString) (temp : Regs Sp)
  | halt (temp : Task Sp)

/-- One step.  The child of a successful `execute` is what `cur_pcb` is after
it, and its parent is what `cur_pcb` was. -/
def System.step (fs : FileSys) (s : System Sp) : KernelStep Sp → System Sp
  | .tick isr exec =>
      match pitInterrupt fs isr exec s.kernel with
      | none => { s with hung := true }
      | some k => { s with kernel := k }
  | .execute strname temp =>
      match execute fs strname temp s.kernel with
      | (.hung, k) => { s with kernel := k, hung := true }
      | (.failed, k) => { s with kernel := k }
      | (.started, k) =>
          match k.curPcb with
          | none => { s with kernel := k }
          | some c =>
              { s with kernel := k, tree := s.tree.spawn s.kernel.curPcb c }
  | .halt temp =>
      { s with
        kernel := halt temp s.kernel
        tree :=
          if haltsRoot s.kernel then s.tree
          else
            match s.kernel.curPcb with
            | none => s.tree
            | some p => s.tree.exit p }

/-- A run of the kernel.  No program is run that passes the checks and does
not load. -/
def kernelMachine (fs : FileSys) : Machine (System Sp) (KernelStep Sp) Unit where
  step := System.step fs
  emit := fun _ _ => []
  legal := fun s i =>
    match i with
    | .execute strname _ => ¬ (TakesSlot fs strname s.kernel ∧
        LoadFails fs strname)
    | _ => True

/-- The inductive invariant: the three shells are there for good. -/
structure SystemInv (s : System Sp) : Prop where
  returns : s.hung = false
  roots : ∀ p : Slot, p.val < 3 → s.tree.live p ∧ s.tree.parent p = none
  scheduled : ∃ front others cur, Scheduled s.kernel s.tree front others cur

/-- With three shells the kernel is not booting. -/
theorem Scheduled.not_booting {k : Globals Sp} {tree : ProcessTree Slot}
    {front : Task Sp} {others : List (Task Sp)} {cur : Slot}
    (h : Scheduled k tree front others cur)
    (hRoots : ∀ p : Slot, p.val < 3 → tree.live p) : ¬ booting k := by
  rw [h.booting_iff]
  have hThree := h.queue.three hRoots
  rw [List.length_cons] at hThree
  omega

theorem SystemInv.tick {fs : FileSys} {s : System Sp} (h : SystemInv s)
    (isr exec : Regs Sp) : SystemInv (s.step fs (.tick isr exec)) := by
  obtain ⟨front, others, cur, hSched⟩ := h.scheduled
  obtain ⟨k', next, rest, p, hTick, _, _, hNext⟩ := hSched.tick fs isr exec
    (hSched.not_booting fun p hp => (h.roots p hp).1)
  unfold System.step
  simp only [hTick]
  exact { returns := h.returns, roots := h.roots
          scheduled := ⟨_, rest, p, hNext⟩ }

theorem SystemInv.execute {fs : FileSys} {s : System Sp} (h : SystemInv s)
    {strname : CString} {temp : Regs Sp}
    (hLegal : ¬ (TakesSlot fs strname s.kernel ∧ LoadFails fs strname)) :
    SystemInv (s.step fs (.execute strname temp)) := by
  obtain ⟨front, others, cur, hSched⟩ := h.scheduled
  obtain ⟨rest, hHead⟩ := hSched.head
  unfold System.step
  by_cases hTakes : TakesSlot fs strname s.kernel
  · rcases execute_takesSlot temp hHead hTakes with
      ⟨hFails, _⟩ | ⟨_, c, k', child, hFree, hStart, hExec⟩
    · exact absurd ⟨hTakes, hFails⟩ hLegal
    · have hNext := hSched.started hFree rfl rfl hStart
      have hParent : executeParent s.kernel = s.kernel.curPcb := by
        have hUp := hSched.not_booting fun p hp => (h.roots p hp).1
        unfold executeParent
        rw [hSched.curPcb]
        simp only [hSched.pid cur hSched.cur_live]
        rw [if_neg fun hShort => hUp (Or.inr hShort)]
      have hNew : ¬ s.tree.live c := fun hLive =>
        freeSlot_spec hFree ((hSched.present_iff c).2 hLive)
      rw [hParent] at hNext
      simp only [hExec, hStart.curPcb]
      refine { returns := h.returns, roots := ?_,
               scheduled := ⟨_, _, _, hNext⟩ }
      intro p hp
      have hRoot := h.roots p hp
      have hne : p ≠ c := fun hEq => hNew (hEq ▸ hRoot.1)
      exact ⟨Or.inr hRoot.1, by rw [ProcessTree.spawn_parent_of_ne hne, hRoot.2]⟩
  · have hFail : Kernel.execute fs strname temp s.kernel = (.failed, s.kernel) :=
      execute_early temp (by rw [hHead]; exact List.cons_ne_nil _ _) hTakes
    simp only [hFail]
    exact { returns := h.returns, roots := h.roots
            scheduled := ⟨front, others, cur, hSched⟩ }

theorem SystemInv.halt {s : System Sp} (h : SystemInv s) (fs : FileSys)
    (temp : Task Sp) : SystemInv (s.step fs (.halt temp)) := by
  obtain ⟨front, others, cur, hSched⟩ := h.scheduled
  unfold System.step
  by_cases hRoot : haltsRoot s.kernel
  · simp only [if_pos hRoot, Kernel.halt]
    exact { returns := h.returns, roots := h.roots
            scheduled := ⟨front, others, cur, hSched⟩ }
  · obtain ⟨q, woken, rest, hLink, hNext⟩ := hSched.halted temp hRoot
    simp only [if_neg hRoot, hSched.curPcb]
    refine { returns := h.returns, roots := ?_, scheduled := ⟨_, _, _, hNext⟩ }
    intro p hp
    obtain ⟨hLive, hNone⟩ := h.roots p hp
    refine ⟨⟨?_, hLive⟩, hNone⟩
    intro hEq
    rw [hEq, hLink] at hNone
    contradiction

theorem SystemInv.step {fs : FileSys} (s : System Sp) (i : KernelStep Sp)
    (h : SystemInv s) (hLegal : (kernelMachine fs).legal s i) :
    SystemInv ((kernelMachine fs).step s i) := by
  cases i with
  | tick isr exec => exact h.tick isr exec
  | execute strname temp => exact h.execute hLegal
  | halt temp => exact h.halt fs temp

theorem SystemInv.boot {k : Globals Sp} {front : Task Sp}
    {others : List (Task Sp)} (h : Scheduled k bootTree front others 2) :
    SystemInv { kernel := k, tree := bootTree, hung := false } where
  returns := rfl
  roots := by
    intro p hp
    rcases slot_lt_three p hp with hp | hp | hp
    · subst hp; exact ⟨Or.inr (Or.inr (Or.inl rfl)), rfl⟩
    · subst hp; exact ⟨Or.inr (Or.inl rfl), rfl⟩
    · subst hp; exact ⟨Or.inl rfl, rfl⟩
  scheduled := ⟨front, others, 2, h⟩

/--
**The process and scheduler invariant.**  With a shell that loads, the first
three timer interrupts return, and after any run of timer interrupts, `halt`s
and `execute`s from there every call has returned and the invariant holds.
-/
theorem scheduler_invariant {fs : FileSys} (hShell : ShellLoads fs)
    {k0 : Globals Sp} (hInit : AfterInit k0) (isr exec : Fin 3 → Regs Sp) :
    ∃ k, bootShells fs isr exec k0 = some k ∧
      ∀ run, (kernelMachine fs).Legal ⟨k, bootTree, false⟩ run →
        ((kernelMachine fs).run ⟨k, bootTree, false⟩ run).hung = false ∧
        SchedulerInvariant ((kernelMachine fs).run ⟨k, bootTree, false⟩ run).kernel
          ((kernelMachine fs).run ⟨k, bootTree, false⟩ run).tree := by
  obtain ⟨k, front, others, hBoot, hSched, _⟩ := hInit.boot hShell isr exec
  refine ⟨k, hBoot, ?_⟩
  intro run hLegal
  have hInv := (kernelMachine fs).run_invariant
    (fun s i h hStep => SystemInv.step s i h hStep) run _
    (SystemInv.boot hSched) hLegal
  obtain ⟨front', others', cur', hEnd⟩ := hInv.scheduled
  exact ⟨hInv.returns, hEnd.schedulerInvariant⟩

/-! ### A run -/

/-- An image with two executables, `"shell"` (inode 0) and `"bad"` (inode 1), of
40 bytes each, in data blocks 0 and 1.  The header of the second one gives
0xFFFFFFFF as its entry point. -/
def programImage : FileSys where
  filesysAddr := 0x500000
  memory := fun addr =>
    match addr - 0x500000 with
    | 0 => 2 | 4 => 2 | 8 => 2
    | 64 => 0x73 | 65 => 0x68 | 66 => 0x65 | 67 => 0x6c | 68 => 0x6c
    | 96 => 2
    | 128 => 0x62 | 129 => 0x61 | 130 => 0x64
    | 160 => 2 | 164 => 1
    | 0x1000 => 40
    | 0x2000 => 40 | 0x2004 => 1
    | 0x3000 => 0x7f | 0x3001 => 0x45 | 0x3002 => 0x4c | 0x3003 => 0x46
    | 0x3018 => 0x18 | 0x3019 => 0x80 | 0x301a => 0x04 | 0x301b => 0x08
    | 0x4000 => 0x7f | 0x4001 => 0x45 | 0x4002 => 0x4c | 0x4003 => 0x46
    | 0x4018 => 0xff | 0x4019 => 0xff | 0x401a => 0xff | 0x401b => 0xff
    | _ => 0

theorem programImage_shell : ShellLoads programImage := by
  unfold ShellLoads
  decide +kernel

/-- The globals after initialisation; `sp` stands for every saved stack
pointer. -/
def initGlobals (sp : Sp) : Globals Sp where
  pcbs := fun _ =>
    { fileArray := fun _ => { optbl := .null, inode := 0, pos := 0, inUse := false }
      parentPid := none, pid := 0, retAddr := 0, esp := sp, ebp := sp
      args := [], vidmapCheck := false, con := 0 }
  curPcb := none
  taskQueue := List.replicate maxProcess
    { esp := sp, ebp := sp, state := 0, enabled := true, pcb := none }
  userPde := initUserPde
  cr3 := .boot
  esp0 := 0
  conOvr := { idx := 0, flag := false }
  conIdx := 0
  vmemTable2 := fun _ => 0
  userPage := fun _ _ => 0

theorem initGlobals_afterInit (sp : Sp) : AfterInit (initGlobals sp) where
  curPcb := rfl
  length := List.length_replicate
  empty := by
    intro t ht
    rw [List.eq_of_mem_replicate ht]
    exact ⟨rfl, rfl⟩
  userPde := fun _ => rfl

/-- The third shell starts a fourth one; after two timer interrupts whatever
runs calls `halt`. -/
theorem scheduler_invariant_fourShells :
    ∃ k s, bootShells programImage (fun _ => ⟨0, 0⟩) (fun _ => ⟨0, 0⟩)
        (initGlobals 0) = some k ∧
      s = (kernelMachine programImage).run ⟨k, bootTree, false⟩
        [.execute shell ⟨0, 0⟩, .tick ⟨0, 0⟩ ⟨0, 0⟩, .tick ⟨0, 0⟩ ⟨0, 0⟩,
          .halt ⟨0, 0, 0, true, none⟩] ∧
      s.hung = false ∧ SchedulerInvariant s.kernel s.tree := by
  obtain ⟨k, hBoot, hRuns⟩ := scheduler_invariant programImage_shell
    (initGlobals_afterInit 0) (fun _ => ⟨0, 0⟩) (fun _ => ⟨0, 0⟩)
  refine ⟨k, _, hBoot, rfl, hRuns _ ⟨?_, trivial, trivial, trivial, trivial⟩⟩
  exact fun hBoth => programImage_shell.2 hBoth.2

end CompE.Kernel
