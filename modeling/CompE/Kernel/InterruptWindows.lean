import CompE.Kernel.InterruptSafety

/-!
# What happens inside the windows

Inside a window the state is a steady state from which part of an `execute` or
of a `halt` has been run in one go: the slot is taken and some passes of the
copy are done (`Creating`), or some statements have been run.  Without an
interrupt in between, the window ends where the call as one step ends, so the
lemmas about `execute` and `halt` as single steps carry over.
-/

namespace CompE.Kernel

open CompE.Library

/-! ## The statements, in part -/

private theorem runExec_concat {Sp : Type} (done : List ExecStmt) (stmt : ExecStmt)
    (s : Globals Sp × ExecLocals Sp) :
    runExec (done ++ [stmt]) s = stmt.run (runExec done s) := by
  simp [runExec]

private theorem runHalt_concat {Sp : Type} (temp : Task Sp) (done : List HaltStmt)
    (stmt : HaltStmt) (k : Globals Sp) :
    runHalt temp (done ++ [stmt]) k = stmt.run temp (runHalt temp done k) := by
  simp [runHalt]

@[simp] theorem writePcb_curPcb {Sp : Type} (k : Globals Sp)
    (f : Pcb Sp → Pcb Sp) : (k.writePcb f).curPcb = k.curPcb := by
  unfold Globals.writePcb
  split <;> rfl

/-- The statements of `execute` leave `cur_pcb` and the parent alone. -/
theorem ExecStmt.run_keeps {Sp : Type} (stmt : ExecStmt) (k : Globals Sp)
    (l : ExecLocals Sp) :
    (stmt.run (k, l)).1.curPcb = k.curPcb ∧
      (stmt.run (k, l)).2.parent = l.parent := by
  cases stmt with
  | sleepParent =>
      simp only [ExecStmt.run]
      split
      · exact ⟨rfl, rfl⟩
      · split <;> exact ⟨rfl, rfl⟩
  | pushCur =>
      simp only [ExecStmt.run]
      split
      · exact ⟨rfl, rfl⟩
      · split <;> exact ⟨rfl, rfl⟩
  | tempNext | setFront | tss => exact ⟨rfl, rfl⟩
  | _ => exact ⟨writePcb_curPcb k _, rfl⟩

private theorem runExec_keeps {Sp : Type} (done : List ExecStmt)
    (s : Globals Sp × ExecLocals Sp) :
    (runExec done s).1.curPcb = s.1.curPcb ∧
      (runExec done s).2.parent = s.2.parent := by
  induction done generalizing s with
  | nil => exact ⟨rfl, rfl⟩
  | cons stmt done ih =>
      obtain ⟨hCur, hParent⟩ := ih (stmt.run s)
      obtain ⟨hCur1, hParent1⟩ := ExecStmt.run_keeps stmt s.1 s.2
      exact ⟨hCur.trans hCur1, hParent.trans hParent1⟩

theorem ExecStmt.writes_cur {k : Globals Ctx} {stmt : ExecStmt} {w : Write}
    (hw : w ∈ stmt.writes k) : k.curPcb = some w.owner := by
  have hEither : w ∈ k.curPcb.toList.map Write.pcb ∨
      w ∈ k.curPcb.toList.map Write.stack := by
    cases stmt with
    | sleepParent | tempNext | pushCur | setFront =>
        simp [ExecStmt.writes] at hw
    | tss => exact Or.inr hw
    | _ => exact Or.inl hw
  rcases hEither with hMem | hMem
  · obtain ⟨p, hp, hEq⟩ := List.mem_map.1 hMem
    subst hEq
    exact Option.mem_toList.1 hp
  · obtain ⟨p, hp, hEq⟩ := List.mem_map.1 hMem
    subst hEq
    exact Option.mem_toList.1 hp

/-! ## The windows -/

/-- The code is in a window. -/
def Micro.inWindow (m : Micro) : Bool :=
  match m.ctx with
  | .copying _ _ _ _ => true
  | .filling _ _ (_ :: _) => true
  | .halting _ _ (.releasePage :: _) => true
  | .halting _ _ (.curPcb :: _) => true
  | .halting _ _ (.tss :: _) => true
  | .halting _ _ (.wakeParent :: _) => true
  | _ => false

/-- The program of this name loads, if it passes the checks. -/
def ProgramLoads (fs : FileSys) (fname : CString) : Prop :=
  match checkExecutable fs fname with
  | none => True
  | some (inode, tempBuf) => Loads fs inode tempBuf

instance (fs : FileSys) (fname : CString) :
    Decidable (ProgramLoads fs fname) := by
  unfold ProgramLoads
  exact match checkExecutable fs fname with
  | none => inferInstanceAs (Decidable True)
  | some (_, _) => inferInstanceAs (Decidable (Loads _ _ _))

/-- The program that `execute` is about to load. -/
def Ctx.toLoad : Ctx → Option CString
  | .curSaved fname _ _ _ => some fname
  | _ => none

/-- No interrupt comes in a window, and a program that takes a slot loads. -/
def Micro.Undisturbed (fs : FileSys) (m : Micro) : MicroStep → Prop
  | .tick => m.inWindow = false
  | .go => ∀ fname ∈ m.ctx.toLoad, ProgramLoads fs fname
  | _ => True

instance (fs : FileSys) (m : Micro) (i : MicroStep) :
    Decidable (m.Undisturbed fs i) :=
  match i with
  | .tick => inferInstanceAs (Decidable (m.inWindow = false))
  | .go => inferInstanceAs (Decidable (∀ fname ∈ m.ctx.toLoad, _))
  | .execute _ | .halt _ => inferInstanceAs (Decidable True)

/-- What is left of the rules in runs without interrupts in the windows: a
call writes what belongs to the process it is creating or ending (`halt` also
sets the stack pointer of the parent it returns to), and the kernel is settled
and the scheduler invariant holds outside the windows. -/
structure StepOrderly (fs : FileSys) (m : Micro) (i : MicroStep) : Prop where
  owned : i = .go → ∀ w ∈ m.writes fs, ∃ p, m.subject fs = some p ∧
    (w.owner = p ∨ ∃ q, w = .stack q ∧ m.tree.parent p = some q)
  restored : (m.step fs i).inWindow = false →
    Settled (m.step fs i).kernel ∧
      SchedulerInvariant (m.step fs i).kernel (m.step fs i).tree

/-- A slot was taken in a steady state `k0`; since then only the page of the
slot has been written. -/
structure Creating (k0 k1 : Globals Ctx) (tree : ProcessTree Slot)
    (front : Task Ctx) (others : List (Task Ctx)) (cur child : Slot)
    (l : ExecLocals Ctx) : Prop where
  steady : SteadyAt { kernel := k0, ctx := .user, tree := tree } front others cur
  free : freeSlot k0 = some child
  taken : SlotTaken k0 k1 child
  parent : l.parent = some cur
  caller_pcb : l.tempCur.pcb = some cur
  caller_enabled : l.tempCur.enabled = true

/-- The copy that is under way will come to the end of the program. -/
structure CopyGoesOn (fs : FileSys) (inode : Nat) (pass : ReadState) :
    Prop where
  inode_le : inode ≤ getNumInodes fs
  index : pass.i = pass.bytesRead
  reaches : (readLoop fs (inodePtr fs inode) 0 (getInodeLen fs inode - pass.i)
    pass).bytesRead = getInodeLen fs inode
  fits : getInodeLen fs inode ≤ loadRoom

/-- Where a run without interrupts in the windows can be. -/
inductive Phase (fs : FileSys) (m : Micro) : Prop where
  | steady (h : Steady m)
  | copying (child : Slot) (inode : Nat) (pass : ReadState)
      (l : ExecLocals Ctx) (k0 : Globals Ctx) (front : Task Ctx)
      (others : List (Task Ctx)) (cur : Slot)
      (hCtx : m.ctx = .copying child inode pass l)
      (hCreating : Creating k0 m.kernel m.tree front others cur child l)
      (hCopy : CopyGoesOn fs inode pass) (hEntry : l.entryAddr ≠ minusOne)
  | filling (child : Slot) (l l1 : ExecLocals Ctx) (k0 k1 : Globals Ctx)
      (front : Task Ctx) (others : List (Task Ctx)) (cur : Slot)
      (done rest : List ExecStmt) (stmt : ExecStmt)
      (hCtx : m.ctx = .filling child l (stmt :: rest))
      (hCreating : Creating k0 k1 m.tree front others cur child l1)
      (hBody : done ++ stmt :: rest = executeBody)
      (hRun : (m.kernel, l) = runExec done (k1, l1))
  | halting (cur : Slot) (temp : Task Ctx) (k0 : Globals Ctx)
      (front : Task Ctx) (others : List (Task Ctx)) (q : Slot)
      (done rest : List HaltStmt) (stmt : HaltStmt)
      (hCtx : m.ctx = .halting cur temp (stmt :: rest))
      (hSteady : SteadyAt { kernel := k0, ctx := .user, tree := m.tree }
        front others cur)
      (hParent : m.tree.parent cur = some q) (hNotZero : cur ≠ 0)
      (hBody : .loadParent :: done ++ stmt :: rest = haltSwitch)
      (hRun : m.kernel = runHalt temp (.loadParent :: done) k0)

/-! ### The copy -/

theorem CopyGoesOn.start {fs : FileSys} {fname : CString}
    {header : Nat × Buffer} (hCheck : checkExecutable fs fname = some header)
    (hLoads : Loads fs header.1 header.2) :
    CopyGoesOn fs header.1 (readStart 0 fun _ => 0#8) := by
  have hInode : ¬ header.1 > getNumInodes fs := by
    intro hPast
    unfold checkExecutable at hCheck
    cases hFound : readDentryByName fs fname with
    | none => simp [hFound] at hCheck
    | some dentry =>
        simp only [hFound] at hCheck
        split at hCheck
        · contradiction
        · rename_i hCount
          split at hCheck
          · contradiction
          · injection hCheck with hHeader
            apply hCount
            rw [← hHeader] at hPast
            unfold readData
            rw [if_pos hPast]
            simp [maxTempBuf]
  have hAll := hLoads.1
  have hRoom := hLoads.2.1
  refine { inode_le := Nat.le_of_not_lt hInode, index := rfl, reaches := ?_,
           fits := hAll ▸ hRoom }
  unfold copiedBytes readData at hAll
  rw [if_neg hInode] at hAll
  exact hAll

theorem CopyGoesOn.next {fs : FileSys} {inode : Nat} {pass pass' : ReadState}
    (h : CopyGoesOn fs inode pass) (hMore : pass.i < getInodeLen fs inode)
    (hStep : readStep fs (inodePtr fs inode) 0 pass = some pass') :
    CopyGoesOn fs inode pass' := by
  obtain ⟨hIndex, hCount, _⟩ := readStep_counts hStep
  have hReach := h.reaches
  obtain ⟨n, hn⟩ : ∃ n, getInodeLen fs inode - pass.i = n + 1 :=
    ⟨getInodeLen fs inode - pass.i - 1, by omega⟩
  have hLeft : getInodeLen fs inode - pass'.i = n := by omega
  rw [hn, readLoop, hStep] at hReach
  exact
    { inode_le := h.inode_le
      index := by rw [hIndex, hCount, h.index]
      reaches := by rw [hLeft]; exact hReach
      fits := h.fits }

/-- When the loop stops, the whole program has been read. -/
theorem CopyGoesOn.stop {fs : FileSys} {inode : Nat} {pass : ReadState}
    (h : CopyGoesOn fs inode pass)
    (hStop : getInodeLen fs inode ≤ pass.i ∨
      readStep fs (inodePtr fs inode) 0 pass = none) :
    pass.bytesRead = getInodeLen fs inode := by
  have hReach := h.reaches
  cases hLeft : getInodeLen fs inode - pass.i with
  | zero =>
      rw [hLeft, readLoop] at hReach
      exact hReach
  | succ n =>
      rcases hStop with hEnd | hNone
      · omega
      · rw [hLeft, readLoop, hNone] at hReach
        exact hReach

/-! ### Into the windows -/

/-- An `execute` takes a slot. -/
theorem Phase.enter_execute {fs : FileSys} {m : Micro} {front : Task Ctx}
    {others : List (Task Ctx)} {cur c : Slot} {fname argstr : CString}
    {parent : Option Slot} {tempCur : Task Ctx}
    (h : SteadyAt m front others cur)
    (hCtx : m.ctx = .curSaved fname argstr parent tempCur)
    (hTaken : takenSlot fs fname m.kernel = some c)
    (hUndisturbed : m.Undisturbed fs .go) : Phase fs (m.go fs) := by
  have hCalm := h.running
  rw [hCtx] at hCalm
  unfold takenSlot at hTaken
  cases hCheck : checkExecutable fs fname with
  | none => simp [hCheck] at hTaken
  | some header =>
      simp only [hCheck, Option.isSome_some, if_true] at hTaken
      have hLoad : Loads fs header.1 header.2 := by
        have hProgram := hUndisturbed fname (by rw [hCtx]; rfl)
        simpa only [ProgramLoads, hCheck] using hProgram
      simp only [Micro.go, hCtx, newProcessPtable, hCheck, hTaken]
      exact Phase.copying c header.1 (readStart 0 fun _ => 0#8)
        (callLocals argstr parent tempCur header.2) m.kernel front others cur
        rfl
        { steady := h.move trivial
          free := hTaken
          taken := slotTaken_spec m.kernel c
          parent := hCalm.1
          caller_pcb := hCalm.2.1
          caller_enabled := hCalm.2.2 }
        (CopyGoesOn.start hCheck hLoad) hLoad.2.2

/-- A `halt` loads the directory of the parent. -/
theorem Phase.enter_halt {fs : FileSys} {m : Micro} {front : Task Ctx}
    {others : List (Task Ctx)} {cur ended : Slot} {temp : Task Ctx}
    {rest : List HaltStmt} (h : SteadyAt m front others cur)
    (hCtx : m.ctx = .halting ended temp (.loadParent :: rest)) :
    Phase fs (m.go fs) := by
  have hCalm := h.running
  rw [hCtx] at hCalm
  obtain ⟨hEnded, hNotZero, ⟨q, hq⟩, hClean | hSwitch⟩ := hCalm.halting_cons
  · exact absurd hClean.1 (by decide)
  · injection hSwitch with _ hRest
    subst hEnded hRest
    simp only [Micro.go, hCtx]
    exact Phase.halting ended temp m.kernel front others q [] _ .releasePage
      rfl (h.move trivial) hq hNotZero rfl rfl

/-! ### Inside the windows -/

/-- A pass of the copy, or its end. -/
theorem Phase.copyStep {fs : FileSys} {m : Micro} {front : Task Ctx}
    {others : List (Task Ctx)} {cur child : Slot} {inode : Nat}
    {pass : ReadState} {l : ExecLocals Ctx} {k0 : Globals Ctx}
    (hCreating : Creating k0 m.kernel m.tree front others cur child l)
    (hCopy : CopyGoesOn fs inode pass) (hEntry : l.entryAddr ≠ minusOne) :
    Phase fs (m.copyStep fs child inode pass l) := by
  have hBehind : (getInodeLen fs inode ≤ pass.i ∨
      readStep fs (inodePtr fs inode) 0 pass = none) →
      Phase fs { m with ctx := afterCopy fs child inode pass l } := by
    intro hStop
    unfold afterCopy
    rw [if_neg (fun h => h (hCopy.stop hStop)), if_neg hEntry]
    exact Phase.filling child l l k0 m.kernel front others cur [] _ .stdinOps
      rfl hCreating rfl rfl
  unfold Micro.copyStep
  by_cases hEnd : getInodeLen fs inode ≤ pass.i
  · rw [if_pos (Or.inr hEnd)]
    exact hBehind (Or.inl hEnd)
  · have hInode := hCopy.inode_le
    rw [if_neg (by omega)]
    cases hStep : readStep fs (inodePtr fs inode) 0 pass with
    | none => exact hBehind (Or.inr hStep)
    | some pass' =>
        have hFits := hCopy.fits
        simp only [hCreating.taken.cr3]
        rw [if_neg (by omega)]
        exact Phase.copying child inode pass' l k0 front others cur rfl
          { hCreating with taken := hCreating.taken.setPage _ }
          (hCopy.next (Nat.lt_of_not_le hEnd) hStep) hEntry

/-- After the last statement of `execute` the new process is in the tree. -/
theorem Creating.started {k0 k1 : Globals Ctx} {tree : ProcessTree Slot}
    {front : Task Ctx} {others : List (Task Ctx)} {cur child : Slot}
    {l l' : ExecLocals Ctx}
    (h : Creating k0 k1 tree front others cur child l) :
    Steady
      { kernel := (runExec executeBody (k1, l)).1
        ctx := .filling child l' []
        tree := tree.spawn (some cur) child } := by
  have hParent := h.steady.executeParent_eq
  have hStart := h.taken.runExec l (h.parent.trans hParent.symm)
  have hFront := h.steady.scheduled.front_pcb
  have hFrontOn := h.steady.scheduled.front_enabled
  have hNext := h.steady.scheduled.started h.free
    (h.caller_pcb.trans hFront.symm) (h.caller_enabled.trans hFrontOn.symm)
    hStart
  have hNew : ¬ tree.live child := fun hLive =>
    freeSlot_spec h.free ((h.steady.scheduled.present_iff child).2 hLive)
  have hNe : ∀ p, tree.live p → p ≠ child := fun p hLive hEq =>
    hNew (hEq ▸ hLive)
  rw [hParent] at hNext
  refine ⟨_, _, child, ?_, hNext, rfl, ?_⟩
  · intro p hp
    obtain ⟨hLive, hRoot⟩ := h.steady.roots p hp
    refine ⟨Or.inr hLive, ?_⟩
    exact (ProcessTree.spawn_parent_of_ne (hNe p hLive)).trans hRoot
  · intro t ht hOn p hp
    rcases List.mem_append.1 ht with hOther | hCaller
    · have hLive : tree.live p :=
        (h.steady.scheduled.queue.live_iff p).2
          (List.mem_map.2 ⟨t, List.mem_cons_of_mem _ hOther, hp⟩)
      exact (h.steady.waiting t hOther hOn p hp).congr
        (ProcessTree.spawn_parent_of_ne (hNe p hLive))
    · rw [List.mem_singleton.1 hCaller] at hOn
      simp [sleepingTask] at hOn

/-- A statement of `execute`. -/
theorem Phase.fill {fs : FileSys} {m : Micro} {front : Task Ctx}
    {others : List (Task Ctx)} {cur child : Slot} {l l1 : ExecLocals Ctx}
    {k0 k1 : Globals Ctx} {done rest : List ExecStmt} {stmt : ExecStmt}
    (hCtx : m.ctx = .filling child l (stmt :: rest))
    (hCreating : Creating k0 k1 m.tree front others cur child l1)
    (hBody : done ++ stmt :: rest = executeBody)
    (hRun : (m.kernel, l) = runExec done (k1, l1)) : Phase fs (m.go fs) := by
  have hNext : stmt.run (m.kernel, l) = runExec (done ++ [stmt]) (k1, l1) := by
    rw [runExec_concat, hRun]
  have hBody' : (done ++ [stmt]) ++ rest = executeBody := by
    rw [← hBody]
    simp
  simp only [Micro.go, hCtx, hNext]
  cases rest with
  | nil =>
      rw [List.append_nil] at hBody'
      have hParent : l.parent = some cur := by
        have hKept := (runExec_keeps done (k1, l1)).2
        rw [← hRun] at hKept
        exact hKept.trans hCreating.parent
      rw [if_pos rfl, hBody', hParent]
      exact Phase.steady hCreating.started
  | cons next rest =>
      rw [if_neg (List.cons_ne_nil _ _)]
      exact Phase.filling child _ l1 k0 k1 front others cur (done ++ [stmt])
        rest next rfl hCreating hBody' rfl

/-- A statement of `halt`. -/
theorem Phase.wind {fs : FileSys} {m : Micro} {front : Task Ctx}
    {others : List (Task Ctx)} {cur q : Slot} {temp : Task Ctx}
    {k0 : Globals Ctx} {done rest : List HaltStmt} {stmt : HaltStmt}
    (hCtx : m.ctx = .halting cur temp (stmt :: rest))
    (hSteady : SteadyAt { kernel := k0, ctx := .user, tree := m.tree } front
      others cur)
    (hParent : m.tree.parent cur = some q) (hNotZero : cur ≠ 0)
    (hBody : .loadParent :: done ++ stmt :: rest = haltSwitch)
    (hRun : m.kernel = runHalt temp (.loadParent :: done) k0) :
    Phase fs (m.go fs) := by
  have hNext : stmt.run temp m.kernel =
      runHalt temp (.loadParent :: (done ++ [stmt])) k0 := by
    rw [← List.cons_append, runHalt_concat, hRun]
  have hBody' : .loadParent :: (done ++ [stmt]) ++ rest = haltSwitch := by
    rw [← hBody]
    simp
  simp only [Micro.go, hCtx, hNext]
  cases rest with
  | nil =>
      rw [List.append_nil] at hBody'
      obtain ⟨woken, rest', hSub, _, hSched⟩ :=
        hSteady.scheduled.haltSwitch temp hParent hNotZero
      rw [if_pos rfl, hBody']
      refine Phase.steady ⟨woken, rest', q, ?_, hSched, Or.inl rfl, ?_⟩
      · intro p hp
        obtain ⟨hLive, hRoot⟩ := hSteady.roots p hp
        refine ⟨⟨?_, hLive⟩, hRoot⟩
        intro hEq
        rw [hEq] at hRoot
        rw [hRoot] at hParent
        contradiction
      · intro t ht hOn p hp
        exact (hSteady.waiting t (hSub t ht) hOn p hp).congr rfl
  | cons next rest =>
      rw [if_neg (List.cons_ne_nil _ _)]
      exact Phase.halting cur temp k0 front others q (done ++ [stmt]) rest next
        rfl hSteady hParent hNotZero hBody' rfl

/-! ### Where the switch of `halt` is -/

/-- What has been run of the switch, and the next statement. -/
theorem haltSwitch_split {done rest : List HaltStmt} {stmt : HaltStmt}
    (h : .loadParent :: done ++ stmt :: rest = haltSwitch) :
    (done = [] ∧ stmt = .releasePage) ∨
    (done = [.releasePage] ∧ stmt = .curPcb) ∨
    (done = [.releasePage, .curPcb] ∧ stmt = .tss) ∨
    (done = [.releasePage, .curPcb, .tss] ∧ stmt = .wakeParent) := by
  unfold haltSwitch at h
  rcases done with _ | ⟨a, _ | ⟨b, _ | ⟨c, _ | ⟨d, done⟩⟩⟩⟩ <;>
    simp at h ⊢ <;> grind

/-- In a window every state of a run without interrupts is one of these. -/
theorem Phase.inWindow {fs : FileSys} {m : Micro} (h : Phase fs m)
    (hOut : m.inWindow = false) : Steady m := by
  cases h with
  | steady h => exact h
  | copying _ _ _ _ _ _ _ _ hCtx => simp [Micro.inWindow, hCtx] at hOut
  | filling _ _ _ _ _ _ _ _ _ _ _ hCtx => simp [Micro.inWindow, hCtx] at hOut
  | halting _ _ _ _ _ _ _ _ _ hCtx _ _ _ hBody =>
      rcases haltSwitch_split hBody with
        ⟨_, hStmt⟩ | ⟨_, hStmt⟩ | ⟨_, hStmt⟩ | ⟨_, hStmt⟩ <;>
        simp [Micro.inWindow, hCtx, hStmt] at hOut

/-- In a window the code goes on, if the timer does not interrupt it. -/
theorem Micro.inWindow_go {fs : FileSys} {m : Micro} {i : MicroStep}
    (hIn : m.inWindow = true) (hLegal : (interruptMachine fs).legal m i)
    (hUndisturbed : m.Undisturbed fs i) : i = .go := by
  have hCall : m.ctx.isUser = false := by
    unfold Micro.inWindow at hIn
    unfold Ctx.isUser
    cases hCtx : m.ctx with
    | user => simp [hCtx] at hIn
    | _ => rfl
  cases i with
  | tick =>
      have hOut : m.inWindow = false := hUndisturbed
      rw [hOut] at hIn
      contradiction
  | go => rfl
  | execute strname =>
      have hUser : m.ctx.isUser = true := hLegal
      rw [hCall] at hUser
      contradiction
  | halt temp =>
      have hUser : m.ctx.isUser = true := hLegal
      rw [hCall] at hUser
      contradiction

/-! ### Ownership -/

/-- In `halt`, what the switch writes is the child's page and the parent's
stack pointer. -/
theorem SteadyAt.haltSwitch_owned {k0 : Globals Ctx}
    {tree : ProcessTree Slot} {front : Task Ctx} {others : List (Task Ctx)}
    {cur q : Slot} {temp : Task Ctx} {done rest : List HaltStmt}
    {stmt : HaltStmt}
    (h : SteadyAt { kernel := k0, ctx := .user, tree := tree } front others cur)
    (hParent : tree.parent cur = some q)
    (hBody : .loadParent :: done ++ stmt :: rest = haltSwitch) :
    ∀ w ∈ stmt.writes (runHalt temp (.loadParent :: done) k0),
      w = .page cur ∨ w = .stack q := by
  have hCur : k0.curPcb = some cur := h.scheduled.curPcb
  have hPid : (k0.pcbs cur).pid = cur := h.scheduled.pid cur h.scheduled.cur_live
  have hLink : (k0.pcbs cur).parentPid = some q :=
    (h.scheduled.parentPid cur h.scheduled.cur_live).trans hParent
  intro w hw
  rcases haltSwitch_split hBody with
    ⟨hDone, hStmt⟩ | ⟨hDone, hStmt⟩ | ⟨hDone, hStmt⟩ | ⟨hDone, hStmt⟩ <;>
    subst hDone hStmt
  · simp [runHalt, HaltStmt.run, HaltStmt.writes, loadParentDir, hCur, hLink,
      hPid] at hw
    exact Or.inl hw
  · simp [HaltStmt.writes] at hw
  · simp [runHalt, HaltStmt.run, HaltStmt.writes, loadParentDir,
      Kernel.releasePage, Kernel.parentPcb, hCur, hLink, hPid] at hw
    exact Or.inr hw
  · simp [HaltStmt.writes] at hw

/-- Entering a window writes the slot that is taken, or nothing. -/
theorem Micro.entersWindow_owned {fs : FileSys} {m : Micro}
    (hEnters : m.entersWindow fs .go = true) :
    ∀ w ∈ m.writes fs, m.subject fs = some w.owner := by
  intro w hw
  unfold Micro.writes at hw
  unfold Micro.subject
  cases hCtx : m.ctx with
  | curSaved fname argstr parent tempCur =>
      simp only [hCtx] at hw
      cases hTaken : takenSlot fs fname m.kernel with
      | none => simp [hTaken] at hw
      | some c =>
          simp only [hTaken, Option.toList_some, List.flatMap_singleton,
            List.mem_cons, List.not_mem_nil, or_false] at hw
          show takenSlot fs fname m.kernel = some w.owner
          rw [hTaken]
          rcases hw with hw | hw <;> rw [hw] <;> rfl
  | halting ended temp rest =>
      cases rest with
      | nil => simp [hCtx] at hw
      | cons stmt rest =>
          cases stmt with
          | loadParent => simp [hCtx, HaltStmt.writes] at hw
          | _ => simp [Micro.entersWindow, hCtx] at hEnters
  | _ => simp [Micro.entersWindow, hCtx] at hEnters

/-- A step writes what belongs to the process being created or ended. -/
theorem Phase.owned {fs : FileSys} {m : Micro} (h : Phase fs m) :
    ∀ w ∈ m.writes fs, ∃ p, m.subject fs = some p ∧
      (w.owner = p ∨ ∃ q, w = .stack q ∧ m.tree.parent p = some q) := by
  intro w hw
  cases h with
  | steady h =>
      obtain ⟨front, others, cur, hAt⟩ := h
      cases hEnters : m.entersWindow fs .go with
      | false => exact ⟨w.owner, hAt.owned hEnters w hw, Or.inl rfl⟩
      | true =>
          exact ⟨w.owner, Micro.entersWindow_owned hEnters w hw, Or.inl rfl⟩
  | copying child inode pass l k0 front others cur hCtx hCreating =>
      unfold Micro.writes at hw
      simp only [hCtx, hCreating.taken.cr3, List.mem_singleton] at hw
      refine ⟨child, ?_, Or.inl ?_⟩
      · simp only [Micro.subject, hCtx]
      · rw [hw]
        rfl
  | filling child l l1 k0 k1 front others cur done rest stmt hCtx hCreating
      hBody hRun =>
      unfold Micro.writes at hw
      simp only [hCtx] at hw
      have hCur := ExecStmt.writes_cur hw
      have hKept := (runExec_keeps done (k1, l1)).1
      rw [← hRun] at hKept
      refine ⟨child, by simp only [Micro.subject, hCtx], Or.inl ?_⟩
      have hOwner := hCur.symm.trans (hKept.trans hCreating.taken.curPcb)
      exact Option.some.inj hOwner
  | halting cur temp k0 front others q done rest stmt hCtx hSteady hParent
      hNotZero hBody hRun =>
      unfold Micro.writes at hw
      simp only [hCtx, hRun] at hw
      refine ⟨cur, by simp only [Micro.subject, hCtx], ?_⟩
      rcases hSteady.haltSwitch_owned hParent hBody w hw with hPage | hStack
      · left
        rw [hPage]
        rfl
      · exact Or.inr ⟨q, hStack, hParent⟩

/-! ## Runs without interrupts in the windows -/

theorem SteadyAt.next {fs : FileSys} {m : Micro} {front : Task Ctx}
    {others : List (Task Ctx)} {cur : Slot} (h : SteadyAt m front others cur)
    {i : MicroStep} (hUndisturbed : m.Undisturbed fs i) :
    Phase fs (m.step fs i) := by
  cases hEnters : m.entersWindow fs i with
  | false => exact Phase.steady (h.step hEnters)
  | true =>
      cases i with
      | tick | execute | halt => contradiction
      | go =>
          unfold Micro.entersWindow at hEnters
          cases hCtx : m.ctx with
          | curSaved fname argstr parent tempCur =>
              simp only [hCtx] at hEnters
              obtain ⟨c, hTaken⟩ := Option.isSome_iff_exists.1 hEnters
              exact Phase.enter_execute h hCtx hTaken hUndisturbed
          | halting ended temp rest =>
              cases rest with
              | nil => simp [hCtx] at hEnters
              | cons stmt rest =>
                  cases stmt with
                  | loadParent => exact Phase.enter_halt h hCtx
                  | _ => simp [hCtx] at hEnters
          | _ => simp [hCtx] at hEnters

theorem Phase.next {fs : FileSys} {m : Micro} (h : Phase fs m)
    {i : MicroStep} (hLegal : (interruptMachine fs).legal m i)
    (hUndisturbed : m.Undisturbed fs i) : Phase fs (m.step fs i) := by
  have hGoes := fun hIn => Micro.inWindow_go hIn hLegal hUndisturbed
  cases h with
  | steady h =>
      obtain ⟨front, others, cur, hAt⟩ := h
      exact hAt.next hUndisturbed
  | copying child inode pass l k0 front others cur hCtx hCreating hCopy
      hEntry =>
      have hGo := hGoes (by simp only [Micro.inWindow, hCtx])
      subst hGo
      have hStep := Phase.copyStep hCreating hCopy hEntry
      simp only [Micro.step, Micro.go, hCtx]
      exact hStep
  | filling child l l1 k0 k1 front others cur done rest stmt hCtx hCreating
      hBody hRun =>
      have hGo := hGoes (by simp only [Micro.inWindow, hCtx])
      subst hGo
      exact Phase.fill hCtx hCreating hBody hRun
  | halting cur temp k0 front others q done rest stmt hCtx hSteady hParent
      hNotZero hBody hRun =>
      have hIn : m.inWindow = true := by
        rcases haltSwitch_split hBody with
          ⟨_, hStmt⟩ | ⟨_, hStmt⟩ | ⟨_, hStmt⟩ | ⟨_, hStmt⟩ <;>
          simp only [Micro.inWindow, hCtx, hStmt]
      have hGo := hGoes hIn
      subst hGo
      exact Phase.wind hCtx hSteady hParent hNotZero hBody hRun

theorem Phase.stepOrderly {fs : FileSys} {m : Micro} (h : Phase fs m)
    {i : MicroStep} (hLegal : (interruptMachine fs).legal m i)
    (hUndisturbed : m.Undisturbed fs i) : StepOrderly fs m i where
  owned := fun _ => h.owned
  restored := by
    intro hOut
    obtain ⟨front, others, cur, hAt⟩ :=
      (h.next hLegal hUndisturbed).inWindow hOut
    exact ⟨hAt.settled, hAt.scheduled.schedulerInvariant⟩

/-! ## The result -/

/-- The stack pointers that the interrupts of the boot save: those of the user
programs of the shells. -/
def userRegs : Regs Ctx where
  esp := .user
  ebp := .user

/--
**Interrupts in `execute` and `halt`.**  From the state in which the three
shells are up, a run of system calls with timer interrupts at any points keeps
to the rules exactly when no step of it enters a window.  In a run with
windows but no interrupt in them, each call writes what is its own and the
rules hold again behind the windows.
-/
theorem interrupt_safety {fs : FileSys} (hShell : ShellLoads fs)
    {k0 : Globals Ctx} (hInit : AfterInit k0) (exec : Fin 3 → Regs Ctx) :
    ∃ k, bootShells fs (fun _ => userRegs) exec k0 = some k ∧
      Settled k ∧ SchedulerInvariant k bootTree ∧
      ∀ run, (interruptMachine fs).Legal ⟨k, .user, bootTree⟩ run →
        ((interruptMachine fs).Always (StepSafe fs) ⟨k, .user, bootTree⟩ run ↔
          (interruptMachine fs).Always
            (fun m i => m.entersWindow fs i = false) ⟨k, .user, bootTree⟩
            run) ∧
        ((interruptMachine fs).Always (Micro.Undisturbed fs)
            ⟨k, .user, bootTree⟩ run →
          (interruptMachine fs).Always (StepOrderly fs) ⟨k, .user, bootTree⟩
            run) := by
  obtain ⟨k, front, others, hBoot, hSched, hWaiting⟩ :=
    hInit.boot hShell (fun _ => userRegs) exec
  have hSteady : Steady ⟨k, .user, bootTree⟩ := by
    refine Steady.boot hSched ?_
    intro t ht
    rcases hWaiting t ht with hUser | hUser <;> exact hUser
  refine ⟨k, hBoot, ?_, hSched.schedulerInvariant, ?_⟩
  · obtain ⟨_, _, _, hAt⟩ := hSteady
    exact hAt.settled
  intro run hLegal
  constructor
  · refine (interruptMachine fs).always_iff_of_invariant ?_ ?_ run _ hSteady
      hLegal
    · rintro m i ⟨_, _, _, hHere⟩ _ hOut
      exact ⟨hHere.stepSafe hOut, hHere.step hOut⟩
    · rintro m i ⟨_, _, _, hHere⟩ _ hSafe
      cases hEnters : m.entersWindow fs i with
      | false => rfl
      | true => exact absurd hSafe (hHere.not_stepSafe hEnters)
  · have hStart : Phase fs ⟨k, .user, bootTree⟩ := Phase.steady hSteady
    refine (interruptMachine fs).always_of_invariant ?_ run _ hStart hLegal
    intro m i hPhase hStep hUndisturbed
    exact ⟨hPhase.stepOrderly hStep hUndisturbed,
      hPhase.next hStep hUndisturbed⟩

instance (fs : FileSys) (m : Micro) (i : MicroStep) :
    Decidable ((interruptMachine fs).legal m i) :=
  match i with
  | .tick | .go => inferInstanceAs (Decidable (m.ctx.isHung = false))
  | .execute _ | .halt _ => inferInstanceAs (Decidable (m.ctx.isUser = true))

private theorem programImage_boots :
    (bootShells programImage (fun _ => userRegs) (fun _ => userRegs)
      (initGlobals .user)).isSome := by
  decide +kernel

/-- The three shells of `programImage`, the third one running. -/
def threeShells : Micro where
  kernel := (bootShells programImage (fun _ => userRegs) (fun _ => userRegs)
    (initGlobals .user)).get programImage_boots
  ctx := .user
  tree := bootTree

/-- `"x"` is not there: the call is interrupted, and fails when the timer has
come back to it.  `"shell"` is: the whole call, with one interrupt in front of
its window and one behind. -/
theorem interrupt_safety_thirdShell :
    (interruptMachine programImage).Always (StepSafe programImage) threeShells
        [.execute [0x78#8], .go, .go, .tick, .tick, .tick, .go, .go, .tick] ∧
      (interruptMachine programImage).Always (StepOrderly programImage)
        threeShells ([.execute shell, .go, .tick, .tick, .tick] ++
          List.replicate 60 .go ++ [.tick]) := by
  obtain ⟨k, hBoot, _, _, hRuns⟩ := interrupt_safety programImage_shell
    (initGlobals_afterInit .user) (fun _ => userRegs)
  have hUp : threeShells = ⟨k, .user, bootTree⟩ := by
    unfold threeShells
    simp only [hBoot, Option.get_some]
  constructor
  · obtain ⟨hLegal, hOut⟩ :
        (interruptMachine programImage).Legal threeShells
          [.execute [0x78#8], .go, .go, .tick, .tick, .tick, .go, .go,
            .tick] ∧
        (interruptMachine programImage).Always
          (fun m i => m.entersWindow programImage i = false) threeShells
          [.execute [0x78#8], .go, .go, .tick, .tick, .tick, .go, .go,
            .tick] := by
      decide +kernel
    rw [hUp] at hLegal hOut ⊢
    exact (hRuns _ hLegal).1.2 hOut
  · obtain ⟨hLegal, hUndisturbed⟩ :
        (interruptMachine programImage).Legal threeShells
          ([.execute shell, .go, .tick, .tick, .tick] ++
            List.replicate 60 .go ++ [.tick]) ∧
        (interruptMachine programImage).Always
          (Micro.Undisturbed programImage) threeShells
          ([.execute shell, .go, .tick, .tick, .tick] ++
            List.replicate 60 .go ++ [.tick]) := by
      decide +kernel
    rw [hUp] at hLegal hUndisturbed ⊢
    exact (hRuns _ hLegal).2 hUndisturbed

/-- The third shell executes `"shell"` and is interrupted in the copy. -/
def interruptedCopy : List MicroStep :=
  [.execute shell, .go, .go, .go, .go, .tick, .tick, .tick]

/-- When the timer comes back to it, `cr3` is the directory of the caller, and
the copy goes on into the caller's page. -/
theorem interruptedCopy_writes :
    let m := (interruptMachine programImage).run threeShells interruptedCopy
    m.subject programImage = some 3 ∧
      m.writes programImage = [.page 2] ∧
      (interruptMachine programImage).Legal threeShells
        (interruptedCopy ++ [.go]) ∧
      ¬ (interruptMachine programImage).Always (StepSafe programImage)
        threeShells (interruptedCopy ++ [.go]) := by
  intro m
  obtain ⟨hSubject, hWrites, hLegal⟩ : m.subject programImage = some 3 ∧
      m.writes programImage = [.page 2] ∧
      (interruptMachine programImage).Legal threeShells
        (interruptedCopy ++ [.go]) := by
    decide +kernel
  refine ⟨hSubject, hWrites, hLegal, ?_⟩
  intro hAlways
  have hLast := (((interruptMachine programImage).always_append _ _ _ _).1
    hAlways).2.1
  have hOwner := hLast.owned rfl (.page 2)
    (by rw [hWrites]; exact List.mem_singleton.2 rfl)
  rw [hSubject] at hOwner
  revert hOwner
  decide

end CompE.Kernel
