import CompE.Kernel.Process

/-!
# What `execute`, `halt` and the timer interrupt do

One lemma for each way a call can end, with everything it changes.  The
invariants are proved from these and never unfold the functions again.

How far `execute` comes is a matter of the image and of the slots alone: the
checks before a slot is taken (`checkExecutable`), a free slot, and the copy
and the entry point behind it (`Loads`).
-/

namespace CompE.Kernel

variable {Sp : Type}

/-! ## The number of bytes that a copy reads -/

/-- The passes do not depend on the buffer. -/
theorem readStep_buf (fs : FileSys) (inodeptr offset : Nat) (s : ReadState)
    (b : Buffer) :
    (readStep fs inodeptr offset s = none ∧
        readStep fs inodeptr offset { s with buf := b } = none) ∨
    ∃ (s' : ReadState) (b' : Buffer), readStep fs inodeptr offset s = some s' ∧
      readStep fs inodeptr offset { s with buf := b } =
        some { s' with buf := b' } := by
  unfold readStep
  split
  · exact Or.inl ⟨rfl, rfl⟩
  · split
    · exact Or.inl ⟨rfl, rfl⟩
    · exact Or.inr ⟨_, _, rfl, rfl⟩

private theorem readLoop_buf (fs : FileSys) (inodeptr offset : Nat) :
    ∀ (n : Nat) (s : ReadState) (b : Buffer),
      (readLoop fs inodeptr offset n { s with buf := b }).bytesRead =
        (readLoop fs inodeptr offset n s).bytesRead := by
  intro n
  induction n with
  | zero => intro s b; rfl
  | succ n ih =>
      intro s b
      rcases readStep_buf fs inodeptr offset s b with
        ⟨hNone, hNone'⟩ | ⟨s', b', hSome, hSome'⟩
      · rw [readLoop, readLoop, hNone, hNone']
      · rw [readLoop, readLoop, hSome, hSome']
        exact ih s' b'

/-- The return value of `read_data` does not depend on the buffer. -/
theorem readData_count (fs : FileSys) (inode offset length : Nat)
    (buf buf' : Buffer) :
    (readData fs inode offset buf length).1 =
      (readData fs inode offset buf' length).1 := by
  unfold readData
  split
  · rfl
  · exact readLoop_buf fs (inodePtr fs inode) offset length
      (readStart offset buf') buf

/-- The bytes that the copy of a file reads. -/
def copiedBytes (fs : FileSys) (inode : Nat) : Nat :=
  (readData fs inode 0 (fun _ => 0#8) (getInodeLen fs inode)).1

theorem copyProgram_eq (fs : FileSys) (inode : Nat) {k : Globals Sp} {p : Slot}
    (hDir : k.cr3 = .process p) :
    ∃ page, copyProgram fs inode k =
      if copiedBytes fs inode > loadRoom then none
      else some (copiedBytes fs inode,
        { k with userPage := Function.update k.userPage p page }) := by
  unfold copyProgram copiedBytes
  rw [hDir]
  simp only [readData_count fs inode 0 (getInodeLen fs inode)
    (loadBuffer (k.userPage p)) (fun _ => 0#8)]
  exact ⟨_, rfl⟩

/-! ## How far `execute` comes -/

/-- An executable that passed the checks loads to its end: all of it is read,
it fits, and its entry point is not mistaken for a failure. -/
def Loads (fs : FileSys) (inode : Nat) (tempBuf : Buffer) : Prop :=
  copiedBytes fs inode = getInodeLen fs inode ∧
    copiedBytes fs inode ≤ loadRoom ∧ entryPoint tempBuf ≠ minusOne

instance (fs : FileSys) (inode : Nat) (tempBuf : Buffer) :
    Decidable (Loads fs inode tempBuf) :=
  inferInstanceAs (Decidable (_ ∧ _ ∧ _))

/-- `execute` takes a slot. -/
def TakesSlot (fs : FileSys) (strname : CString) (k : Globals Sp) : Prop :=
  (checkExecutable fs (parseExec strname).1).isSome ∧ (freeSlot k).isSome

instance (fs : FileSys) (strname : CString) (k : Globals Sp) :
    Decidable (TakesSlot fs strname k) :=
  inferInstanceAs (Decidable (_ ∧ _))

/-- The program that a command names passes the checks and then does not
load. -/
def LoadFails (fs : FileSys) (strname : CString) : Prop :=
  match checkExecutable fs (parseExec strname).1 with
  | none => False
  | some (inode, tempBuf) => ¬ Loads fs inode tempBuf

instance (fs : FileSys) (strname : CString) :
    Decidable (LoadFails fs strname) := by
  unfold LoadFails
  exact match checkExecutable fs (parseExec strname).1 with
  | none => inferInstanceAs (Decidable False)
  | some _ => inferInstanceAs (Decidable (¬ _))

/-- Before a slot is taken nothing has changed. -/
theorem execute_early {fs : FileSys} {strname : CString} {k : Globals Sp}
    (temp : Regs Sp) (hQueue : k.taskQueue ≠ [])
    (hEarly : ¬ TakesSlot fs strname k) :
    execute fs strname temp k = (.failed, k) := by
  unfold execute
  cases hHead : k.taskQueue with
  | nil => exact absurd hHead hQueue
  | cons tempCur rest =>
      have hFail : fileToMem fs (parseExec strname).1 k = some (minusOne, k) := by
        unfold fileToMem
        cases hCheck : checkExecutable fs (parseExec strname).1 with
        | none => rfl
        | some header =>
            have hFree : freeSlot k = none := by
              rw [← Option.not_isSome_iff_eq_none]
              intro hFree
              exact hEarly ⟨by rw [hCheck]; rfl, hFree⟩
            simp only [newProcessPtable, hFree]
      simp only [hFail, if_true]

/-! ### The slot -/

theorem freeSlot_spec {k : Globals Sp} {c : Slot} (h : freeSlot k = some c) :
    ¬ present (k.userPde c) := by
  have := List.find?_some h
  simpa using this

/-- The state at the `sti` of `file_to_mem`, with slot `c` taken. -/
def slotTaken (k : Globals Sp) (c : Slot) : Globals Sp :=
  attachPcb c { k with
    userPde := Function.update k.userPde c (k.userPde c ||| 0x1#32)
    cr3 := .process c }

/-- What taking a slot changes (and the copy of the program, which writes only
into the page of the slot). -/
structure SlotTaken (k k' : Globals Sp) (c : Slot) : Prop where
  curPcb : k'.curPcb = some c
  taskQueue : k'.taskQueue = k.taskQueue
  userPde : k'.userPde = Function.update k.userPde c (k.userPde c ||| 0x1#32)
  cr3 : k'.cr3 = .process c
  others : ∀ p, p ≠ c → k'.pcbs p = k.pcbs p
  pid : (k'.pcbs c).pid = c

theorem slotTaken_spec (k : Globals Sp) (c : Slot) :
    SlotTaken k (slotTaken k c) c where
  curPcb := rfl
  taskQueue := rfl
  userPde := rfl
  cr3 := rfl
  others := by
    intro p hp
    simp [slotTaken, attachPcb, Globals.writePcb, hp]
  pid := by simp [slotTaken, attachPcb, Globals.writePcb]

theorem SlotTaken.setPage {k k' : Globals Sp} {c : Slot}
    (h : SlotTaken k k' c) (pages : Slot → Buffer) :
    SlotTaken k { k' with userPage := pages } c where
  curPcb := h.curPcb
  taskQueue := h.taskQueue
  userPde := h.userPde
  cr3 := h.cr3
  others := h.others
  pid := h.pid

/-! ### The statements behind the copy -/

/-- The PCB of the new process after all statements. -/
def filledPcb (l : ExecLocals Sp) (pcb : Pcb Sp) : Pcb Sp :=
  { pcb with
    fileArray := Function.update
      (Function.update pcb.fileArray 0
        { pcb.fileArray 0 with optbl := .stdio, inUse := true })
      1 { pcb.fileArray 1 with optbl := .stdio, inUse := true }
    esp := l.temp.esp
    ebp := l.temp.ebp
    args := l.argstr
    vidmapCheck := false
    parentPid := l.parent
    retAddr := l.entryAddr }

/-- The caller's entry: asleep if it is the parent of the new process. -/
def sleepingTask (parent : Option Slot) (t : Task Sp) : Task Sp :=
  if parent = none then t else { t with enabled := false }

@[simp] theorem sleepingTask_pcb (parent : Option Slot) (t : Task Sp) :
    (sleepingTask parent t).pcb = t.pcb := by
  unfold sleepingTask
  split <;> rfl

/-- The entry of the new process. -/
def childTask (l : ExecLocals Sp) (c : Slot) : Task Sp :=
  { esp := l.temp.esp, ebp := l.temp.ebp, state := 1, enabled := true
    pcb := some c }

theorem runExec_executeBody {k : Globals Sp} {c : Slot} (l : ExecLocals Sp)
    (hCur : k.curPcb = some c) (hPid : (k.pcbs c).pid = c) :
    (runExec executeBody (k, l)).1 =
      { k with
        pcbs := Function.update k.pcbs c (filledPcb l (k.pcbs c))
        taskQueue :=
          (if c.val = 0 then k.taskQueue
            else taskPush (sleepingTask l.parent l.tempCur) k.taskQueue).set 0 (childTask l c)
        esp0 := kernelStack (some c) } := by
  by_cases hParent : l.parent = none <;> by_cases hZero : c.val = 0 <;>
    simp [runExec, executeBody, ExecStmt.run, Globals.writeFile,
      Globals.writePcb, hCur, hPid, hParent, hZero, filledPcb, sleepingTask,
      childTask, -Fin.val_eq_zero_iff]

/-- What a successful `execute` changes: `c` is the new process, `front` the
caller's entry. -/
structure Started (k k' : Globals Sp) (c : Slot) (front child : Task Sp) :
    Prop where
  curPcb : k'.curPcb = some c
  userPde : k'.userPde = Function.update k.userPde c (k.userPde c ||| 0x1#32)
  cr3 : k'.cr3 = .process c
  others : ∀ p, p ≠ c → k'.pcbs p = k.pcbs p
  pid : (k'.pcbs c).pid = c
  parentPid : (k'.pcbs c).parentPid = executeParent k
  child_pcb : child.pcb = some c
  child_enabled : child.enabled = true
  taskQueue : k'.taskQueue =
    (if c.val = 0 then k.taskQueue
      else taskPush (sleepingTask (executeParent k) front) k.taskQueue).set 0
        child

theorem SlotTaken.runExec {k k' : Globals Sp} {c : Slot}
    (h : SlotTaken k k' c) (l : ExecLocals Sp)
    (hParent : l.parent = executeParent k) :
    Started k (runExec executeBody (k', l)).1 c l.tempCur (childTask l c) := by
  rw [runExec_executeBody l h.curPcb h.pid]
  exact
    { curPcb := h.curPcb
      userPde := h.userPde
      cr3 := h.cr3
      others := by
        intro p hp
        show Function.update _ c _ p = _
        rw [Function.update_of_ne hp]
        exact h.others p hp
      pid := by
        simp only [Function.update_self]
        exact h.pid
      parentPid := by
        simp only [Function.update_self]
        exact hParent
      child_pcb := rfl
      child_enabled := rfl
      taskQueue := by
        show List.set _ 0 _ = _
        rw [h.taskQueue, hParent] }

/-! ### The ways a call can end -/

/-- A call that takes a slot: the program does not load, or it is started. -/
theorem execute_takesSlot {fs : FileSys} {strname : CString} (temp : Regs Sp)
    {k : Globals Sp} {front : Task Sp} {rest : List (Task Sp)}
    (hQueue : k.taskQueue = front :: rest) (hTakes : TakesSlot fs strname k) :
    (LoadFails fs strname ∧ ∃ c k', freeSlot k = some c ∧ SlotTaken k k' c ∧
      (execute fs strname temp k = (.hung, k) ∨
        execute fs strname temp k = (.failed, k'))) ∨
    (¬ LoadFails fs strname ∧ ∃ c k' child, freeSlot k = some c ∧
      Started k k' c front child ∧
      execute fs strname temp k = (.started, k')) := by
  obtain ⟨⟨inode, tempBuf⟩, hCheck⟩ := Option.isSome_iff_exists.1 hTakes.1
  obtain ⟨c, hFree⟩ := Option.isSome_iff_exists.1 hTakes.2
  have hSlot := slotTaken_spec k c
  obtain ⟨page, hCopy⟩ := copyProgram_eq fs inode hSlot.cr3
  have hPaged := hSlot.setPage
    (Function.update (slotTaken k c).userPage c page)
  generalize hState : { slotTaken k c with
    userPage := Function.update (slotTaken k c).userPage c page } = k'
    at hCopy hPaged
  have hFile : fileToMem fs (parseExec strname).1 k =
      if copiedBytes fs inode > loadRoom then none
      else if copiedBytes fs inode ≠ getInodeLen fs inode then
        some (minusOne, k')
      else some (entryPoint tempBuf, k') := by
    unfold slotTaken at hCopy
    unfold fileToMem newProcessPtable
    simp only [hCheck, hFree, hCopy]
    by_cases h : copiedBytes fs inode > loadRoom
    · simp only [if_pos h]
    · simp only [if_neg h]
  have hLoad : LoadFails fs strname ↔ ¬ Loads fs inode tempBuf := by
    unfold LoadFails
    rw [hCheck]
  by_cases hLong : copiedBytes fs inode > loadRoom
  · rw [if_pos hLong] at hFile
    refine Or.inl ⟨hLoad.2 ?_, c, k', hFree, hPaged, Or.inl ?_⟩
    · intro h
      exact absurd h.2.1 (Nat.not_le_of_lt hLong)
    · unfold execute
      simp only [hQueue, hFile]
  rw [if_neg hLong] at hFile
  by_cases hLoads : Loads fs inode tempBuf
  · rw [if_neg (fun h => h hLoads.1)] at hFile
    right
    refine ⟨fun h => hLoad.1 h hLoads, c, _, _, hFree,
      hPaged.runExec { argstr := (parseExec strname).2, temp := temp
                       parent := executeParent k, tempCur := front
                       entryAddr := entryPoint tempBuf, nextPcb := none }
        rfl, ?_⟩
    unfold execute
    simp only [hQueue, hFile, if_neg hLoads.2.2]
  · left
    refine ⟨hLoad.2 hLoads, c, k', hFree, hPaged, Or.inr ?_⟩
    unfold execute
    by_cases hShort : copiedBytes fs inode = getInodeLen fs inode
    · have hEntry : entryPoint tempBuf = minusOne := by
        cases Nat.decEq (entryPoint tempBuf) minusOne with
        | isTrue h => exact h
        | isFalse h =>
            exact absurd ⟨hShort, Nat.le_of_not_lt hLong, h⟩ hLoads
      rw [if_neg (fun h => h hShort), hEntry] at hFile
      simp only [hQueue, hFile, if_true]
    · rw [if_pos hShort] at hFile
      simp only [hQueue, hFile, if_true]

/-! ## `halt` -/

/-- `k'` differs from `k` in nothing that tells processes apart. -/
structure Quiet (k k' : Globals Sp) : Prop where
  pid : ∀ p, (k'.pcbs p).pid = (k.pcbs p).pid
  parentPid : ∀ p, (k'.pcbs p).parentPid = (k.pcbs p).parentPid
  curPcb : k'.curPcb = k.curPcb
  taskQueue : k'.taskQueue = k.taskQueue
  userPde : k'.userPde = k.userPde
  cr3 : k'.cr3 = k.cr3

theorem Quiet.refl (k : Globals Sp) : Quiet k k where
  pid := fun _ => rfl
  parentPid := fun _ => rfl
  curPcb := rfl
  taskQueue := rfl
  userPde := rfl
  cr3 := rfl

theorem Quiet.trans {k1 k2 k3 : Globals Sp} (h : Quiet k1 k2)
    (h' : Quiet k2 k3) : Quiet k1 k3 where
  pid := fun p => (h'.pid p).trans (h.pid p)
  parentPid := fun p => (h'.parentPid p).trans (h.parentPid p)
  curPcb := h'.curPcb.trans h.curPcb
  taskQueue := h'.taskQueue.trans h.taskQueue
  userPde := h'.userPde.trans h.userPde
  cr3 := h'.cr3.trans h.cr3

/-- A write through `cur_pcb` that leaves the ids alone. -/
theorem Quiet.writePcb (k : Globals Sp) {f : Pcb Sp → Pcb Sp}
    (hPid : ∀ pcb, (f pcb).pid = pcb.pid)
    (hParent : ∀ pcb, (f pcb).parentPid = pcb.parentPid) :
    Quiet k (k.writePcb f) := by
  unfold Globals.writePcb
  cases hCur : k.curPcb with
  | none => exact Quiet.refl k
  | some c =>
      exact
        { pid := by
            intro p
            by_cases hp : p = c
            · subst hp; simp [hPid]
            · simp [hp]
          parentPid := by
            intro p
            by_cases hp : p = c
            · subst hp; simp [hParent]
            · simp [hp]
          curPcb := hCur.symm
          taskQueue := rfl
          userPde := rfl
          cr3 := rfl }

theorem Quiet.nextConsole (k : Globals Sp) : Quiet k (nextConsole k) where
  pid := fun _ => rfl
  parentPid := fun _ => rfl
  curPcb := rfl
  taskQueue := rfl
  userPde := rfl
  cr3 := rfl

/-- Cleaning up is quiet. -/
theorem Quiet.haltFiles (temp : Task Sp) (k : Globals Sp) {stmt : HaltStmt}
    (hStmt : stmt ∈ haltFiles) : Quiet k (stmt.run temp k) := by
  unfold Kernel.haltFiles at hStmt
  rcases List.mem_append.1 hStmt with hClear | hRest
  · obtain ⟨i, _, hi⟩ := List.mem_map.1 hClear
    subst hi
    unfold HaltStmt.run Globals.writeFile
    exact Quiet.writePcb k (fun _ => rfl) (fun _ => rfl)
  · simp only [List.mem_cons, List.not_mem_nil, or_false] at hRest
    rcases hRest with hVmem | hVidmap
    · subst hVmem
      exact
        { pid := fun _ => rfl, parentPid := fun _ => rfl, curPcb := rfl
          taskQueue := rfl, userPde := rfl, cr3 := rfl }
    · subst hVidmap
      unfold HaltStmt.run
      exact Quiet.writePcb k (fun _ => rfl) (fun _ => rfl)

theorem Quiet.runHalt (temp : Task Sp) {body : List HaltStmt}
    (hBody : ∀ stmt ∈ body, stmt ∈ Kernel.haltFiles) (k : Globals Sp) :
    Quiet k (runHalt temp body k) := by
  induction body generalizing k with
  | nil => exact Quiet.refl k
  | cons stmt body ih =>
      have hFirst := Quiet.haltFiles temp k (hBody stmt (List.mem_cons_self ..))
      exact hFirst.trans
        (ih (fun s hs => hBody s (List.mem_cons_of_mem _ hs)) (stmt.run temp k))

theorem runHalt_append (temp : Task Sp) (xs ys : List HaltStmt)
    (k : Globals Sp) :
    runHalt temp (xs ++ ys) k = runHalt temp ys (runHalt temp xs k) :=
  List.foldl_append

/-- The statements that go over to the parent `q` of `p`: the slot is free
again, and the parent runs in front of the queue. -/
theorem runHalt_haltSwitch {k : Globals Sp} {p q : Slot} (temp : Task Sp)
    (hCur : k.curPcb = some p) (hPid : (k.pcbs p).pid = p)
    (hParent : (k.pcbs p).parentPid = some q) :
    runHalt temp haltSwitch k =
      wakeParent temp
        { k with
          userPde := Function.update k.userPde p (k.userPde p - 0x1#32)
          cr3 := .process q
          curPcb := some q
          esp0 := kernelStack (some q) } := by
  simp [runHalt, haltSwitch, HaltStmt.run, hCur, loadParentDir,
    Kernel.releasePage, Kernel.parentPcb, hParent, hPid]

end CompE.Kernel
