import CompE.Library.Machine
import CompE.Kernel.SchedulerInvariant

/-!
# `execute` and `halt` one statement at a time

The timer interrupt can come at every point where the code has interrupts
enabled.  The system call gate is a trap gate, so that is everywhere in
`execute` and `halt` but for three sections: from the `cli` of `execute` to
the `sti` inside `file_to_mem`, and the one at the end of `halt` (each is one
step here), and the page fault handler.

A saved stack pointer leads back to the point where its task was interrupted.
Here it is that point: a `Ctx`, with the locals of the call that was
interrupted.  The interrupt saves the running context in the front entry of
the queue and goes on with the one it finds in the new front entry.
-/

namespace CompE.Kernel

open CompE.Library

/-- A point of a kernel path at which interrupts are enabled, with the locals
that are read behind it. -/
inductive Ctx where
  /-- in the user program -/
  | user
  /-- at the start of `execute` -/
  | execute (strname : CString)
  /-- behind `parse_exec` -/
  | parsed (fname argstr : CString)
  /-- behind the choice of the parent -/
  | parentSet (fname argstr : CString) (parent : Option Slot)
  /-- behind `temp_cur = task_queue[0]` -/
  | curSaved (fname argstr : CString) (parent : Option Slot)
      (tempCur : Task Ctx)
  /-- in the copy of the program, in front of a pass of `read_data` -/
  | copying (child : Slot) (inode : Nat) (pass : ReadState)
      (l : ExecLocals Ctx)
  /-- in `execute`, behind `file_to_mem`, with the statements still to run -/
  | filling (child : Slot) (l : ExecLocals Ctx) (rest : List ExecStmt)
  /-- at the start of `halt` -/
  | halt (temp : Task Ctx)
  /-- in `halt`, with the statements still to run -/
  | halting (ended : Slot) (temp : Task Ctx) (rest : List HaltStmt)
  /-- in the page fault handler -/
  | hung

/-- The user program runs. -/
def Ctx.isUser : Ctx → Bool
  | .user => true
  | _ => false

/-- Interrupts are off for good. -/
def Ctx.isHung : Ctx → Bool
  | .hung => true
  | _ => false

/-- The kernel, the point where it is, and the processes that `execute` has
started and `halt` has not ended. -/
structure Micro where
  kernel : Globals Ctx
  ctx : Ctx
  tree : ProcessTree Slot

/-- A timer interrupt, the next step of the code that runs, or one of the two
system calls. -/
inductive MicroStep where
  | tick
  | go
  | execute (strname : CString)
  | halt (temp : Task Ctx)

/-! ## The steps -/

/-- The point behind the copy of a program. -/
def afterCopy (fs : FileSys) (child : Slot) (inode : Nat) (pass : ReadState)
    (l : ExecLocals Ctx) : Ctx :=
  if pass.bytesRead ≠ getInodeLen fs inode then .user
  else if l.entryAddr = minusOne then .user
  else .filling child l executeBody

/-- A byte of the program, in the page of the directory that is loaded. -/
def storeByte (i : Nat) (byte : Byte) (p : Slot) (k : Globals Ctx) :
    Globals Ctx :=
  { k with
    userPage := Function.update k.userPage p
      (Function.update (k.userPage p) (loadOffset + i) byte) }

/-- A pass of `read_data` in the copy. -/
def Micro.copyStep (fs : FileSys) (m : Micro) (child : Slot) (inode : Nat)
    (pass : ReadState) (l : ExecLocals Ctx) : Micro :=
  if inode > getNumInodes fs ∨ getInodeLen fs inode ≤ pass.i then
    { m with ctx := afterCopy fs child inode pass l }
  else
    match readStep fs (inodePtr fs inode) 0 pass with
    | none => { m with ctx := afterCopy fs child inode pass l }
    | some pass' =>
        match m.kernel.cr3 with
        | .boot => { m with ctx := .hung }
        | .process p =>
            if pass.i ≥ loadRoom then { m with ctx := .hung }
            else
              { m with
                kernel := storeByte pass.i (pass'.buf pass.i) p m.kernel
                ctx := .copying child inode pass' l }

/-- The locals of `execute` at the call of `file_to_mem`.  Its frame leads
back to the user program. -/
def callLocals (argstr : CString) (parent : Option Slot) (tempCur : Task Ctx)
    (tempBuf : Buffer) : ExecLocals Ctx where
  argstr := argstr
  temp := { esp := .user, ebp := .user }
  parent := parent
  tempCur := tempCur
  entryAddr := entryPoint tempBuf
  nextPcb := none

/-- The next step of the code that runs. -/
def Micro.go (fs : FileSys) (m : Micro) : Micro :=
  match m.ctx with
  | .user => m
  | .execute strname =>
      { m with ctx := .parsed (parseExec strname).1 (parseExec strname).2 }
  | .parsed fname argstr =>
      { m with ctx := .parentSet fname argstr (executeParent m.kernel) }
  | .parentSet fname argstr parent =>
      match m.kernel.taskQueue with
      | [] => { m with ctx := .hung }
      | tempCur :: _ => { m with ctx := .curSaved fname argstr parent tempCur }
  | .curSaved fname argstr parent tempCur =>
      match checkExecutable fs fname with
      | none => { m with ctx := .user }
      | some (inode, tempBuf) =>
          match newProcessPtable m.kernel with
          | none => { m with ctx := .user }
          | some (processNum, k) =>
              { m with
                kernel := attachPcb processNum k
                ctx := .copying processNum inode (readStart 0 fun _ => 0#8)
                  (callLocals argstr parent tempCur tempBuf) }
  | .copying child inode pass l => m.copyStep fs child inode pass l
  | .filling _ _ [] => { m with ctx := .user }
  | .filling child l (stmt :: rest) =>
      let s := stmt.run (m.kernel, l)
      { kernel := s.1
        ctx := .filling child s.2 rest
        tree := if rest = [] then m.tree.spawn l.parent child else m.tree }
  | .halt temp =>
      match m.kernel.curPcb with
      | none => { m with ctx := .hung }
      | some p =>
          if haltsRoot m.kernel then { m with ctx := .user }
          else { m with ctx := .halting p temp haltBody }
  | .halting _ _ [] => { m with ctx := .user }
  | .halting ended temp (stmt :: rest) =>
      { kernel := stmt.run temp m.kernel
        ctx := .halting ended temp rest
        tree := if rest = [] then m.tree.exit ended else m.tree }
  | .hung => m

/-- The point that the front entry of the queue leads back to. -/
def resume (k : Globals Ctx) : Ctx :=
  match k.taskQueue with
  | [] => .hung
  | t :: _ => t.esp

/-- A timer interrupt. -/
def Micro.tick (fs : FileSys) (m : Micro) : Micro :=
  match pitInterrupt fs { esp := m.ctx, ebp := m.ctx }
      { esp := .user, ebp := .user } m.kernel with
  | none => { m with ctx := .hung }
  | some k => { m with kernel := k, ctx := resume k }

def Micro.step (fs : FileSys) (m : Micro) : MicroStep → Micro
  | .tick => m.tick fs
  | .go => m.go fs
  | .execute strname => { m with ctx := .execute strname }
  | .halt temp => { m with ctx := .halt temp }

/-- The interleavings: system calls come from the user program, the timer
whenever interrupts are enabled. -/
def interruptMachine (fs : FileSys) : Machine Micro MicroStep Unit where
  step := Micro.step fs
  emit := fun _ _ => []
  legal := fun m i =>
    match i with
    | .tick | .go => m.ctx.isHung = false
    | .execute _ | .halt _ => m.ctx.isUser = true

/-! ## What a step writes -/

/-- Memory that belongs to one process: its PCB, the stack pointer of its
kernel stack in the TSS, its page (with the page-directory entry). -/
inductive Write where
  | pcb (p : Slot)
  | stack (p : Slot)
  | page (p : Slot)
  deriving DecidableEq, Repr

def Write.owner : Write → Slot
  | .pcb p => p
  | .stack p => p
  | .page p => p

/-- What a statement of `execute` writes. -/
def ExecStmt.writes (k : Globals Ctx) : ExecStmt → List Write
  | .sleepParent | .tempNext | .pushCur | .setFront => []
  | .tss => k.curPcb.toList.map .stack
  | _ => k.curPcb.toList.map .pcb

/-- What a statement of `halt` writes. -/
def HaltStmt.writes (k : Globals Ctx) : HaltStmt → List Write
  | .clearVmem | .loadParent | .curPcb | .wakeParent => []
  | .releasePage => k.curPcb.toList.map fun p => .page (k.pcbs p).pid
  | .tss => k.curPcb.toList.map .stack
  | _ => k.curPcb.toList.map .pcb

/-- The slot that the section of `execute` with interrupts disabled takes, if
it comes to take one. -/
def takenSlot (fs : FileSys) (fname : CString) (k : Globals Ctx) :
    Option Slot :=
  if (checkExecutable fs fname).isSome then freeSlot k else none

/-- What the next step of an `execute` or a `halt` writes. -/
def Micro.writes (fs : FileSys) (m : Micro) : List Write :=
  match m.ctx with
  | .curSaved fname _ _ _ =>
      (takenSlot fs fname m.kernel).toList.flatMap fun c => [.page c, .pcb c]
  | .copying _ _ _ _ =>
      match m.kernel.cr3 with
      | .boot => []
      | .process p => [.page p]
  | .filling _ _ (stmt :: _) => stmt.writes m.kernel
  | .halting _ _ (stmt :: _) => stmt.writes m.kernel
  | _ => []

/-- The process that the `execute` or the `halt` that runs is creating or
ending. -/
def Micro.subject (fs : FileSys) (m : Micro) : Option Slot :=
  match m.ctx with
  | .curSaved fname _ _ _ => takenSlot fs fname m.kernel
  | .copying child _ _ _ => some child
  | .filling child _ _ => some child
  | .halting ended _ _ => some ended
  | _ => none

/-! ### Nothing else is written -/

/-- What is not in the list is the same in both states. -/
structure Frame (k k' : Globals Ctx) (ws : List Write) : Prop where
  pcbs : ∀ p, .pcb p ∉ ws → k'.pcbs p = k.pcbs p
  pages : ∀ p, .page p ∉ ws →
    k'.userPage p = k.userPage p ∧ k'.userPde p = k.userPde p
  stack : k.curPcb ≠ none → (∀ p, .stack p ∉ ws) → k'.esp0 = k.esp0

theorem Frame.refl (k : Globals Ctx) (ws : List Write) : Frame k k ws where
  pcbs := fun _ _ => rfl
  pages := fun _ _ => ⟨rfl, rfl⟩
  stack := fun _ _ => rfl

/-- A write through `cur_pcb`. -/
theorem Frame.writePcb (k : Globals Ctx) (f : Pcb Ctx → Pcb Ctx) :
    Frame k (k.writePcb f) (k.curPcb.toList.map .pcb) := by
  unfold Globals.writePcb
  cases hCur : k.curPcb with
  | none => exact Frame.refl k _
  | some q =>
      exact
        { pcbs := by
            intro p hp
            have hne : p ≠ q := fun hpq => hp (by simp [hpq])
            exact Function.update_of_ne hne _ _
          pages := fun _ _ => ⟨rfl, rfl⟩
          stack := fun _ _ => rfl }

/-- The TSS gets the kernel stack of `cur_pcb`. -/
theorem Frame.setStack (k : Globals Ctx) :
    Frame k { k with esp0 := kernelStack k.curPcb }
      (k.curPcb.toList.map .stack) where
  pcbs := fun _ _ => rfl
  pages := fun _ _ => ⟨rfl, rfl⟩
  stack := by
    intro hSome hNone
    obtain ⟨p, hp⟩ := Option.ne_none_iff_exists'.1 hSome
    exact absurd (by simp [hp]) (hNone p)

theorem ExecStmt.frame (stmt : ExecStmt) (k : Globals Ctx)
    (l : ExecLocals Ctx) : Frame k (stmt.run (k, l)).1 (stmt.writes k) := by
  cases stmt with
  | sleepParent =>
      simp only [ExecStmt.run]
      split
      · exact Frame.refl k _
      · split <;> exact Frame.refl k _
  | tempNext => exact Frame.refl k _
  | pushCur =>
      simp only [ExecStmt.run]
      split
      · exact Frame.refl k _
      · split
        · exact
            { pcbs := fun _ _ => rfl
              pages := fun _ _ => ⟨rfl, rfl⟩
              stack := fun _ _ => rfl }
        · exact Frame.refl k _
  | setFront =>
      exact
        { pcbs := fun _ _ => rfl
          pages := fun _ _ => ⟨rfl, rfl⟩
          stack := fun _ _ => rfl }
  | tss => exact Frame.setStack k
  | _ =>
      simp only [ExecStmt.run, ExecStmt.writes, Globals.writeFile]
      exact Frame.writePcb k _

theorem HaltStmt.frame (stmt : HaltStmt) (temp : Task Ctx) (k : Globals Ctx) :
    Frame k (stmt.run temp k) (stmt.writes k) := by
  cases stmt with
  | clearVmem =>
      exact
        { pcbs := fun _ _ => rfl
          pages := fun _ _ => ⟨rfl, rfl⟩
          stack := fun _ _ => rfl }
  | loadParent =>
      simp only [HaltStmt.run, loadParentDir]
      split
      · exact Frame.refl k _
      · split
        · exact Frame.refl k _
        · exact
            { pcbs := fun _ _ => rfl
              pages := fun _ _ => ⟨rfl, rfl⟩
              stack := fun _ _ => rfl }
  | releasePage =>
      simp only [HaltStmt.run, Kernel.releasePage, HaltStmt.writes]
      cases hCur : k.curPcb with
      | none => exact Frame.refl k _
      | some q =>
          exact
            { pcbs := fun _ _ => rfl
              pages := by
                intro p hp
                have hne : p ≠ (k.pcbs q).pid := fun hpq => hp (by simp [hpq])
                exact ⟨rfl, Function.update_of_ne hne _ _⟩
              stack := fun _ _ => rfl }
  | curPcb =>
      exact
        { pcbs := fun _ _ => rfl
          pages := fun _ _ => ⟨rfl, rfl⟩
          stack := fun _ _ => rfl }
  | tss => exact Frame.setStack k
  | wakeParent =>
      exact
        { pcbs := fun _ _ => rfl
          pages := fun _ _ => ⟨rfl, rfl⟩
          stack := fun _ _ => rfl }
  | _ =>
      simp only [HaltStmt.run, HaltStmt.writes, Globals.writeFile]
      exact Frame.writePcb k _

/-- Taking slot `c` writes its PCB and its page-directory entry. -/
theorem Frame.slotTaken (k : Globals Ctx) (c : Slot) :
    Frame k (slotTaken k c) [.page c, .pcb c] where
  pcbs := by
    intro p hp
    have hne : p ≠ c := fun hpc => hp (by simp [hpc])
    exact (slotTaken_spec k c).others p hne
  pages := by
    intro p hp
    have hne : p ≠ c := fun hpc => hp (by simp [hpc])
    refine ⟨rfl, ?_⟩
    rw [(slotTaken_spec k c).userPde]
    exact Function.update_of_ne hne _ _
  stack := fun _ _ => rfl

/-- A step changes only what it is said to write. -/
theorem Micro.go_frame (fs : FileSys) (m : Micro) :
    Frame m.kernel (m.go fs).kernel (m.writes fs) := by
  unfold Micro.go Micro.writes
  cases hCtx : m.ctx with
  | user | execute | parsed | hung => exact Frame.refl _ _
  | parentSet =>
      simp only
      split <;> exact Frame.refl _ _
  | curSaved fname argstr parent tempCur =>
      simp only [takenSlot, newProcessPtable]
      cases hCheck : checkExecutable fs fname with
      | none => exact Frame.refl _ _
      | some header =>
          cases hFree : freeSlot m.kernel with
          | none => exact Frame.refl _ _
          | some c => exact Frame.slotTaken m.kernel c
  | copying child inode pass l =>
      simp only [Micro.copyStep]
      split
      · exact Frame.refl _ _
      · cases readStep fs (inodePtr fs inode) 0 pass with
        | none => exact Frame.refl _ _
        | some pass' =>
            cases m.kernel.cr3 with
            | boot => exact Frame.refl _ _
            | process q =>
                simp only
                split
                · exact Frame.refl _ _
                · exact
                    { pcbs := fun _ _ => rfl
                      pages := by
                        intro p hp
                        have hne : p ≠ q := fun hpq => hp (by simp [hpq])
                        exact ⟨Function.update_of_ne hne _ _, rfl⟩
                      stack := fun _ _ => rfl }
  | filling child l rest =>
      cases rest with
      | nil => exact Frame.refl _ _
      | cons stmt rest => exact ExecStmt.frame stmt m.kernel l
  | halt temp =>
      simp only
      split
      · exact Frame.refl _ _
      · split <;> exact Frame.refl _ _
  | halting ended temp rest =>
      cases rest with
      | nil => exact Frame.refl _ _
      | cons stmt rest => exact HaltStmt.frame stmt temp m.kernel

end CompE.Kernel
