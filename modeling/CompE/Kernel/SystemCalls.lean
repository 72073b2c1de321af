import CompE.Kernel.Descriptors
import CompE.Kernel.SchedulerInvariant

/-!
# The kernel from its first timer interrupt on

The system calls on files and `vidmap` act on the PCB that `cur_pcb` points
to.  With them, `execute`, `halt` and the timer interrupt, a run of the kernel
is one from the empty queue: a timer interrupt starts a shell as long as fewer
than three tasks are queued, and the processes that are there already may make
any calls in between.

The kernel does not record who called `execute`; the run does, in a
`ProcessTree`, with the number of timer interrupts that found the kernel
booting, and the console where each process belongs.

`Born` and `Ended` add to the lemmas of `Kernel.Transitions` what `execute`
and `halt` do to the tables, consoles and video mappings.
-/

namespace CompE.Kernel

open CompE.Library

variable {Sp : Type}

/-! ## Calls of the running process -/

/-- A call on files, on the table of the running process. -/
def fileCall (fs : FileSys) (c : FileCall) (k : Globals Sp) :
    Option (CallResult × Globals Sp) :=
  match k.curPcb with
  | none => none
  | some p =>
      match c.run fs (k.pcbs p).fileArray with
      | none => none
      | some (r, files) => some (r, k.writePcb ({ · with fileArray := files }))

def videoLoc : Nat := 0xB8000
def vmemptBits : Nat := 0x0107
def kernelLoc : Nat := 0x00400000

/-- The page-table entry that `vidmap` writes. -/
def userVideoPte : BitVec 32 := BitVec.ofNat 32 (videoLoc + vmemptBits) ||| 0x4#32

/-- `vidmap`: the return value.  The entry is written before the check that
the process has no mapping yet.  (The address that goes to `*screen_start` is
left out.) -/
def vidmap (screenStart : Nat) (k : Globals Sp) : Int × Globals Sp :=
  if screenStart = 0 ∨ screenStart = videoLoc ∨ screenStart = kernelLoc then
    (-1, k)
  else
    match k.curPcb with
    | none => (-1, k)
    | some p =>
        let k1 : Globals Sp :=
          { k with
            vmemTable2 :=
              Function.update k.vmemTable2 (k.pcbs p).pid.val userVideoPte }
        if (k1.pcbs p).vidmapCheck then (-1, k1)
        else (0, k1.writePcb ({ · with vidmapCheck := true }))

/-! ## Runs -/

/-- The kernel, who called `execute` for whom, whether the kernel still
returns, the timer interrupts so far that found it booting, and the console
where each process belongs. -/
structure Life (Sp : Type) where
  kernel : Globals Sp
  callers : ProcessTree Slot
  hung : Bool
  ticks : Nat
  seat : Slot → Nat

/-- What can happen next. -/
inductive SystemStep (Sp : Type) where
  | tick (isr exec : Regs Sp)
  | execute (strname : CString) (temp : Regs Sp)
  | halt (temp : Task Sp)
  | file (c : FileCall)
  | vidmap (screenStart : Nat)

/-- The shell that a timer interrupt starts. -/
def bootShell (fs : FileSys) (isr exec : Regs Sp) (k : Globals Sp) :
    Option Slot :=
  if booting (saveTask isr k) then
    match execute fs shell exec (nextConsole (saveTask isr k)) with
    | (.started, k') => k'.curPcb
    | _ => none
  else none

/-- The process that a call of `execute` starts. -/
def startedBy (fs : FileSys) (strname : CString) (temp : Regs Sp)
    (k : Globals Sp) : Option Slot :=
  match execute fs strname temp k with
  | (.started, k') => k'.curPcb
  | _ => none

/-- A new process: who called `execute` for it, and where it belongs. -/
def Life.spawn (s : Life Sp) (caller : Option Slot) (seat : Nat) :
    Option Slot → Life Sp
  | none => s
  | some c =>
      { s with
        callers := s.callers.spawn caller c
        seat := Function.update s.seat c seat }

/-- The console of the caller. -/
def callerSeat (s : Life Sp) : Nat :=
  match s.kernel.curPcb with
  | none => 0
  | some p => s.seat p

/-- One step. -/
def Life.step (fs : FileSys) (s : Life Sp) : SystemStep Sp → Life Sp
  | .tick isr exec =>
      let s' := s.spawn none s.ticks (bootShell fs isr exec s.kernel)
      let ticks :=
        if booting (saveTask isr s.kernel) then s.ticks + 1 else s.ticks
      match pitInterrupt fs isr exec s.kernel with
      | none => { s' with ticks := ticks, hung := true }
      | some k => { s' with ticks := ticks, kernel := k }
  | .execute strname temp =>
      let r := execute fs strname temp s.kernel
      let s' := s.spawn s.kernel.curPcb (callerSeat s)
        (startedBy fs strname temp s.kernel)
      { s' with kernel := r.2, hung := s.hung || r.1 = .hung }
  | .halt temp =>
      { s with
        kernel := halt temp s.kernel
        callers :=
          if haltsRoot s.kernel then s.callers
          else
            match s.kernel.curPcb with
            | none => s.callers
            | some p => s.callers.exit p }
  | .file c =>
      match fileCall fs c s.kernel with
      | none => s
      | some (_, k) => { s with kernel := k }
  | .vidmap screenStart => { s with kernel := (vidmap screenStart s.kernel).2 }

/-- The results of the calls on files. -/
def Life.emit (fs : FileSys) (s : Life Sp) : SystemStep Sp → List CallResult
  | .file c => ((fileCall fs c s.kernel).map Prod.fst).toList
  | _ => []

/-- A run of the kernel.  Calls are made by processes.  No program is run that
passes the checks and does not load. -/
def lifeMachine (fs : FileSys) :
    Machine (Life Sp) (SystemStep Sp) CallResult where
  step := Life.step fs
  emit := Life.emit fs
  legal := fun s i =>
    match i with
    | .tick isr _ =>
        ¬ (booting (saveTask isr s.kernel) ∧
          TakesSlot fs shell (nextConsole (saveTask isr s.kernel)) ∧
          LoadFails fs shell)
    | .execute strname _ => s.kernel.curPcb ≠ none ∧
        ¬ (TakesSlot fs strname s.kernel ∧ LoadFails fs strname)
    | _ => s.kernel.curPcb ≠ none

instance decidableLifeLegal (fs : FileSys) (s : Life Sp) :
    ∀ i, Decidable ((lifeMachine fs).legal s i)
  | .tick isr _ => inferInstanceAs (Decidable
      (¬ (booting (saveTask isr s.kernel) ∧
        TakesSlot fs shell (nextConsole (saveTask isr s.kernel)) ∧
        LoadFails fs shell)))
  | .execute strname _ => inferInstanceAs (Decidable
      (s.kernel.curPcb ≠ none ∧
        ¬ (TakesSlot fs strname s.kernel ∧ LoadFails fs strname)))
  | .halt _ | .file _ | .vidmap _ =>
      inferInstanceAs (Decidable (s.kernel.curPcb ≠ none))

/-- The state before the first timer interrupt. -/
def lifeStart (k : Globals Sp) : Life Sp where
  kernel := k
  callers := emptyTree
  hung := false
  ticks := 0
  seat := fun _ => 0

/-! ## What a new process finds -/

/-- The descriptors of a new process: the terminal's two are opened, the
others are left as they are. -/
def startFiles (files : FileArray) : FileArray :=
  Function.update
    (Function.update files 0 { files 0 with optbl := .stdio, inUse := true })
    1 { files 1 with optbl := .stdio, inUse := true }

/-- What a successful `execute` changes besides what `Started` says: `c` is
the new process. -/
structure Born (k k' : Globals Sp) (c : Slot) : Prop where
  fileArray : (k'.pcbs c).fileArray = startFiles (k.pcbs c).fileArray
  vidmapCheck : (k'.pcbs c).vidmapCheck = false
  con : (k'.pcbs c).con = (chooseCon k c k.curPcb).1
  conOvr : k'.conOvr = (chooseCon k c k.curPcb).2
  conIdx : k'.conIdx = k.conIdx
  vmemTable2 : k'.vmemTable2 = k.vmemTable2

/-- Where `file_to_mem` comes from when it does not fail. -/
theorem fileToMem_inv {fs : FileSys} {fname : CString} {k k' : Globals Sp}
    {entry : Nat} (h : fileToMem fs fname k = some (entry, k'))
    (hEntry : entry ≠ minusOne) :
    ∃ (c : Slot) (pages : Slot → Buffer), freeSlot k = some c ∧
      k' = { slotTaken k c with userPage := pages } := by
  unfold fileToMem newProcessPtable at h
  cases hCheck : checkExecutable fs fname with
  | none =>
      simp only [hCheck] at h
      exact absurd (congrArg Prod.fst (Option.some.inj h)).symm hEntry
  | some header =>
      obtain ⟨inode, tempBuf⟩ := header
      cases hFree : freeSlot k with
      | none =>
          simp only [hCheck, hFree] at h
          exact absurd (congrArg Prod.fst (Option.some.inj h)).symm hEntry
      | some c =>
          obtain ⟨page, hCopy⟩ :=
            copyProgram_eq fs inode (slotTaken_spec k c).cr3
          refine ⟨c, Function.update (slotTaken k c).userPage c page, rfl, ?_⟩
          unfold slotTaken at hCopy ⊢
          simp only [hCheck, hFree, hCopy] at h
          by_cases hLong : copiedBytes fs inode > loadRoom
          · simp [if_pos hLong] at h
          · simp only [if_neg hLong] at h
            split at h
            · exact absurd (congrArg Prod.fst (Option.some.inj h)).symm hEntry
            · exact (congrArg Prod.snd (Option.some.inj h)).symm

/-- Where `execute` comes from when it starts a program. -/
theorem execute_started_inv {fs : FileSys} {strname : CString}
    {temp : Regs Sp} {k k' : Globals Sp}
    (h : execute fs strname temp k = (.started, k')) :
    ∃ (c : Slot) (pages : Slot → Buffer) (k1 : Globals Sp)
      (l : ExecLocals Sp), freeSlot k = some c ∧
      k1 = { slotTaken k c with userPage := pages } ∧
      k' = (runExec executeBody (k1, l)).1 := by
  unfold execute at h
  cases hQueue : k.taskQueue with
  | nil => simp [hQueue] at h
  | cons tempCur rest =>
      cases hFile : fileToMem fs (parseExec strname).1 k with
      | none => simp [hQueue, hFile] at h
      | some r =>
          obtain ⟨entry, k1⟩ := r
          simp only [hQueue, hFile] at h
          by_cases hEntry : entry = minusOne
          · simp [if_pos hEntry] at h
          · simp only [if_neg hEntry] at h
            injection h with _ hEnd
            obtain ⟨c, pages, hFree, hState⟩ := fileToMem_inv hFile hEntry
            exact ⟨c, pages, k1, _, hFree, hState, hEnd.symm⟩

/-- The console is chosen before anything it depends on changes. -/
theorem slotTaken_con (k : Globals Sp) (c : Slot) :
    ((slotTaken k c).pcbs c).con = (chooseCon k c k.curPcb).1 ∧
      (slotTaken k c).conOvr = (chooseCon k c k.curPcb).2 := by
  have hChoose : ∀ k' : Globals Sp, k'.conOvr = k.conOvr →
      (∀ p, (k'.pcbs p).con = (k.pcbs p).con) →
      chooseCon k' c k.curPcb = chooseCon k c k.curPcb := by
    intro k' hOvr hCon
    unfold chooseCon
    rw [hOvr]
    cases k.curPcb with
    | none => rfl
    | some p => simp only [hCon]
  have hIds : ∀ p, (Function.update k.pcbs c { k.pcbs c with
      parentPid := predecessor c, pid := c } p).con = (k.pcbs p).con := by
    intro p
    by_cases hp : p = c
    · subst hp
      simp
    · rw [Function.update_of_ne hp]
  unfold slotTaken attachPcb
  simp only [Globals.writePcb, Function.update_self]
  exact ⟨congrArg Prod.fst (hChoose _ rfl hIds),
    congrArg Prod.snd (hChoose _ rfl hIds)⟩

theorem born_of_started {fs : FileSys} {strname : CString}
    {temp : Regs Sp} {k k' : Globals Sp} {c : Slot}
    (hFree : freeSlot k = some c)
    (h : execute fs strname temp k = (.started, k')) : Born k k' c := by
  obtain ⟨c', pages, k1, l, hFree', hState, hEnd⟩ := execute_started_inv h
  have hc : c' = c := Option.some.inj (hFree'.symm.trans hFree)
  subst hc
  have hSlot := slotTaken_spec k c'
  have hCon := slotTaken_con k c'
  have hFiles : ((slotTaken k c').pcbs c').fileArray =
      (k.pcbs c').fileArray := by
    simp [slotTaken, attachPcb, Globals.writePcb]
  have hPcb : k1.pcbs = (slotTaken k c').pcbs := by rw [hState]
  have hCur : k1.curPcb = some c' := by rw [hState]; exact hSlot.curPcb
  have hPid : (k1.pcbs c').pid = c' := by rw [hPcb]; exact hSlot.pid
  rw [runExec_executeBody l hCur hPid] at hEnd
  subst hEnd
  exact
    { fileArray := by
        simp only [Function.update_self, filledPcb, hPcb, hFiles]
        rfl
      vidmapCheck := by simp only [Function.update_self, filledPcb]
      con := by
        simp only [Function.update_self, filledPcb, hPcb]
        exact hCon.1
      conOvr := by
        show k1.conOvr = _
        rw [hState]
        exact hCon.2
      conIdx := by
        show k1.conIdx = _
        rw [hState]
        rfl
      vmemTable2 := by
        show k1.vmemTable2 = _
        rw [hState]
        rfl }

/-! ## What a process that ends leaves -/

/-- A descriptor that `halt` has cleared. -/
def clearedDesc : FileDesc := { optbl := .null, inode := 0, pos := 0, inUse := false }

/-- The table of a process after `halt`. -/
def clearedFiles (files : FileArray) : FileArray := fun fd =>
  if fd < numFds then clearedDesc else files fd

theorem Globals.writePcb_some {k : Globals Sp} {p : Slot}
    (hCur : k.curPcb = some p) (f : Pcb Sp → Pcb Sp) :
    k.writePcb f = { k with pcbs := Function.update k.pcbs p (f (k.pcbs p)) } := by
  unfold Globals.writePcb
  rw [hCur]

theorem Globals.writePcb_writePcb (k : Globals Sp) (f g : Pcb Sp → Pcb Sp) :
    (k.writePcb f).writePcb g = k.writePcb fun pcb => g (f pcb) := by
  unfold Globals.writePcb
  cases hCur : k.curPcb with
  | none => simp only [hCur]
  | some p => simp

/-- Some descriptors cleared. -/
def clearAll (fds : List (Fin 8)) (files : FileArray) : FileArray :=
  fds.foldl (fun files i => Function.update files i.val clearedDesc) files

private theorem clearAll_apply (fds : List (Fin 8)) (files : FileArray) (fd : Nat) :
    ((∃ i ∈ fds, i.val = fd) → clearAll fds files fd = clearedDesc) ∧
      ((¬ ∃ i ∈ fds, i.val = fd) → clearAll fds files fd = files fd) := by
  unfold clearAll
  induction fds generalizing files with
  | nil => simp
  | cons i fds ih =>
      obtain ⟨hIn, hOut⟩ := ih (Function.update files i.val clearedDesc)
      rw [List.foldl_cons]
      constructor
      · rintro ⟨j, hj, hEq⟩
        by_cases hLater : ∃ i ∈ fds, i.val = fd
        · exact hIn hLater
        · rw [hOut hLater]
          rcases List.mem_cons.1 hj with rfl | hj
          · rw [← hEq, Function.update_self]
          · exact absurd ⟨j, hj, hEq⟩ hLater
      · intro hNone
        have hLater : ¬ ∃ j ∈ fds, j.val = fd := by
          rintro ⟨j, hj, hEq⟩
          exact hNone ⟨j, List.mem_cons_of_mem _ hj, hEq⟩
        rw [hOut hLater, Function.update_of_ne]
        intro hHere
        exact hNone ⟨i, List.mem_cons_self .., hHere.symm⟩

private theorem clearAll_finRange (files : FileArray) :
    clearAll (List.finRange 8) files = clearedFiles files := by
  funext fd
  obtain ⟨hIn, hOut⟩ := clearAll_apply (List.finRange 8) files fd
  unfold clearedFiles
  by_cases hfd : fd < numFds
  · rw [if_pos hfd, hIn ⟨⟨fd, hfd⟩, List.mem_finRange _, rfl⟩]
  · rw [if_neg hfd, hOut]
    rintro ⟨i, _, hEq⟩
    exact hfd (hEq ▸ i.isLt)

/-- The loop over the descriptors. -/
theorem runHalt_clearFile (temp : Task Sp) (fds : List (Fin 8))
    (k : Globals Sp) :
    runHalt temp (fds.map .clearFile) k =
      k.writePcb fun pcb =>
        { pcb with fileArray := clearAll fds pcb.fileArray } := by
  induction fds generalizing k with
  | nil =>
      unfold Globals.writePcb
      cases hCur : k.curPcb with
      | none => rfl
      | some p =>
          simp only [clearAll, List.foldl_nil, List.map_nil]
          rw [Function.update_eq_self, ← hCur]
          rfl
  | cons i fds ih =>
      show runHalt temp (fds.map .clearFile)
        (k.writeFile i.val fun _ => clearedDesc) = _
      rw [ih, Globals.writeFile, Globals.writePcb_writePcb]
      rfl

/-- The PCB of a process after `halt`. -/
def endedPcb (pcb : Pcb Sp) : Pcb Sp :=
  { pcb with fileArray := clearedFiles pcb.fileArray, vidmapCheck := false }

private theorem runHalt_haltFiles (temp : Task Sp) {k : Globals Sp} {p : Slot}
    (hCur : k.curPcb = some p) :
    runHalt temp haltFiles k =
      { k with
        pcbs := Function.update k.pcbs p (endedPcb (k.pcbs p))
        vmemTable2 := Function.update k.vmemTable2 0 0#32 } := by
  have hFiles := runHalt_clearFile temp (List.finRange 8) k
  rw [Globals.writePcb_some hCur, clearAll_finRange] at hFiles
  rw [haltFiles, runHalt_append, hFiles]
  simp [runHalt, HaltStmt.run, Globals.writePcb, hCur, endedPcb]

/-- What `halt` changes in the PCBs and the video page table; `p` ends. -/
structure Ended (k k' : Globals Sp) (p : Slot) : Prop where
  pcbs : k'.pcbs = Function.update k.pcbs p (endedPcb (k.pcbs p))
  vmemTable2 : k'.vmemTable2 = Function.update k.vmemTable2 0 0#32
  conOvr : k'.conOvr = k.conOvr
  conIdx : k'.conIdx = k.conIdx

theorem ended_of_halt (temp : Task Sp) {k : Globals Sp} {p q : Slot}
    (hCur : k.curPcb = some p) (hPid : (k.pcbs p).pid = p)
    (hParent : (k.pcbs p).parentPid = some q) (hRoot : ¬ haltsRoot k) :
    Ended k (halt temp k) p := by
  have hClean := runHalt_haltFiles temp hCur
  have hSwitch := runHalt_haltSwitch temp (k := runHalt temp haltFiles k)
    (p := p) (q := q) (by rw [hClean]; exact hCur)
    (by rw [hClean]; simpa [endedPcb] using hPid)
    (by rw [hClean]; simpa [endedPcb] using hParent)
  unfold halt
  rw [if_neg hRoot, haltBody, runHalt_append, hSwitch, hClean]
  exact { pcbs := rfl, vmemTable2 := rfl, conOvr := rfl, conIdx := rfl }

/-! ## What `vidmap` leaves -/

/-- The state after a `vidmap` of process `p`, successful or not. -/
def mapVideo (k : Globals Sp) (p : Slot) : Globals Sp :=
  { k with
    vmemTable2 := Function.update k.vmemTable2 p.val userVideoPte
    pcbs := Function.update k.pcbs p { k.pcbs p with vidmapCheck := true } }

theorem vidmap_mapped {k : Globals Sp} {p : Slot} {screenStart : Nat}
    (hCheck : ¬ (screenStart = 0 ∨ screenStart = videoLoc ∨
      screenStart = kernelLoc))
    (hCur : k.curPcb = some p) (hPid : (k.pcbs p).pid = p) :
    (vidmap screenStart k).2 = mapVideo k p := by
  unfold vidmap mapVideo
  rw [if_neg hCheck, hCur]
  simp only [hPid]
  cases hFlag : (k.pcbs p).vidmapCheck with
  | true =>
      have hSame : Function.update k.pcbs p
          { k.pcbs p with vidmapCheck := true } = k.pcbs := by
        rw [← hFlag]
        exact Function.update_eq_self p k.pcbs
      simp only [hPid] at hSame
      simp only [if_true, hSame, ← hCur]
  | false =>
      simp only [Bool.false_eq_true, if_false, Globals.writePcb]
      rw [hPid]

end CompE.Kernel
