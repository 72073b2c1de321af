import CompE.Kernel.TaskQueue

/-!
# Processes: `execute`, `halt` and the timer interrupt

The variables that these three share are one record, `Globals`: the PCBs, the
task queue, the page directories and `cr3`, the TSS.  A `pcb_t*` is the slot
of the process, `NULL` is `none`, and so is the parent id -1.

`execute` is a locked part (`file_to_mem` up to its `sti`), the copy of the
program, and a list of statements; `halt` is a list of statements.  Here both
run to their end in one go.  What happens when the timer interrupts them
between two statements is the subject of `Kernel.Interrupts`, which runs the
same statements one at a time.

The stack pointers saved in PCBs and in the queue are values of a type that
is left open.
-/

namespace CompE.Kernel

/-! ## The globals -/

/-- `pcb_t`. -/
structure Pcb (Sp : Type) where
  fileArray : FileArray
  parentPid : Option Slot
  pid : Slot
  retAddr : Nat
  esp : Sp
  ebp : Sp
  args : CString
  vidmapCheck : Bool
  con : Nat

/-- What `cr3` points to: the directory of the boot code or one of
`process_pdir_table`. -/
inductive PageDir where
  | boot
  | process (p : Slot)
  deriving DecidableEq, Repr

/-- `vconsole_override_t`. -/
structure ConOvr where
  idx : Nat
  flag : Bool
  deriving DecidableEq, Repr

structure Globals (Sp : Type) where
  pcbs : Slot → Pcb Sp
  curPcb : Option Slot
  taskQueue : List (Task Sp)
  /-- `process_pdir_table[p].pde[USER_IDX]` -/
  userPde : Slot → BitVec 32
  cr3 : PageDir
  /-- `tss.esp0` -/
  esp0 : Nat
  conOvr : ConOvr
  /-- the static `con_idx` of `pit_interrupt` -/
  conIdx : Nat
  /-- `vmem_table2.pte` -/
  vmemTable2 : Nat → BitVec 32
  /-- the 4 MB frame that a process has at 128 MB -/
  userPage : Slot → Buffer

/-- A pair of stack pointers. -/
structure Regs (Sp : Type) where
  esp : Sp
  ebp : Sp

variable {Sp : Type}

/-- The address of a PCB. -/
def pcbAddr : Option Slot → Nat
  | none => 0
  | some p => 0x800000 - 0x2000 - 0x2000 * p.val

/-- `((uint32_t)pcb) + KB_8 - STACK_OFF`. -/
def kernelStack (pcb : Option Slot) : Nat := pcbAddr pcb + 0x2000 - 2

/-- A write through `cur_pcb`. -/
def Globals.writePcb (k : Globals Sp) (f : Pcb Sp → Pcb Sp) : Globals Sp :=
  match k.curPcb with
  | none => k
  | some p => { k with pcbs := Function.update k.pcbs p (f (k.pcbs p)) }

/-! ## Paging -/

/-- The present bit. -/
def present (pde : BitVec 32) : Prop := pde &&& 0x1#32 ≠ 0#32

instance (pde : BitVec 32) : Decidable (present pde) :=
  inferInstanceAs (Decidable (_ ≠ _))

/-- The first slot whose user page is not in use. -/
def freeSlot (k : Globals Sp) : Option Slot :=
  (List.finRange maxProcess).find? fun i => ¬ present (k.userPde i)

/-- `new_process_ptable`. -/
def newProcessPtable (k : Globals Sp) : Option (Slot × Globals Sp) :=
  match freeSlot k with
  | none => none
  | some i =>
      some (i, { k with
        userPde := Function.update k.userPde i (k.userPde i ||| 0x1#32)
        cr3 := .process i })

/-- The first half of `return_parent_paging`: the directory of the parent.
(`halt` does not come here with a parent id of -1.) -/
def loadParentDir (k : Globals Sp) : Globals Sp :=
  match k.curPcb with
  | none => k
  | some p =>
      match (k.pcbs p).parentPid with
      | none => k
      | some q => { k with cr3 := .process q }

/-- The second half: the present bit of the child. -/
def releasePage (k : Globals Sp) : Globals Sp :=
  match k.curPcb with
  | none => k
  | some p =>
      let pid := (k.pcbs p).pid
      { k with userPde := Function.update k.userPde pid (k.userPde pid - 0x1#32) }

/-- `swap_task_paging`; `none` for the return value -1. -/
def swapTaskPaging (targetPid : Slot) (k : Globals Sp) : Option (Globals Sp) :=
  if targetPid.val > maxProcess then none
  else some { k with cr3 := .process targetPid }

/-! ## `parse_exec` -/

/-- The second loop of `parse_exec`, with `n` characters of room: a space in
front of the terminator is not kept. -/
def copyArgs : Nat → CString → CString
  | 0, _ => []
  | _ + 1, [] => []
  | n + 1, c :: s =>
      if c = 0x20#8 ∧ s = [] then []
      else c :: copyArgs n s

/-- `parse_exec`: the file name and the arguments. -/
def parseExec (string : CString) : CString × CString :=
  let filename := (string.takeWhile (· ≠ 0x20#8)).take maxFnameSize
  let rest := (string.drop filename.length).dropWhile (· = 0x20#8)
  (filename, copyArgs 128 rest)

/-! ## `file_to_mem` -/

def maxTempBuf : Nat := 40

/-- `-1` in a `uint32_t`. -/
def minusOne : Nat := 2 ^ 32 - 1

/-- The ELF magic. -/
def isExecutable (tempBuf : Buffer) : Bool :=
  tempBuf 0 == 0x7f#8 && tempBuf 1 == 0x45#8 && tempBuf 2 == 0x4C#8 &&
    tempBuf 3 == 0x46#8

/-- The entry point, from bytes 24 to 27. -/
def entryPoint (tempBuf : Buffer) : Nat :=
  u32 ((tempBuf 27).toNat * 2 ^ 24 + (tempBuf 26).toNat * 2 ^ 16 +
    (tempBuf 25).toNat * 2 ^ 8 + (tempBuf 24).toNat)

/-- The checks of `file_to_mem` before it changes anything: the inode and the
header of an executable file. -/
def checkExecutable (fs : FileSys) (fname : CString) : Option (Nat × Buffer) :=
  match readDentryByName fs fname with
  | none => none
  | some tempDentry =>
      let r := readData fs tempDentry.inodeNum 0 (fun _ => 0#8) maxTempBuf
      if r.1 ≠ maxTempBuf then none
      else if !isExecutable r.2 then none
      else some (tempDentry.inodeNum, r.2)

/-- The console of a new process, and the override after it was obeyed. -/
def chooseCon (k : Globals Sp) (processNum : Slot) (parentPcb : Option Slot) :
    Nat × ConOvr :=
  if processNum.val = 0 then (0, k.conOvr)
  else if k.conOvr.flag then (k.conOvr.idx, { k.conOvr with flag := false })
  else
    match parentPcb with
    | some p => ((k.pcbs p).con, k.conOvr)
    | none => (0, k.conOvr)

/-- `process_num - 1`. -/
def predecessor (processNum : Slot) : Option Slot :=
  if processNum.val = 0 then none
  else some ⟨processNum.val - 1, by omega⟩

/-- The PCB of a new process: `cur_pcb`, the ids, the console. -/
def attachPcb (processNum : Slot) (k : Globals Sp) : Globals Sp :=
  let parentPcb := k.curPcb
  let k1 : Globals Sp := { k with curPcb := some processNum }
  let k2 := k1.writePcb fun pcb =>
    { pcb with parentPid := predecessor processNum, pid := processNum }
  let c := chooseCon k2 processNum parentPcb
  let k3 := k2.writePcb fun pcb => { pcb with con := c.1 }
  { k3 with conOvr := c.2 }

/-- Where a program is loaded in its 4 MB page: `LOAD_LOC` - 128 MB. -/
def loadOffset : Nat := 0x48000

/-- The bytes from there to the end of the page.  The pages behind it are not
present: a longer copy ends in the page fault handler, which does not
return. -/
def loadRoom : Nat := 0x400000 - 0x48000

/-- The program text in a page. -/
def loadBuffer (page : Buffer) : Buffer := fun i => page (loadOffset + i)

/-- The page with a new program text. -/
def storeProgram (page buf : Buffer) : Buffer := fun a =>
  if loadOffset ≤ a ∧ a < loadOffset + loadRoom then buf (a - loadOffset)
  else page a

/-- The copy of a whole file to `LOAD_LOC`, into the page of the loaded
directory: the number of bytes read; `none` for the page fault. -/
def copyProgram (fs : FileSys) (inode : Nat) (k : Globals Sp) :
    Option (Nat × Globals Sp) :=
  match k.cr3 with
  | .boot => none
  | .process p =>
      let r := readData fs inode 0 (loadBuffer (k.userPage p))
        (getInodeLen fs inode)
      let page := storeProgram (k.userPage p) r.2
      if r.1 > loadRoom then none
      else some (r.1, { k with userPage := Function.update k.userPage p page })

/-- `file_to_mem`: its return value, which is `minusOne` for failure; `none`
when it does not return. -/
def fileToMem (fs : FileSys) (fname : CString) (k : Globals Sp) :
    Option (Nat × Globals Sp) :=
  match checkExecutable fs fname with
  | none => some (minusOne, k)
  | some (inode, tempBuf) =>
      match newProcessPtable k with
      | none => some (minusOne, k)
      | some (processNum, k) =>
          match copyProgram fs inode (attachPcb processNum k) with
          | none => none
          | some (n, k) =>
              if n ≠ getInodeLen fs inode then some (minusOne, k)
              else some (entryPoint tempBuf, k)

/-! ## `execute` -/

/-- The locals of `execute` behind the call of `file_to_mem`. -/
structure ExecLocals (Sp : Type) where
  argstr : CString
  temp : Regs Sp
  parent : Option Slot
  tempCur : Task Sp
  entryAddr : Nat
  /-- `temp_next.pcb` -/
  nextPcb : Option Slot

/-- The statements of `execute` behind the call of `file_to_mem`. -/
inductive ExecStmt where
  | stdinOps
  | stdinUse
  | stdoutOps
  | stdoutUse
  | esp
  | ebp
  | args
  | vidmap
  | parent
  | retAddr
  | sleepParent
  | tempNext
  | pushCur
  | setFront
  | tss
  deriving DecidableEq, Repr

/-- In the order of the source. -/
def executeBody : List ExecStmt :=
  [.stdinOps, .stdinUse, .stdoutOps, .stdoutUse, .esp, .ebp, .args, .vidmap,
   .parent, .retAddr, .sleepParent, .tempNext, .pushCur, .setFront, .tss]

/-- A write to `cur_pcb->file_array[fd]`. -/
def Globals.writeFile (k : Globals Sp) (fd : Nat) (f : FileDesc → FileDesc) :
    Globals Sp :=
  k.writePcb fun pcb =>
    { pcb with fileArray := Function.update pcb.fileArray fd (f (pcb.fileArray fd)) }

/-- One statement of `execute`.  `temp_next.esp` and `temp_next.ebp` are never
set; here they are those of the call, until a timer interrupt overwrites them. -/
def ExecStmt.run : ExecStmt → Globals Sp × ExecLocals Sp →
    Globals Sp × ExecLocals Sp
  | .stdinOps, (k, l) => (k.writeFile 0 ({ · with optbl := .stdio }), l)
  | .stdinUse, (k, l) => (k.writeFile 0 ({ · with inUse := true }), l)
  | .stdoutOps, (k, l) => (k.writeFile 1 ({ · with optbl := .stdio }), l)
  | .stdoutUse, (k, l) => (k.writeFile 1 ({ · with inUse := true }), l)
  | .esp, (k, l) => (k.writePcb ({ · with esp := l.temp.esp }), l)
  | .ebp, (k, l) => (k.writePcb ({ · with ebp := l.temp.ebp }), l)
  | .args, (k, l) => (k.writePcb ({ · with args := l.argstr }), l)
  | .vidmap, (k, l) => (k.writePcb ({ · with vidmapCheck := false }), l)
  | .parent, (k, l) => (k.writePcb ({ · with parentPid := l.parent }), l)
  | .retAddr, (k, l) => (k.writePcb ({ · with retAddr := l.entryAddr }), l)
  | .sleepParent, (k, l) =>
      match k.curPcb with
      | none => (k, { l with tempCur := { l.tempCur with enabled := false } })
      | some p =>
          if (k.pcbs p).parentPid ≠ none then
            (k, { l with tempCur := { l.tempCur with enabled := false } })
          else (k, l)
  | .tempNext, (k, l) => (k, { l with nextPcb := k.curPcb })
  | .pushCur, (k, l) =>
      match k.curPcb with
      | none => (k, l)
      | some p =>
          if (k.pcbs p).pid.val ≠ 0 then
            ({ k with taskQueue := taskPush l.tempCur k.taskQueue }, l)
          else (k, l)
  | .setFront, (k, l) =>
      let tempNext : Task Sp :=
        { esp := l.temp.esp, ebp := l.temp.ebp, state := 1, enabled := true
          pcb := l.nextPcb }
      ({ k with taskQueue := k.taskQueue.set 0 tempNext }, l)
  | .tss, (k, l) => ({ k with esp0 := kernelStack k.curPcb }, l)

/-- A list of statements. -/
def runExec (body : List ExecStmt) (s : Globals Sp × ExecLocals Sp) :
    Globals Sp × ExecLocals Sp :=
  body.foldl (fun s stmt => stmt.run s) s

/-- The parent of the process to start; the first three shells have none. -/
def executeParent (k : Globals Sp) : Option Slot :=
  match k.curPcb with
  | none => none
  | some p => if pcbAt k.taskQueue 2 = none then none else some (k.pcbs p).pid

/-- How a call of `execute` ends: with the return value -1, in the new
program, or not at all. -/
inductive Outcome where
  | failed
  | started
  | hung
  deriving DecidableEq, Repr

/-- `execute`. -/
def execute (fs : FileSys) (strname : CString) (temp : Regs Sp)
    (k : Globals Sp) : Outcome × Globals Sp :=
  let parsed := parseExec strname
  let parent := executeParent k
  match k.taskQueue with
  | [] => (.hung, k)
  | tempCur :: _ =>
      match fileToMem fs parsed.1 k with
      | none => (.hung, k)
      | some (entryAddr, k) =>
          if entryAddr = minusOne then (.failed, k)
          else
            let l : ExecLocals Sp :=
              { argstr := parsed.2, temp := temp, parent := parent
                tempCur := tempCur, entryAddr := entryAddr, nextPcb := none }
            (.started, (runExec executeBody (k, l)).1)

/-! ## `halt` -/

/-- Whether `halt` restarts the shell instead. -/
def haltsRoot (k : Globals Sp) : Prop :=
  match k.curPcb with
  | none => False
  | some p => (k.pcbs p).parentPid = none ∨ (k.pcbs p).pid.val = 0

instance (k : Globals Sp) : Decidable (haltsRoot k) := by
  unfold haltsRoot
  exact match k.curPcb with
  | none => inferInstanceAs (Decidable False)
  | some p => inferInstanceAs (Decidable (_ ∨ _))

/-- The statements of `halt` for a process with a parent.  The last one is
the section between its `cli` and its `sti`. -/
inductive HaltStmt where
  | clearFile (i : Fin 8)
  | clearVmem
  | clearVidmap
  | loadParent
  | releasePage
  | curPcb
  | tss
  | wakeParent
  deriving DecidableEq, Repr

/-- The statements that clean up the process that ends. -/
def haltFiles : List HaltStmt :=
  (List.finRange 8).map .clearFile ++ [.clearVmem, .clearVidmap]

/-- The statements that go over to the parent. -/
def haltSwitch : List HaltStmt :=
  [.loadParent, .releasePage, .curPcb, .tss, .wakeParent]

/-- In the order of the source. -/
def haltBody : List HaltStmt := haltFiles ++ haltSwitch

/-- `cur_pcb` of the parent. -/
def parentPcb (k : Globals Sp) : Option Slot :=
  k.curPcb.bind fun p => (k.pcbs p).parentPid

/-- The parent's entry leaves the queue and comes back in front. -/
def wakeParent (temp : Task Sp) (k : Globals Sp) : Globals Sp :=
  let temp := taskGrab { temp with pcb := k.curPcb } k.taskQueue
  let queue := taskPop temp.pcb k.taskQueue
  { k with taskQueue := queue.set 0 { temp with enabled := true } }

/-- One statement of `halt`; `temp` is its uninitialised local. -/
def HaltStmt.run (temp : Task Sp) : HaltStmt → Globals Sp → Globals Sp
  | .clearFile i, k =>
      k.writeFile i.val fun _ =>
        { optbl := .null, inode := 0, pos := 0, inUse := false }
  | .clearVmem, k => { k with vmemTable2 := Function.update k.vmemTable2 0 0#32 }
  | .clearVidmap, k => k.writePcb ({ · with vidmapCheck := false })
  | .loadParent, k => loadParentDir k
  | .releasePage, k => Kernel.releasePage k
  | .curPcb, k => { k with curPcb := parentPcb k }
  | .tss, k => { k with esp0 := kernelStack k.curPcb }
  | .wakeParent, k => Kernel.wakeParent temp k

/-- A list of statements. -/
def runHalt (temp : Task Sp) (body : List HaltStmt) (k : Globals Sp) :
    Globals Sp :=
  body.foldl (fun k stmt => stmt.run temp k) k

/-- `halt`.  A root shell starts again from its entry point. -/
def halt (temp : Task Sp) (k : Globals Sp) : Globals Sp :=
  if haltsRoot k then k else runHalt temp haltBody k

/-! ## The timer interrupt -/

/-- `"shell"`. -/
def shell : CString := [0x73#8, 0x68#8, 0x65#8, 0x6c#8, 0x6c#8]

/-- The end of `pit_interrupt`: the front task of the queue runs. -/
def switchTask (queue : List (Task Sp)) (k : Globals Sp) : Globals Sp :=
  match queue with
  | [] => k
  | next :: rest =>
      let k1 : Globals Sp :=
        { k with taskQueue := { next with state := 1 } :: rest
                 esp0 := kernelStack next.pcb }
      match next.pcb with
      | none => k1
      | some p =>
          match swapTaskPaging (k1.pcbs p).pid k1 with
          | none => k1
          | some k2 => { k2 with curPcb := some p }

/-- The start of `pit_interrupt`: the interrupted task's stack pointers. -/
def saveTask (isr : Regs Sp) (k : Globals Sp) : Globals Sp :=
  { k with taskQueue := k.taskQueue.modifyHead fun t =>
      { t with esp := isr.esp, ebp := isr.ebp, state := 0 } }

/-- The three shells are not all up yet. -/
def booting (k : Globals Sp) : Prop :=
  k.curPcb = none ∨ pcbAt k.taskQueue 2 = none

instance (k : Globals Sp) : Decidable (booting k) :=
  inferInstanceAs (Decidable (_ ∨ _))

/-- The next shell goes on console `con_idx`. -/
def nextConsole (k : Globals Sp) : Globals Sp :=
  { k with conOvr := { idx := k.conIdx, flag := true }, conIdx := k.conIdx + 1 }

/-- `pit_interrupt`, with the stack pointers it saves and those that `execute`
finds during boot; `none` when it does not return. -/
def pitInterrupt (fs : FileSys) (isr exec : Regs Sp) (k : Globals Sp) :
    Option (Globals Sp) :=
  let k := saveTask isr k
  if booting k then
    match execute fs shell exec (nextConsole k) with
    | (.hung, _) => none
    | (_, k) => some k
  else
    match k.taskQueue with
    | [] => none
    | temp :: _ =>
        match rotate maxProcess temp k.taskQueue with
        | none => none
        | some queue => some (switchTask queue k)

end CompE.Kernel
