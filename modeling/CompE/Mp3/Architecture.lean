import CompE.Mp3.Instructions
import CompE.Mp3.Forwarding
import CompE.Mp3.Squash

/-!
# The pipeline executes its program

The pipeline in front of its memory against the hart of the instruction set:
whatever the caches' stalls, the instructions that complete in `MEM` are those
that the hart executes, in its order, and between two completions the register
file (with `WB`'s write) and the data memory are the hart's.  A waiting store
may have been acknowledged already.

The relation `Commits` joins the three hazards: the operands are the hart's
registers (`Tracks`), the fetched addresses follow the hart's PC (`Aligned`),
and what `EX` computed from them is what the hart does next (`effect_iff`).
It is about the programs whose instructions the stages get right, that do not
change their own instructions, and runs whose load-use stalls lose no operand.
-/

namespace CompE.Mp3

open CompE.Library
open CompE.Library.Rv32i (Instr Memory wordAt portBytes storeBytes)

/-! ## What is supported -/

instance decidableInstrAligned (i : Instr) (regs : RegFile) :
    Decidable (i.Aligned regs) :=
  match i with
  | .load _ _ _ _ | .store _ _ _ _ => inferInstanceAs (Decidable (_ = _))
  | .lui _ _ | .auipc _ _ | .jal _ _ | .jalr _ _ _ | .branch _ _ _ _
  | .opImm _ _ _ _ | .opReg _ _ _ _ => .isTrue trivial

instance decidableFaithful (i : Instr) (regs : RegFile) :
    Decidable (Faithful i regs) :=
  match i with
  | .opReg .sub _ _ _ => inferInstanceAs (Decidable (_ ∨ _ ∨ _))
  | .lui _ _ => inferInstanceAs (Decidable (_ ∨ ¬ (_ ∧ _)))
  | .load .lhu _ _ _ => inferInstanceAs (Decidable (_ ∨ _))
  | .jalr _ _ _ => inferInstanceAs (Decidable (_ = _))
  | .opReg .add _ _ _ | .opReg .sll _ _ _ | .opReg .slt _ _ _
  | .opReg .sltu _ _ _ | .opReg .xor _ _ _ | .opReg .srl _ _ _
  | .opReg .sra _ _ _ | .opReg .or _ _ _ | .opReg .and _ _ _
  | .load .lb _ _ _ | .load .lh _ _ _ | .load .lw _ _ _ | .load .lbu _ _ _
  | .auipc _ _ | .jal _ _ | .branch _ _ _ _ | .store _ _ _ _
  | .opImm _ _ _ _ => .isTrue trivial

/-- The hart is about to execute an instruction of the program, which the
stages get right. -/
def Supported (imem : Word → Word) (s : Rv32i.State) : Prop :=
  wordAt s.mem s.pc = imem s.pc ∧
    ∃ i ∈ Rv32i.decode (imem s.pc), i.Aligned s.regs ∧ Faithful i s.regs

instance decidableSupported (imem : Word → Word) (s : Rv32i.State) :
    Decidable (Supported imem s) :=
  inferInstanceAs (Decidable (_ ∧ ∃ i ∈ _, _))

/-- What the stages do with the instruction at the hart's PC. -/
def stagesEffect (x : Floating) (held : Word) (imem : Word → Word)
    (s : Rv32i.State) : Rv32i.Effect :=
  effect x held (imem s.pc) s.regs s.pc s.mem

private theorem step_of_supported {imem : Word → Word} {s : Rv32i.State}
    (h : Supported imem s) (x : Floating) (held : Word) :
    s.step = some (s.apply (stagesEffect x held imem s)) := by
  obtain ⟨hCode, i, hDecode, hAligned, hFaithful⟩ := h
  have hEffect := (effect_iff x held (imem s.pc) s.regs s.pc s.mem hDecode
    hAligned).2 hFaithful
  rw [Rv32i.State.step, hCode, hDecode, stagesEffect, hEffect]
  rfl

/-! ## The register behind `EX` -/

/-- Two registers behind `EX` that do the same. -/
structure Agrees (m m' : StageReg) : Prop where
  pcReg : m.pcReg = m'.pcReg
  instruction : m.instruction = m'.instruction
  controlWord : m.controlWord = m'.controlWord
  nextPc : ∀ p, nextPc p m = nextPc p m'
  access : portAccess (dataRequest m) = portAccess (dataRequest m')
  result : m.controlWord.regfileLoad = true → ∀ d held,
    regfileData { m with memRdata := d } held =
      regfileData { m' with memRdata := d } held

/-- The word at the data port is looked at for loads only. -/
theorem regfileData_set {m : StageReg}
    (h : m.controlWord.wbmuxSel ≠ .memRdata) (d d' held : Word) :
    regfileData { m with memRdata := d } held =
      regfileData { m with memRdata := d' } held := by
  simp only [regfileData]
  split <;> simp_all

/-- The word that is written back is the same. -/
theorem Agrees.accessed {m m' : StageReg} (h : Agrees m m')
    (hRead : m.controlWord.wbmuxSel = .memRdata →
      (dataRequest m).memRead = true) (mem : Memory) (held : Word) :
    regfileData
        { m' with memRdata := wordAt mem (dataRequest m).memAddr } held =
      regfileData
        { m' with memRdata := wordAt mem (dataRequest m').memAddr } held := by
  by_cases hSel : m.controlWord.wbmuxSel = .memRdata
  · have hRead' : (dataRequest m').memRead = true := by
      show m'.controlWord.memRead = true
      rw [← h.controlWord]
      exact hRead hSel
    have hAccess := h.access
    rw [portAccess, portAccess, hRead hSel, hRead', if_pos rfl, if_pos rfl]
      at hAccess
    rw [Rv32i.Access.load.inj hAccess]
  · rw [h.controlWord] at hSel
    exact regfileData_set hSel _ _ _

/-- The fields that `ID` leaves open make no difference. -/
theorem exStage_idStage {s : StageReg}
    (hControl : s.controlWord = control s.instruction) (x : Floating)
    (a b a' b' d : Word) :
    { exStage s a b with memRdata := d } =
      { exStage (idStage x s.pcReg s.instruction a' b') a b with
        memRdata := d } := by
  obtain ⟨word, pcReg, aluOut, rs1Out, rs2Out, inst, pcPlusReg, brEn, data⟩ := s
  obtain rfl : word = control inst := hControl
  rfl

private theorem regfileLoad_of_exStage {s : StageReg} {a b : Word}
    (h : (exStage s a b).controlWord.regfileLoad = true) :
    s.controlWord.regfileLoad = true := by
  simp only [exStage] at h
  split at h <;> exact h

section Operands

variable {s : StageReg} (hControl : s.controlWord = control s.instruction)

include hControl

/-- The instructions that use no operand. -/
theorem exStage_agrees_none
    (hOp : opcode s.instruction = .opAuipc ∨ opcode s.instruction = .opJal ∨
      opcode s.instruction = .opCsr ∨ opcode s.instruction = .other)
    (a b a' b' : Word) : Agrees (exStage s a b) (exStage s a' b') where
  pcReg := rfl
  instruction := rfl
  controlWord := by
    rcases hOp with hOp | hOp | hOp | hOp <;> simp [exStage, hOp]
  nextPc p := by
    rcases hOp with hOp | hOp | hOp | hOp <;>
      simp [nextPc, exStage, hOp, hControl, control, controlROM,
        ControlWord.default]
  access := by
    rcases hOp with hOp | hOp | hOp | hOp <;>
      simp [portAccess, dataRequest, exStage, hOp, hControl, control,
        controlROM, ControlWord.default]
  result := by
    intro hLoad d held
    refine regfileData_exStage_congr hControl (regfileLoad_of_exStage hLoad)
      ?_ ?_ d held
    · intro hUse
      rcases hOp with hOp | hOp | hOp | hOp <;> rw [hOp] at hUse <;> cases hUse
    · intro hUse
      rcases hOp with hOp | hOp | hOp | hOp <;> rw [hOp] at hUse <;> cases hUse

/-- The instructions that use their first operand only. -/
theorem exStage_agrees_rs1
    (hOp : opcode s.instruction = .opImm ∨ opcode s.instruction = .opLui ∨
      opcode s.instruction = .opJalr ∨ opcode s.instruction = .opLoad)
    (a b b' : Word) : Agrees (exStage s a b) (exStage s a b') where
  pcReg := rfl
  instruction := rfl
  controlWord := by
    rcases hOp with hOp | hOp | hOp | hOp <;> simp [exStage, hOp]
  nextPc p := by
    rcases hOp with hOp | hOp | hOp | hOp <;>
      simp [nextPc, exStage, hOp, hControl, control, controlROM,
        ControlWord.default, exAluOut, aluMuxOut]
  access := by
    rcases hOp with hOp | hOp | hOp | hOp <;>
      simp [portAccess, dataRequest, exStage, hOp, hControl, control,
        controlROM, ControlWord.default, exAluOut, aluMuxOut]
  result := by
    intro hLoad d held
    refine regfileData_exStage_congr hControl (regfileLoad_of_exStage hLoad)
      (fun _ => rfl) ?_ d held
    intro hUse
    rcases hOp with hOp | hOp | hOp | hOp <;> rw [hOp] at hUse <;> cases hUse

end Operands

theorem Agrees.of_set {m m' : StageReg}
    (h : ∀ d, { m with memRdata := d } = { m' with memRdata := d }) :
    Agrees m m' := by
  obtain ⟨word, pcReg, aluOut, rs1Out, rs2Out, inst, pcPlusReg, brEn, data⟩ := m
  obtain ⟨word', pcReg', aluOut', rs1Out', rs2Out', inst', pcPlusReg', brEn',
    data'⟩ := m'
  have hFields := h 0#32
  simp only [StageReg.mk.injEq] at hFields
  obtain ⟨rfl, rfl, rfl, rfl, rfl, rfl, rfl, rfl, -⟩ := hFields
  exact ⟨rfl, rfl, rfl, fun _ => rfl, rfl, fun _ _ _ => rfl⟩

theorem Agrees.trans {m m' m'' : StageReg} (h : Agrees m m')
    (h' : Agrees m' m'') : Agrees m m'' where
  pcReg := h.pcReg.trans h'.pcReg
  instruction := h.instruction.trans h'.instruction
  controlWord := h.controlWord.trans h'.controlWord
  nextPc p := (h.nextPc p).trans (h'.nextPc p)
  access := h.access.trans h'.access
  result hLoad d held := by
    rw [h.result hLoad]
    rw [h.controlWord] at hLoad
    exact h'.result hLoad d held

/-- `EX` with operands that are right where they are used. -/
theorem exStage_agrees {s : StageReg} {regs : RegFile} {a b : Word}
    (hControl : s.controlWord = control s.instruction) (x : Floating)
    (hA : usesRs1 (opcode s.instruction) = true →
      a = regs.read (rs1 s.instruction))
    (hB : usesRs2 (opcode s.instruction) = true →
      b = regs.read (rs2 s.instruction)) :
    Agrees (exStage s a b) (executed x s.instruction regs s.pcReg) := by
  have hSame (a b : Word) : Agrees (exStage s a b)
      (exStage (idStage x s.pcReg s.instruction (regs.read (rs1 s.instruction))
        (regs.read (rs2 s.instruction))) a b) :=
    Agrees.of_set (exStage_idStage hControl x a b _ _)
  refine Agrees.trans ?_ (hSame _ _)
  cases hOp : opcode s.instruction with
  | opReg | opBr | opStore =>
      rw [hOp] at hA hB
      rw [hA rfl, hB rfl]
      exact Agrees.of_set fun _ => rfl
  | opImm | opLui | opJalr | opLoad =>
      rw [hOp] at hA
      rw [hA rfl]
      exact exStage_agrees_rs1 hControl (by simp [hOp]) _ _ _
  | opAuipc | opJal | opCsr | other =>
      exact exStage_agrees_none hControl (by simp [hOp]) _ _ _ _

/-- The next PC is the flush counter's business: the target of a redirect, or
the address behind. -/
theorem nextPc_exIn {c : Cpu}
    (h : c.stageID.controlWord = control c.stageID.instruction) (p : Word) :
    nextPc p c.exIn = if c.redirect then c.exIn.target else p := by
  have hRedirect := Tracked.redirect_iff h
  by_cases hSel : c.exIn.controlWord.pcmuxSel = .pcPlus4
  · rw [Tracked.nextPc_of_straight hSel, if_neg fun hTaken =>
      hRedirect.1 hTaken hSel]
  · rw [Tracked.nextPc_of_redirect hSel, if_pos (hRedirect.2 hSel)]

/-! ## The machine -/

/-- The pipeline and its data memory. -/
structure WithMemory where
  pipe : Tracked
  mem : Memory

/-- The memory after a request. -/
def DataRequest.perform (r : DataRequest) (mem : Memory) : Memory :=
  if r.memWrite then
    storeBytes mem (portBytes r.memAddr r.memByteEnable r.memWdata)
  else mem

@[simp] theorem DataRequest.perform_perform (r : DataRequest) (mem : Memory) :
    r.perform (r.perform mem) = r.perform mem := by
  cases hWrite : r.memWrite <;> simp [perform, hWrite]

theorem DataRequest.perform_of_not_write {r : DataRequest}
    (h : r.memWrite = false) (mem : Memory) : r.perform mem = mem := by
  simp [perform, h]

/-- No instruction both loads and stores. -/
theorem control_exclusive (w : Word) (h : (control w).memRead = true) :
    (control w).memWrite = false := by
  rw [control] at h ⊢
  cases hOp : opcode w <;>
    simp_all [controlROM, ControlWord.default]

namespace WithMemory

open Tracked (Tracks Aligned Shape operandsKept running)

/-- A request takes place in every cycle that acknowledges it. -/
def step (x : Floating) (y : WithMemory) (i : Ports) : WithMemory where
  pipe := y.pipe.step x i
  mem := if i.dataResp then y.pipe.cpu.request.perform y.mem else y.mem

/-- The instruction that completes in `MEM`. -/
def completing (y : WithMemory) (i : Ports) : List Word :=
  if y.pipe.cpu.stageRegLoad i && y.pipe.exLive then
    [y.pipe.cpu.stageEX.pcReg]
  else []

/-- The pipeline in front of a memory, running the program `imem`.  Both
responses come at any time. -/
def executing (x : Floating) (imem : Word → Word) :
    Machine WithMemory Ports Word where
  step := step x
  emit := completing
  legal y i := (i.instResp = true → i.instRdata = imem y.pipe.cpu.pc) ∧
    (i.dataResp = true → y.pipe.cpu.request.memRead = true →
      i.dataRdata = wordAt y.mem y.pipe.cpu.request.memAddr)

instance decidableExecutingLegal (x : Floating) (imem : Word → Word)
    (y : WithMemory) (i : Ports) :
    Decidable ((executing x imem).legal y i) :=
  inferInstanceAs (Decidable ((_ → _ = _) ∧ (_ → _ → _ = _)))

/-! ## The relation -/

/-- The next address of the program: the hart's PC, or behind it when its
instruction is in `MEM`. -/
def nextFetch (x : Floating) (imem : Word → Word) (y : WithMemory)
    (s : Rv32i.State) : Word :=
  if y.pipe.exLive then
    nextPc (s.pc + 4#32) (executed x (imem s.pc) s.regs s.pc)
  else s.pc

/-- The pipeline between two completions, and the hart between two steps. -/
structure Commits (x : Floating) (imem : Word → Word) (y : WithMemory)
    (s : Rv32i.State) : Prop where
  tracks : ∃ q, Tracks y.pipe q ∧ q.regs = s.regs
  flow : ∃ wrong, Aligned imem y.pipe ⟨nextFetch x imem y s, wrong⟩
  idle : y.pipe.exLive = false → y.mem = s.mem
  /-- `MEM` holds the hart's instruction, executed. -/
  inFlight : y.pipe.exLive = true → Agrees y.pipe.cpu.stageEX
    (executed x (imem s.pc) s.regs s.pc)
  /-- A store may be done already. -/
  memory : y.mem = s.mem ∨ y.mem = y.pipe.cpu.request.perform s.mem

theorem Commits.boot {c : Cpu} (h : c.IsReset) (x : Floating)
    (imem : Word → Word) (mem : Memory) :
    Commits x imem ⟨Tracked.boot c, mem⟩ ⟨c.regfile, 0x60#32, mem⟩ where
  tracks := ⟨_, Tracks.boot h, rfl⟩
  flow := ⟨[], Aligned.boot h imem⟩
  idle := fun _ => rfl
  inFlight := by simp [Tracked.boot]
  memory := Or.inl rfl

section Step

variable {x : Floating} {imem : Word → Word} {y : WithMemory}
  {s : Rv32i.State} {i : Ports}

theorem Commits.shape (h : Commits x imem y s) : Shape y.pipe := by
  obtain ⟨q, hTracks, -⟩ := h.tracks
  exact hTracks.shape

/-- An empty `MEM` stores nothing. -/
theorem Commits.perform_idle (h : Commits x imem y s)
    (hLive : y.pipe.exLive = false) (mem : Memory) :
    y.pipe.cpu.request.perform mem = mem :=
  DataRequest.perform_of_not_write (h.shape.exEmpty hLive).memWrite mem

/-- The memory has the store of `MEM`, or will have it. -/
theorem Commits.perform_mem (h : Commits x imem y s) :
    y.pipe.cpu.request.perform y.mem = y.pipe.cpu.request.perform s.mem := by
  rcases h.memory with hMem | hMem
  · rw [hMem]
  · rw [hMem, DataRequest.perform_perform]

/-- A cache stall keeps the hart where it is. -/
theorem Commits.hold (h : Commits x imem y s)
    (hLoad : y.pipe.cpu.stageRegLoad i = false) :
    Commits x imem (y.step x i) s := by
  obtain ⟨q, hTracks, hRegs⟩ := h.tracks
  obtain ⟨wrong, hFlow⟩ := h.flow
  have hLive : (y.step x i).pipe.exLive = y.pipe.exLive := by
    simp [step, Tracked.step, hLoad]
  have hEX : (y.step x i).pipe.cpu.stageEX = y.pipe.cpu.stageEX := by
    simp [step, Tracked.step, Cpu.clock_hold hLoad]
  have hRequest : (y.step x i).pipe.cpu.request = y.pipe.cpu.request := by
    rw [Cpu.request, Cpu.request, hEX]
  constructor
  · exact ⟨q, hTracks.hold hLoad, hRegs⟩
  · refine ⟨wrong, ?_⟩
    rw [nextFetch, hLive]
    exact (hFlow.hold hLoad).2
  · intro hIdle
    rw [hLive] at hIdle
    show (if i.dataResp then _ else _) = s.mem
    rw [h.perform_idle hIdle, ite_self]
    exact h.idle hIdle
  · intro hBusy
    rw [hLive] at hBusy
    rw [hEX]
    exact h.inFlight hBusy
  · rw [hRequest]
    show (if i.dataResp then _ else _) = s.mem ∨ (if i.dataResp then _ else _) = _
    cases i.dataResp with
    | true => exact Or.inr h.perform_mem
    | false => exact h.memory

/-- The hart behind the instruction in `MEM`. -/
def retired (x : Floating) (imem : Word → Word) (y : WithMemory)
    (s : Rv32i.State) : Rv32i.State :=
  if y.pipe.exLive then
    s.apply (stagesEffect x y.pipe.cpu.wbData imem s)
  else s

private theorem retired_pc (y : WithMemory) (s : Rv32i.State) :
    (retired x imem y s).pc = nextFetch x imem y s := by
  rw [retired, nextFetch]
  split <;> rfl

/-- On an advance the store of `MEM` is done. -/
theorem step_mem (hLoad : y.pipe.cpu.stageRegLoad i = true) :
    (y.step x i).mem = y.pipe.cpu.request.perform y.mem := by
  show (if i.dataResp then _ else _) = _
  rw [Cpu.stageRegLoad] at hLoad
  cases hResp : i.dataResp with
  | true => rfl
  | false =>
      have hNo : y.pipe.cpu.request.memWrite = false := by
        simp [hResp] at hLoad
        exact hLoad.1.2
      rw [DataRequest.perform_of_not_write hNo]
      rfl

private theorem apply_mem {e : Rv32i.Effect} {r : DataRequest}
    (hAccess : e.access = portAccess r)
    (hExclusive : r.memRead = true → r.memWrite = false) :
    (s.apply e).mem = r.perform s.mem := by
  rw [Rv32i.State.apply, hAccess, portAccess, DataRequest.perform]
  cases hRead : r.memRead with
  | true => simp [hExclusive hRead]
  | false => cases r.memWrite <;> rfl

theorem Commits.exclusive (h : Commits x imem y s)
    (hLive : y.pipe.exLive = true)
    (hRead : y.pipe.cpu.request.memRead = true) :
    y.pipe.cpu.request.memWrite = false := by
  have hDec := h.shape.ex hLive
  rw [Decoded] at hDec
  have hReadWord : y.pipe.cpu.stageEX.controlWord.memRead = true := hRead
  show y.pipe.cpu.stageEX.controlWord.memWrite = false
  rw [hDec] at hReadWord ⊢
  exact control_exclusive _ hReadWord

theorem Commits.retired_mem (h : Commits x imem y s)
    (hLoad : y.pipe.cpu.stageRegLoad i = true) :
    (retired x imem y s).mem = (y.step x i).mem := by
  rw [step_mem hLoad, h.perform_mem, retired]
  cases hLive : y.pipe.exLive with
  | false =>
      rw [h.perform_idle hLive]
      rfl
  | true => exact apply_mem (h.inFlight hLive).access.symm (h.exclusive hLive)

private theorem apply_regs {e : Rv32i.Effect} {load : Bool} {r : RegNo} {v : Word}
    (hWrite : e.write = if load then Rv32i.result r v else none) :
    (s.apply e).regs = RegFile.write s.regs load r v := by
  rw [Rv32i.State.apply, hWrite]
  funext k
  cases load with
  | false => rfl
  | true =>
      by_cases hZero : r = 0#5
      · simp [Rv32i.result, RegFile.write, hZero]
      · by_cases hHere : k = r
        · simp [Rv32i.result, Rv32i.Regs.write, RegFile.write, hZero, hHere]
        · simp [Rv32i.result, Rv32i.Regs.write, RegFile.write, hZero, hHere]

/-- What is written back from memory has been read. -/
theorem Commits.reads (h : Commits x imem y s) (hLive : y.pipe.exLive = true)
    (hSel : y.pipe.cpu.stageEX.controlWord.wbmuxSel = .memRdata) :
    y.pipe.cpu.request.memRead = true := by
  have hDec := h.shape.ex hLive
  rw [Decoded] at hDec
  show y.pipe.cpu.stageEX.controlWord.memRead = true
  rw [hDec] at hSel ⊢
  simpa [control_memRead] using hSel

/-- On an advance a load has its word. -/
theorem Commits.loaded (h : Commits x imem y s)
    (hLegal : (executing x imem).legal y i)
    (hLoad : y.pipe.cpu.stageRegLoad i = true)
    (hLive : y.pipe.exLive = true) (held : Word) :
    regfileData { y.pipe.cpu.stageEX with memRdata := i.dataRdata } held =
      regfileData { y.pipe.cpu.stageEX with
        memRdata := wordAt s.mem y.pipe.cpu.request.memAddr } held := by
  by_cases hSel : y.pipe.cpu.stageEX.controlWord.wbmuxSel = .memRdata
  · have hRead := h.reads hLive hSel
    have hMem : y.mem = s.mem := by
      rcases h.memory with hMem | hMem
      · exact hMem
      · rw [hMem]
        exact DataRequest.perform_of_not_write (h.exclusive hLive hRead) _
    have hResp : i.dataResp = true := by
      rw [Cpu.stageRegLoad, hRead] at hLoad
      simpa using (Bool.and_eq_true _ _ ▸ hLoad).1
    rw [hLegal.2 hResp hRead, hMem]
  · exact regfileData_set hSel _ _ _

/-- The registers behind the instruction in `MEM`. -/
theorem Commits.retired_regs (h : Commits x imem y s)
    (hLegal : (executing x imem).legal y i)
    (hLoad : y.pipe.cpu.stageRegLoad i = true) :
    (retired x imem y s).regs = (y.step x i).pipe.cpu.regfileNext := by
  obtain ⟨q, hTracks, hRegs⟩ := h.tracks
  show _ = (y.pipe.step x i).cpu.regfileNext
  rw [hTracks.regfileNext_step hLoad, Tracked.regsAfter, retired, hRegs]
  cases hLive : y.pipe.exLive with
  | false =>
      have hNo := (h.shape.exEmpty hLive).regfileLoad
      funext k
      simp [hNo, RegFile.write]
  | true =>
      have hAgrees := h.inFlight hLive
      have hInst : y.pipe.cpu.stageEX.instruction = imem s.pc :=
        hAgrees.instruction
      refine (apply_regs rfl).trans ?_
      show RegFile.write s.regs
        (executed x (imem s.pc) s.regs s.pc).controlWord.regfileLoad
        (rd (imem s.pc)) _ = _
      rw [hInst, ← hAgrees.controlWord]
      cases hWrite : y.pipe.cpu.stageEX.controlWord.regfileLoad with
      | false => rfl
      | true =>
          rw [h.loaded hLegal hLoad hLive, hAgrees.result hWrite]
          exact congrArg _ (hAgrees.accessed (h.reads hLive) s.mem _).symm

/-- The flow of the program behind a cycle. -/
theorem after_leaving_next (hShape : Shape y.pipe) (f : Flow) :
    ((controlFlow imem).after f (y.pipe.leaving i)).next =
      if y.pipe.cpu.stageRegLoad i && y.pipe.leaves then
        nextPc (y.pipe.cpu.stageID.pcReg + 4#32) y.pipe.cpu.exIn
      else f.next := by
  rw [Tracked.leaving]
  cases hLoad : y.pipe.cpu.stageRegLoad i with
  | false => rfl
  | true =>
      cases hLeaves : y.pipe.leaves with
      | false =>
          cases y.pipe.cpu.stall with
          | true => rfl
          | false => cases y.pipe.idLive <;> rfl
      | true =>
          have hParts := hLeaves
          rw [Tracked.leaves, Bool.and_eq_true, Bool.and_eq_true,
            Bool.not_eq_true'] at hParts
          rw [hParts.2]
          show (if y.pipe.cpu.redirect then _ else _ : Flow).next = _
          rw [apply_ite Flow.next]
          exact (nextPc_exIn (hShape.id hParts.1.1) _).symm

/-- What leaves `EX` is the instruction at the next address. -/
theorem issued_good {f : Flow}
    (hAccepts : (controlFlow imem).Accepts f (y.pipe.leaving i))
    (hLoad : y.pipe.cpu.stageRegLoad i = true)
    (hLeaves : y.pipe.leaves = true) :
    y.pipe.cpu.stageID.pcReg = f.next ∧
      y.pipe.cpu.stageID.instruction = imem f.next := by
  have hStall : y.pipe.cpu.stall = false := by
    rw [Tracked.leaves, Bool.and_eq_true, Bool.not_eq_true'] at hLeaves
    exact hLeaves.2
  rw [Tracked.leaving, hLoad, hStall, hLeaves] at hAccepts
  obtain ⟨⟨-, hPc, hInst⟩, -⟩ := hAccepts
  exact ⟨hPc, hInst.trans (congrArg imem hPc)⟩

/-- What leaves `EX` is the hart's next instruction, executed. -/
theorem Commits.issued (h : Commits x imem y s)
    (hLegal : (executing x imem).legal y i)
    (hLoad : y.pipe.cpu.stageRegLoad i = true)
    (hLeaves : y.pipe.leaves = true) :
    Agrees y.pipe.cpu.exIn (executed x (imem (retired x imem y s).pc)
      (retired x imem y s).regs (retired x imem y s).pc) := by
  obtain ⟨q, hTracks, hRegs⟩ := h.tracks
  obtain ⟨wrong, hFlow⟩ := h.flow
  have hAccepts := (hFlow.step (x := x) hLegal.1).1
  have hPc : _ = nextFetch x imem y s := (issued_good hAccepts hLoad hLeaves).1
  have hInst : _ = imem (nextFetch x imem y s) :=
    (issued_good hAccepts hLoad hLeaves).2
  have hParts := hLeaves
  rw [Tracked.leaves, Bool.and_eq_true, Bool.and_eq_true] at hParts
  have hAfter : (retired x imem y s).regs = y.pipe.regsAfter q i :=
    (h.retired_regs hLegal hLoad).trans (hTracks.regfileNext_step hLoad)
  obtain ⟨-, hRs1, hRs2, -, -⟩ := hTracks.leaves_good hLeaves i
  rw [retired_pc, hAfter, ← hInst, ← hPc]
  exact exStage_agrees (h.shape.id hParts.1.1) x hRs1 hRs2

/-- An advance takes the hart past the instruction in `MEM`. -/
theorem Commits.advance (h : Commits x imem y s)
    (hLegal : (executing x imem).legal y i) (hKept : operandsKept y.pipe i)
    (hLoad : y.pipe.cpu.stageRegLoad i = true) :
    Commits x imem (y.step x i) (retired x imem y s) := by
  obtain ⟨q, hTracks, hRegs⟩ := h.tracks
  obtain ⟨wrong, hFlow⟩ := h.flow
  have hMem := h.retired_mem hLoad
  have hLive' : (y.step x i).pipe.exLive = y.pipe.leaves := by
    simp [step, Tracked.step, hLoad]
  have hInFlight : y.pipe.leaves = true → Agrees (y.step x i).pipe.cpu.stageEX
      (executed x (imem (retired x imem y s).pc) (retired x imem y s).regs
        (retired x imem y s).pc) := by
    intro hLeaves
    have hEX : (y.step x i).pipe.cpu.stageEX = y.pipe.cpu.exIn := by
      rw [Tracked.leaves, Bool.and_eq_true, Bool.and_eq_true, beq_iff_eq,
        Bool.not_eq_true'] at hLeaves
      simp [step, Tracked.step, Cpu.clock, hLoad, Cpu.stageRegNext, hLeaves]
    rw [hEX]
    exact h.issued hLegal hLoad hLeaves
  constructor
  · obtain ⟨-, hNext⟩ := hTracks.step (x := x) hKept
    exact ⟨_, hNext, hNext.regs.trans (h.retired_regs hLegal hLoad).symm⟩
  · obtain ⟨hAccepts, hNext⟩ := hFlow.step (x := x) hLegal.1
    have hTo : ((controlFlow imem).after ⟨nextFetch x imem y s, wrong⟩
        (y.pipe.leaving i)).next =
          nextFetch x imem (y.step x i) (retired x imem y s) := by
      rw [after_leaving_next h.shape, hLoad, nextFetch.eq_def x imem (y.step x i),
        hLive', Bool.true_and]
      cases hLeaves : y.pipe.leaves with
      | false => exact (retired_pc y s).symm
      | true =>
          have hPc : _ = nextFetch x imem y s :=
            (issued_good hAccepts hLoad hLeaves).1
          rw [← (h.issued hLegal hLoad hLeaves).nextPc, retired_pc, hPc]
    refine ⟨((controlFlow imem).after ⟨nextFetch x imem y s, wrong⟩
      (y.pipe.leaving i)).wrong, ?_⟩
    rw [← hTo]
    exact hNext
  · exact fun _ => hMem.symm
  · rw [hLive']
    exact hInFlight
  · exact Or.inl hMem.symm

/-- One cycle: the hart stays, or steps where an instruction completes. -/
theorem Commits.step (h : Commits x imem y s)
    (hLegal : (executing x imem).legal y i) (hKept : operandsKept y.pipe i)
    (hSupported : Supported imem s) :
    (y.completing i = [] ∧ Commits x imem (y.step x i) s) ∨
      (y.completing i = [s.pc] ∧
        ∃ s' ∈ s.step, Commits x imem (y.step x i) s') := by
  rw [completing]
  cases hLoad : y.pipe.cpu.stageRegLoad i with
  | false => exact Or.inl ⟨rfl, h.hold hLoad⟩
  | true =>
      have hNext := h.advance hLegal hKept hLoad
      rw [retired] at hNext
      cases hLive : y.pipe.exLive with
      | false =>
          rw [hLive] at hNext
          exact Or.inl ⟨rfl, hNext⟩
      | true =>
          rw [hLive] at hNext
          refine Or.inr ⟨?_, _, step_of_supported hSupported x _, hNext⟩
          exact congrArg (fun pc => [pc]) (h.inFlight hLive).pcReg

/-- What the memory holds between two completions. -/
theorem Commits.mem (h : Commits x imem y s) (hSupported : Supported imem s) :
    y.mem = s.mem ∨ ∃ s' ∈ s.step, y.mem = s'.mem := by
  rcases h.memory with hMem | hMem
  · exact Or.inl hMem
  · cases hLive : y.pipe.exLive with
    | false =>
        rw [h.perform_idle hLive] at hMem
        exact Or.inl hMem
    | true =>
        refine Or.inr ⟨_, step_of_supported hSupported x 0#32, ?_⟩
        rw [hMem]
        exact (apply_mem (h.inFlight hLive).access.symm (h.exclusive hLive)).symm

end Step

/-! ## The result -/

/-- A run of the pipeline is as many steps of the hart as instructions have
completed. -/
theorem Commits.run (x : Floating) (imem : Word → Word) (is : List Ports) :
    ∀ (y : WithMemory) (s : Rv32i.State), Commits x imem y s →
      (executing x imem).Legal y is →
      (executing x imem).Always (fun y i => operandsKept y.pipe i) y is →
      (∀ n ≤ ((executing x imem).events y is).length, ∀ s' ∈ s.run n,
        Supported imem s') →
      (executing x imem).events y is =
          s.pcs ((executing x imem).events y is).length ∧
        ∃ s' ∈ s.run ((executing x imem).events y is).length,
          Commits x imem ((executing x imem).run y is) s' := by
  induction is with
  | nil =>
      intro y s h _ _ _
      exact ⟨rfl, s, rfl, h⟩
  | cons i is ih =>
      intro y s h hLegal hKept hSupported
      have hEvents : (executing x imem).events y (i :: is) =
          y.completing i ++ (executing x imem).events (y.step x i) is := rfl
      have hHere : Supported imem s :=
        hSupported 0 (Nat.zero_le _) s rfl
      rw [hEvents] at hSupported ⊢
      rcases h.step hLegal.1 hKept.1 hHere with
        ⟨hNone, hNext⟩ | ⟨hOne, s', hStep, hNext⟩
      · rw [hNone] at hSupported ⊢
        exact ih _ s hNext hLegal.2 hKept.2 hSupported
      · have hStep' : s.step = some s' := hStep
        rw [hOne] at hSupported ⊢
        obtain ⟨hPcs, s'', hRun, hEnd⟩ := ih _ s' hNext hLegal.2 hKept.2
          (fun n hn s'' hRun => hSupported (n + 1)
            (Nat.succ_le_succ hn) s''
            (by simpa [Rv32i.State.run, hStep'] using hRun))
        rw [List.singleton_append, List.length_cons, Rv32i.State.pcs,
          Rv32i.State.run, hStep']
        exact ⟨congrArg _ hPcs, s'', hRun, hEnd⟩

/--
**The pipeline executes its program.**  From reset, for every program, every
memory, every pattern of responses: if the instructions that the hart executes
are supported and no load-use stall loses an operand, then the instructions
that complete are the hart's, in its order, and after as many steps the hart
has the registers that the pipeline's register file will hold after the next
clock edge.  The memory is the hart's, or has its next store.
-/
theorem executing_correct (x : Floating) (imem : Word → Word) {c : Cpu}
    (hReset : c.IsReset) (mem : Memory) (is : List Ports)
    (hLegal : (executing x imem).Legal ⟨Tracked.boot c, mem⟩ is)
    (hKept : (executing x imem).Always (fun y i => operandsKept y.pipe i)
      ⟨Tracked.boot c, mem⟩ is) :
    let hart : Rv32i.State := ⟨c.regfile, 0x60#32, mem⟩
    let completed := (executing x imem).events ⟨Tracked.boot c, mem⟩ is
    let y := (executing x imem).run ⟨Tracked.boot c, mem⟩ is
    (∀ n ≤ completed.length, ∀ s ∈ hart.run n, Supported imem s) →
      completed = hart.pcs completed.length ∧
        ∃ s ∈ hart.run completed.length,
          y.pipe.cpu.regfileNext = s.regs ∧
            (y.mem = s.mem ∨ ∃ s' ∈ s.step, y.mem = s'.mem) := by
  intro hart completed y hSupported
  obtain ⟨hPcs, s, hRun, hEnd⟩ := Commits.run x imem is _ hart
    (Commits.boot hReset x imem mem) hLegal hKept hSupported
  refine ⟨hPcs, s, hRun, ?_, hEnd.mem (hSupported _ (Nat.le_refl _) s hRun)⟩
  obtain ⟨q, hTracks, hRegs⟩ := hEnd.tracks
  exact hTracks.regs.symm.trans hRegs

/-- The responses of a memory that answers in the given cycles. -/
def responses (x : Floating) (imem : Word → Word) :
    List (Bool × Bool) → WithMemory → List Ports
  | [], _ => []
  | (instResp, dataResp) :: rest, y =>
      let i : Ports := ⟨instResp, imem y.pipe.cpu.pc, dataResp,
        wordAt y.mem y.pipe.cpu.request.memAddr⟩
      i :: responses x imem rest (y.step x i)

/-- `addi x1, x0, 5`; `sw x1, 0(x0)`; `lw x2, 0(x0)`; `add x3, x2, x2`;
`bne x3, x0, -16`. -/
def loopProgram (a : Word) : Word :=
  if a = 0x60#32 then 0x00500093#32
  else if a = 0x64#32 then 0x00102023#32
  else if a = 0x68#32 then 0x00002103#32
  else if a = 0x6C#32 then 0x002101B3#32
  else if a = 0x70#32 then 0xFE0198E3#32
  else 0x00000013#32

/-- The memory that holds the program. -/
def programMemory (imem : Word → Word) : Memory := fun a =>
  (imem (Rv32i.wordBase a)).extractLsb' (8 * (a.extractLsb' 0 2).toNat) 8

/-- A run of `loopProgram` past its branch, in which the store is acknowledged
twice. -/
def loopRun : List Ports :=
  responses ⟨.zero, .zero⟩ loopProgram
    [(true, false), (true, false), (true, false), (true, false), (false, true),
      (true, true), (true, true), (true, false), (true, false), (true, false),
      (true, false), (true, false), (true, false), (true, false)]
    ⟨Tracked.boot Cpu.afterReset, programMemory loopProgram⟩

theorem executing_correct_loopRun :
    let hart : Rv32i.State :=
      ⟨Cpu.afterReset.regfile, 0x60#32, programMemory loopProgram⟩
    let boot : WithMemory :=
      ⟨Tracked.boot Cpu.afterReset, programMemory loopProgram⟩
    let completed := (executing ⟨.zero, .zero⟩ loopProgram).events boot loopRun
    let y := (executing ⟨.zero, .zero⟩ loopProgram).run boot loopRun
    completed = hart.pcs completed.length ∧
      ∃ s ∈ hart.run completed.length,
        y.pipe.cpu.regfileNext = s.regs ∧
          (y.mem = s.mem ∨ ∃ s' ∈ s.step, y.mem = s'.mem) :=
  executing_correct ⟨.zero, .zero⟩ loopProgram Cpu.afterReset_isReset
    (programMemory loopProgram) loopRun (by decide +kernel)
    (by decide +kernel) (by decide +kernel)

end WithMemory

end CompE.Mp3
