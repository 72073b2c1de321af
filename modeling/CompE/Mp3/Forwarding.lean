import CompE.Mp3.Pipeline

/-!
# Data hazards

The specification executes the un-flushed instructions one after the other
on a register file, with the arithmetic of the pipeline's own stages and the
load data the memory delivered.  When an instruction leaves `EX`, the operands
it used must be the registers of that execution (`inOrder`).

The invariant `Tracks` says where the sequential registers are: the register
file with `WB`'s write, one instruction behind `MEM`.  The operand latched in
`ID` is one of them unless `WB` writes it, in which case the forwarding unit
takes it from there.

A load-use stall breaks this.  While the stalled instruction is held, the one
in `WB` retires, and the operand latched before is not refreshed: if `WB`
wrote the *other* source, its value is gone in the next cycle.
`operands_correct` is about the runs in which no stall does that, and
`lostOperand` is a run in which one does.
-/

namespace CompE.Mp3

open CompE.Library

/-! ## The specification -/

/-- The opcodes whose first operand takes part in the computation. -/
def usesRs1 : Opcode → Bool
  | .opAuipc | .opJal | .opCsr | .other => false
  | _ => true

/-- The opcodes whose second operand takes part in the computation. -/
def usesRs2 (op : Opcode) : Bool := forwardsRs2 op

/-- A completed instruction with the data port's word and the value that
`regfile_data` keeps for an unlisted load width. -/
structure Completed where
  pc : Word
  instruction : Word
  loadData : Word
  held : Word

/-- An instruction in `EX` with its operands still open. -/
def decoded (pc instruction : Word) : StageReg :=
  { StageReg.zero with
    controlWord := control instruction
    pcReg := pc
    instruction := instruction }

/-- The value an instruction writes back, from its operands. -/
def seqResult (e : Completed) (a b : Word) : Word :=
  regfileData
    { exStage (decoded e.pc e.instruction) a b with memRdata := e.loadData }
    e.held

/-- Sequential execution of one instruction on the registers. -/
def exec (regs : RegFile) (e : Completed) : RegFile :=
  regs.write (control e.instruction).regfileLoad (rd e.instruction)
    (seqResult e (regs.read (rs1 e.instruction)) (regs.read (rs2 e.instruction)))

/-- An instruction leaves `EX` with the operands it used, or completes. -/
inductive OperandEvent where
  | leaves (pc instruction rs1Out rs2Out : Word)
  | completes (e : Completed)

/-- The registers after the completed instructions, and the instruction that
has left `EX` since. -/
structure Sequential where
  regs : RegFile
  pending : Option (Word × Word)

/-- In-order execution: every used operand is the sequential register. -/
def inOrder : Acceptor Sequential OperandEvent where
  good q
    | .leaves _ instruction a b =>
        q.pending = none ∧
          (usesRs1 (opcode instruction) = true →
            a = q.regs.read (rs1 instruction)) ∧
          (usesRs2 (opcode instruction) = true →
            b = q.regs.read (rs2 instruction)) ∧
          (rs1 instruction = 0#5 → a = 0#32) ∧
          (rs2 instruction = 0#5 → b = 0#32)
    | .completes e => q.pending = some (e.pc, e.instruction)
  next q
    | .leaves pc instruction _ _ =>
        { q with pending := some (pc, instruction) }
    | .completes e => ⟨exec q.regs e, none⟩

instance decidableInOrderGood (q : Sequential) (e : OperandEvent) :
    Decidable (inOrder.good q e) :=
  match e with
  | .leaves _ _ _ _ => inferInstanceAs (Decidable (_ ∧ _ ∧ _ ∧ _ ∧ _))
  | .completes _ => inferInstanceAs (Decidable (_ = _))

/-- The written value depends on the used operands only. -/
theorem regfileData_exStage_congr {s : StageReg} {a a' b b' : Word}
    (h : s.controlWord = control s.instruction)
    (hLoad : s.controlWord.regfileLoad = true)
    (hA : usesRs1 (opcode s.instruction) = true → a = a')
    (hB : usesRs2 (opcode s.instruction) = true → b = b') (d held : Word) :
    regfileData { exStage s a b with memRdata := d } held =
      regfileData { exStage s a' b' with memRdata := d } held := by
  rw [h] at hLoad
  have hBr : opcode s.instruction ≠ .opBr := by
    intro hOp
    simp [control, hOp, controlROM, ControlWord.default] at hLoad
  simp only [regfileData, exStage, exAluOut, exBrEn, if_neg hBr, h, control]
  rw [control] at hLoad
  cases hOp : opcode s.instruction with
  | opImm =>
      obtain rfl : a = a' := hA (by rw [hOp]; rfl)
      cases hSet : isSetLess (funct3 s.instruction) <;>
        simp [controlROM, ControlWord.default, hSet, aluMuxOut, cmpMuxOut]
  | opReg =>
      obtain rfl : a = a' := hA (by rw [hOp]; rfl)
      obtain rfl : b = b' := hB (by rw [hOp]; rfl)
      rfl
  | opAuipc => rfl
  | opJal => rfl
  | opBr => exact absurd hOp hBr
  | opStore => simp [hOp, controlROM, ControlWord.default] at hLoad
  | opCsr => simp [hOp, controlROM, ControlWord.default] at hLoad
  | other => simp [hOp, controlROM, ControlWord.default] at hLoad
  | opLui =>
      obtain rfl : a = a' := hA (by rw [hOp]; rfl)
      rfl
  | opJalr => rfl
  | opLoad =>
      obtain rfl : a = a' := hA (by rw [hOp]; rfl)
      rfl

/-! ## Reading the register file behind a stage register -/

private theorem read_write_of_writes {s : StageReg} {r : RegNo}
    (h : s.writes r = true) (f : RegFile) (v : Word) :
    (f.write s.controlWord.regfileLoad (rd s.instruction) v).read r = v := by
  obtain ⟨rfl, hRd, hLoad⟩ := StageReg.writes_eq_true.1 h
  simp [RegFile.read, RegFile.write, hRd, hLoad]

private theorem read_write_of_not_writes {s : StageReg} {r : RegNo}
    (h : s.writes r = false) (f : RegFile) (v : Word) :
    (f.write s.controlWord.regfileLoad (rd s.instruction) v).read r =
      f.read r := by
  by_cases hr : r = 0#5
  · subst hr; simp
  · simp only [RegFile.read, if_neg hr, RegFile.write]
    rw [if_neg]
    intro hWrite
    simp only [Bool.and_eq_true, bne_iff_ne, beq_iff_eq] at hWrite
    have hTrue := StageReg.writes_eq_true.2 ⟨hWrite.2.symm, hr, hWrite.1.1⟩
    rw [h] at hTrue
    cases hTrue

/-! ## The machine -/

namespace Tracked

/-- The completion of the instruction in `MEM`, then the departure of the
one in `EX`. -/
def operandEvents (t : Tracked) (i : Ports) : List OperandEvent :=
  if t.cpu.stageRegLoad i then
    (if t.exLive then
      [.completes ⟨t.cpu.stageEX.pcReg, t.cpu.stageEX.instruction, i.dataRdata,
        t.cpu.wbData⟩]
    else []) ++
    if t.leaves then
      [.leaves t.cpu.stageID.pcReg t.cpu.stageID.instruction t.cpu.rs1Out
        t.cpu.rs2Out]
    else []
  else []

/-- The pipeline under arbitrary instructions, data and stalls. -/
def observed (x : Floating) : Machine Tracked Ports OperandEvent where
  step := step x
  emit := operandEvents
  legal _ _ := True

/-- A load-use stall that advances `WB` loses no operand: a source that `WB`
writes is the load's own destination, or has the same value already. -/
def operandsKept (t : Tracked) (i : Ports) : Prop :=
  t.cpu.stageRegLoad i = true → t.cpu.stall = true →
    (usesRs1 (opcode t.cpu.stageID.instruction) = true →
      t.cpu.stageMEM.writes (rs1 t.cpu.stageID.instruction) = true →
        t.cpu.stageEX.writes (rs1 t.cpu.stageID.instruction) = true ∨
          t.cpu.stageID.rs1Out = t.cpu.wbData) ∧
      (usesRs2 (opcode t.cpu.stageID.instruction) = true →
        t.cpu.stageMEM.writes (rs2 t.cpu.stageID.instruction) = true →
          t.cpu.stageEX.writes (rs2 t.cpu.stageID.instruction) = true ∨
            t.cpu.stageID.rs2Out = t.cpu.wbData)

instance decidableOperandsKept (t : Tracked) (i : Ports) :
    Decidable (operandsKept t i) :=
  inferInstanceAs (Decidable (_ → _ → (_ → _ → _ ∨ _) ∧ (_ → _ → _ ∨ _)))

/-! ## The invariant -/

/-- The operand latched in `ID` is the sequential register, unless `WB` is
about to write it. -/
def Latched (t : Tracked) (regs : RegFile) (used : Bool) (r : RegNo)
    (latched : Word) : Prop :=
  (used = true → t.cpu.stageMEM.writes r = false → latched = regs.read r) ∧
    (r = 0#5 → latched = 0#32)

/-- The pipeline between two completions. -/
structure Tracks (t : Tracked) (q : Sequential) : Prop where
  shape : Shape t
  regs : q.regs = t.cpu.regfileNext
  idle : t.exLive = false → q.pending = none
  pending : t.exLive = true →
    q.pending = some (t.cpu.stageEX.pcReg, t.cpu.stageEX.instruction)
  /-- `MEM` holds the result of its instruction on the sequential registers,
  up to the load data. -/
  result : t.exLive = true →
    t.cpu.stageEX.controlWord.regfileLoad = true → ∀ d held,
      regfileData { t.cpu.stageEX with memRdata := d } held =
        seqResult ⟨t.cpu.stageEX.pcReg, t.cpu.stageEX.instruction, d, held⟩
          (q.regs.read (rs1 t.cpu.stageEX.instruction))
          (q.regs.read (rs2 t.cpu.stageEX.instruction))
  operand1 : t.idLive = true →
    Latched t q.regs (usesRs1 (opcode t.cpu.stageID.instruction))
      (rs1 t.cpu.stageID.instruction) t.cpu.stageID.rs1Out
  operand2 : t.idLive = true →
    Latched t q.regs (usesRs2 (opcode t.cpu.stageID.instruction))
      (rs2 t.cpu.stageID.instruction) t.cpu.stageID.rs2Out

theorem Tracks.boot {c : Cpu} (h : c.IsReset) :
    Tracks (boot c) ⟨c.regfile, none⟩ where
  shape := Shape.boot h
  regs := by
    funext r
    simp [Tracked.boot, Cpu.regfileNext, RegFile.write, h.stageMEM,
      StageReg.zero, ControlWord.zero]
  idle := fun _ => rfl
  pending := by simp [Tracked.boot]
  result := by simp [Tracked.boot]
  operand1 := by simp [Tracked.boot]
  operand2 := by simp [Tracked.boot]

section Step

variable {t : Tracked} {q : Sequential} {x : Floating} {i : Ports}

/-- The sequential registers after the instruction in `MEM`. -/
def regsAfter (t : Tracked) (q : Sequential) (i : Ports) : RegFile :=
  q.regs.write t.cpu.stageEX.controlWord.regfileLoad
    (rd t.cpu.stageEX.instruction)
    (regfileData { t.cpu.stageEX with memRdata := i.dataRdata } t.cpu.wbData)

/-- Completing the instruction in `MEM` executes it. -/
theorem Tracks.completes (h : Tracks t q) (i : Ports) :
    let es : List OperandEvent := if t.exLive then
      [.completes ⟨t.cpu.stageEX.pcReg, t.cpu.stageEX.instruction, i.dataRdata,
        t.cpu.wbData⟩] else []
    inOrder.Accepts q es ∧ inOrder.after q es = ⟨t.regsAfter q i, none⟩ := by
  cases hLive : t.exLive with
  | false =>
      have hNo := (h.shape.exEmpty hLive).regfileLoad
      have hRegs : t.regsAfter q i = q.regs := by
        funext r
        simp [regsAfter, hNo, RegFile.write]
      refine ⟨trivial, ?_⟩
      rw [hRegs, ← h.idle hLive]
      rfl
  | true =>
      refine ⟨⟨h.pending hLive, trivial⟩, ?_⟩
      have hCtrl : (control t.cpu.stageEX.instruction).regfileLoad =
          t.cpu.stageEX.controlWord.regfileLoad := by
        have hDec := h.shape.ex hLive
        rw [Decoded] at hDec
        rw [hDec]
      show Sequential.mk (exec q.regs _) none = _
      rw [exec, regsAfter, hCtrl]
      cases hLoad : t.cpu.stageEX.controlWord.regfileLoad with
      | false => rfl
      | true => rw [h.result hLive hLoad]

/-- An operand of an instruction that is not stalled is the sequential
register behind the instruction in `MEM`. -/
theorem Tracks.operand (h : Tracks t q) {used fromMem : Bool} {r : RegNo}
    {latched : Word} (hUsed : used = true → fromMem = true)
    (hLatched : Latched t q.regs used r latched)
    (hNoLoad : fromMem = true → t.cpu.stageEX.writes r = true →
      t.cpu.stageEX.controlWord.wbmuxSel ≠ .memRdata) (i : Ports) :
    (used = true → forward t.cpu.stageEX t.cpu.stageMEM t.cpu.wbData fromMem r
        latched = (t.regsAfter q i).read r) ∧
      (r = 0#5 → forward t.cpu.stageEX t.cpu.stageMEM t.cpu.wbData fromMem r
        latched = 0#32) := by
  constructor
  · intro hu
    have hFrom := hUsed hu
    rw [forward, hFrom, Bool.and_true]
    cases hEX : t.cpu.stageEX.writes r with
    | true =>
        rw [if_pos rfl, regsAfter, read_write_of_writes hEX]
        exact memForward_eq (hNoLoad hFrom hEX) _ _ _
    | false =>
        rw [if_neg (by simp), regsAfter, read_write_of_not_writes hEX]
        cases hMEM : t.cpu.stageMEM.writes r with
        | true =>
            rw [if_pos rfl, h.regs, Cpu.regfileNext, read_write_of_writes hMEM]
        | false =>
            rw [if_neg (by simp)]
            exact hLatched.1 hu hMEM
  · rintro rfl
    simpa [forward] using hLatched.2

/-- A cache stall changes nothing the specification sees. -/
theorem Tracks.hold (h : Tracks t q) (hLoad : t.cpu.stageRegLoad i = false) :
    Tracks (t.step x i) q := by
  have hShape := h.shape.step x i
  have hRegs : (t.step x i).cpu.regfileNext = t.cpu.regfileNext := by
    simp only [Tracked.step, Cpu.clock_hold hLoad, Cpu.regfileNext, Cpu.wbData,
      regfileData_held, RegFile.write_write]
  refine ⟨hShape, h.regs.trans hRegs.symm, ?_, ?_, ?_, ?_, ?_⟩ <;>
    simp only [Tracked.step, Cpu.clock_hold hLoad, hLoad, Latched]
  · exact h.idle
  · exact h.pending
  · exact h.result
  · exact h.operand1
  · exact h.operand2

/-- After an advance of `WB` the register file has caught up with `MEM`. -/
theorem Tracks.regfileNext_step (h : Tracks t q)
    (hLoad : t.cpu.stageRegLoad i = true) :
    (t.step x i).cpu.regfileNext = t.regsAfter q i := by
  simp only [Tracked.step, Cpu.clock, hLoad, Cpu.regfileNext, if_true]
  rw [regsAfter, h.regs]
  rfl

/-- A latched operand survives a stall that keeps it. -/
theorem Tracks.latched_stall (h : Tracks t q)
    (hLoad : t.cpu.stageRegLoad i = true) {used : Bool} {r : RegNo}
    {latched : Word} (hLatched : Latched t q.regs used r latched)
    (hKept : used = true → t.cpu.stageMEM.writes r = true →
      t.cpu.stageEX.writes r = true ∨ latched = t.cpu.wbData) :
    Latched (t.step x i) (t.regsAfter q i) used r latched := by
  refine ⟨fun hu hMEM => ?_, hLatched.2⟩
  have hEX : t.cpu.stageEX.writes r = false := by
    simpa [Tracked.step, Cpu.clock, hLoad, StageReg.writes] using hMEM
  rw [regsAfter, read_write_of_not_writes hEX]
  cases hOld : t.cpu.stageMEM.writes r with
  | false => exact hLatched.1 hu hOld
  | true =>
      rw [h.regs, Cpu.regfileNext, read_write_of_writes hOld]
      rcases hKept hu hOld with hEX' | hSame
      · rw [hEX] at hEX'
        cases hEX'
      · exact hSame

/-- An operand read in `ID` on an advance. -/
theorem Tracks.latched_advance (h : Tracks t q)
    (hLoad : t.cpu.stageRegLoad i = true) (used : Bool) (r : RegNo) :
    Latched (t.step x i) (t.regsAfter q i) used r (t.cpu.idOperand r) := by
  have hRead : t.cpu.idOperand r = q.regs.read r := by
    rw [Cpu.idOperand, RegFile.readPort_eq, h.regs, Cpu.regfileNext]
  refine ⟨fun _ hMEM => ?_, ?_⟩
  · have hEX : t.cpu.stageEX.writes r = false := by
      simpa [Tracked.step, Cpu.clock, hLoad, StageReg.writes] using hMEM
    rw [regsAfter, read_write_of_not_writes hEX, hRead]
  · rintro rfl
    rw [hRead, RegFile.read_zero]

/-- A load-use stall completes the load and keeps the operands. -/
theorem Tracks.stall (h : Tracks t q) (hLoad : t.cpu.stageRegLoad i = true)
    (hStall : t.cpu.stall = true) (hKept : operandsKept t i) :
    Tracks (t.step x i) ⟨t.regsAfter q i, none⟩ := by
  have hLeaves : t.leaves = false := by simp [leaves, hStall]
  have hLive' : (t.step x i).exLive = false := by
    simp [Tracked.step, hLoad, hLeaves]
  have hID : (t.step x i).cpu.stageID = t.cpu.stageID ∧
      (t.step x i).idLive = t.idLive := by
    simp [Tracked.step, Cpu.clock, hLoad, hStall]
  have hSources := hKept hLoad hStall
  refine ⟨h.shape.step x i, (h.regfileNext_step hLoad).symm, fun _ => rfl,
    ?_, ?_, ?_, ?_⟩
  · intro hLive; rw [hLive'] at hLive; cases hLive
  · intro hLive; rw [hLive'] at hLive; cases hLive
  · intro hLive
    rw [hID.2] at hLive
    rw [hID.1]
    exact h.latched_stall hLoad (h.operand1 hLive) hSources.1
  · intro hLive
    rw [hID.2] at hLive
    rw [hID.1]
    exact h.latched_stall hLoad (h.operand2 hLive) hSources.2

/-- The operands of an instruction that leaves `EX` are the sequential
registers. -/
theorem Tracks.leaves_good (h : Tracks t q) (hLeaves : t.leaves = true)
    (i : Ports) :
    inOrder.good ⟨t.regsAfter q i, none⟩
      (.leaves t.cpu.stageID.pcReg t.cpu.stageID.instruction t.cpu.rs1Out
        t.cpu.rs2Out) := by
  rw [leaves, Bool.and_eq_true, Bool.and_eq_true, Bool.not_eq_true'] at hLeaves
  obtain ⟨⟨hLive, -⟩, hStall⟩ := hLeaves
  rw [Cpu.stall, loadRawStall, Bool.and_eq_false_iff, Bool.or_eq_false_iff,
    Bool.and_eq_false_iff] at hStall
  have hNoLoad1 : true = true →
      t.cpu.stageEX.writes (rs1 t.cpu.stageID.instruction) = true →
      t.cpu.stageEX.controlWord.wbmuxSel ≠ .memRdata := by
    intro _ hEX
    rcases hStall with hStall | hStall
    · rw [hEX] at hStall
      cases hStall.1
    · simpa using hStall
  have hNoLoad2 : forwardsRs2 (opcode t.cpu.stageID.instruction) = true →
      t.cpu.stageEX.writes (rs2 t.cpu.stageID.instruction) = true →
      t.cpu.stageEX.controlWord.wbmuxSel ≠ .memRdata := by
    intro hUse hEX
    rcases hStall with hStall | hStall
    · rw [hEX, hUse] at hStall
      rcases hStall.2 with h' | h' <;> cases h'
    · simpa using hStall
  obtain ⟨hRs1, hZero1⟩ :=
    h.operand (fun _ => rfl) (h.operand1 hLive) hNoLoad1 i
  obtain ⟨hRs2, hZero2⟩ := h.operand id (h.operand2 hLive) hNoLoad2 i
  exact ⟨rfl, hRs1, hRs2, hZero1, hZero2⟩

/-- An advance executes one more instruction and reads the next operands. -/
theorem Tracks.advance (h : Tracks t q) (hLoad : t.cpu.stageRegLoad i = true)
    (hStall : t.cpu.stall = false) :
    Tracks (t.step x i)
      ⟨t.regsAfter q i,
        if t.leaves then
          some (t.cpu.stageID.pcReg, t.cpu.stageID.instruction)
        else none⟩ := by
  have hLive' : (t.step x i).exLive = t.leaves := by
    simp [Tracked.step, hLoad]
  have hID : (t.step x i).cpu.stageID = idStage x t.cpu.pc i.instRdata
      (t.cpu.idOperand (rs1 i.instRdata))
      (t.cpu.idOperand (rs2 i.instRdata)) := by
    simp [Tracked.step, Cpu.clock, hLoad, hStall]
  have hEX : t.leaves = true → (t.step x i).cpu.stageEX = t.cpu.exIn := by
    intro hLeaves
    rw [leaves, Bool.and_eq_true, Bool.and_eq_true, beq_iff_eq] at hLeaves
    simp [Tracked.step, Cpu.clock, hLoad, Cpu.stageRegNext, hStall,
      hLeaves.1.2]
  refine ⟨h.shape.step x i, (h.regfileNext_step hLoad).symm, ?_, ?_, ?_, ?_, ?_⟩
  · intro hLive
    rw [hLive'] at hLive
    simp [hLive]
  · intro hLive
    rw [hLive'] at hLive
    rw [hEX hLive, if_pos hLive]
    rfl
  · intro hLive hRegLoad d held
    rw [hLive'] at hLive
    rw [hEX hLive] at hRegLoad ⊢
    obtain ⟨-, hRs1, hRs2, -, -⟩ := h.leaves_good hLive i
    rw [leaves, Bool.and_eq_true, Bool.and_eq_true] at hLive
    have hCtrl := h.shape.id hLive.1.1
    have hRegLoad' : t.cpu.stageID.controlWord.regfileLoad = true := by
      simp only [Cpu.exIn, exStage] at hRegLoad
      split at hRegLoad <;> exact hRegLoad
    rw [Cpu.exIn, regfileData_exStage_congr hCtrl hRegLoad' hRs1 hRs2]
    simp only [seqResult, decoded, exStage, ← hCtrl]
    rfl
  · intro _
    rw [hID]
    exact h.latched_advance hLoad _ _
  · intro _
    rw [hID]
    exact h.latched_advance hLoad _ _

/-- One cycle follows the in-order execution. -/
theorem Tracks.step (h : Tracks t q) (hKept : operandsKept t i) :
    inOrder.Accepts q (t.operandEvents i) ∧
      Tracks (t.step x i) (inOrder.after q (t.operandEvents i)) := by
  cases hLoad : t.cpu.stageRegLoad i with
  | false =>
      have hNone : t.operandEvents i = [] := by simp [operandEvents, hLoad]
      rw [hNone]
      exact ⟨trivial, h.hold hLoad⟩
  | true =>
      obtain ⟨hAcc, hAfter⟩ := h.completes i
      rw [operandEvents, hLoad, if_pos rfl, inOrder.accepts_append,
        inOrder.after_append, hAfter]
      cases hStall : t.cpu.stall with
      | true =>
          have hLeaves : t.leaves = false := by simp [leaves, hStall]
          rw [hLeaves]
          exact ⟨⟨hAcc, trivial⟩, h.stall hLoad hStall hKept⟩
      | false =>
          have hNext := h.advance (x := x) hLoad hStall
          cases hLeaves : t.leaves with
          | false =>
              rw [hLeaves] at hNext
              exact ⟨⟨hAcc, trivial⟩, hNext⟩
          | true =>
              rw [hLeaves] at hNext
              exact ⟨⟨hAcc, h.leaves_good hLeaves i, trivial⟩, hNext⟩

end Step

/-! ## The result -/

/--
**Forwarding and load-use stalls.**  In every run whose load-use stalls keep
the operands: for all instructions, data and stalls and every initial register
file, the operands used in `EX` are the registers after sequentially executing
all older un-flushed instructions, and `x0` reads zero.
-/
theorem operands_correct (x : Floating) {c : Cpu} (hReset : c.IsReset)
    (is : List Ports) (hKept : (observed x).Always operandsKept (boot c) is) :
    inOrder.Accepts ⟨c.regfile, none⟩ ((observed x).events (boot c) is) := by
  have hLegal : (observed x).Legal (boot c) is :=
    (observed x).always_of_forall (fun _ _ => trivial) _ _
  have hRun := ((observed x).restrict operandsKept).simulates inOrder
    (fun _ _ _ h hLegal => Tracks.step h hLegal.2) is (boot c) _
    (Tracks.boot hReset) (((observed x).restrict_legal _ _ _).2 ⟨hLegal, hKept⟩)
  rw [(observed x).restrict_events] at hRun
  exact hRun.1

/-- `lw x1, 0(x0)` followed by `add x3, x1, x1`, with its load-use stall. -/
def loadUse : List Ports :=
  [0x00002083#32, 0x001081B3#32, 0x00000013#32, 0x00000013#32,
    0x00000013#32].map fun instruction => ⟨true, instruction, true, 42#32⟩

theorem operands_correct_loadUse :
    inOrder.Accepts ⟨Cpu.afterReset.regfile, none⟩
      ((observed ⟨.zero, .zero⟩).events (boot Cpu.afterReset) loadUse) :=
  operands_correct ⟨.zero, .zero⟩ Cpu.afterReset_isReset loadUse
    (by decide +kernel)

/-- `addi x2, x0, 1`; `lw x1, 0(x0)`; `add x3, x1, x2`, without a cache
stall.  The `add` waits for the load while `addi` retires. -/
def lostOperand : List Ports :=
  [0x00100113#32, 0x00002083#32, 0x002081B3#32, 0x00000013#32,
    0x00000013#32].map fun instruction => ⟨true, instruction, true, 0#32⟩

/-- The `add` of `lostOperand` leaves `EX` with the old value of `x2`. -/
theorem lostOperand_wrong :
    ¬ inOrder.Accepts ⟨Cpu.afterReset.regfile, none⟩
      ((observed ⟨.zero, .zero⟩).events (boot Cpu.afterReset) lostOperand) := by
  decide +kernel

end Tracked

end CompE.Mp3
