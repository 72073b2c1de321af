import CompE.Library.Machine
import CompE.Mp3.Stages

/-!
# The pipeline

`cpu.sv`: the PC, the register file, the three stage registers between the
stages and the flush counter of `EX`.  `stageID` is the register that `ID`
fills, so the instruction it holds is in `EX`; the one in `stageEX` is in
`MEM`, and the one in `stageMEM` is in `WB`.

A cycle is one of three kinds.  Without `stage_reg_load` the pipeline holds
and only repeats the register write of `WB` (`clock_hold`).  A load-use stall
holds `IF` and `ID` and sends a bubble from `EX` (`clock_stall`).  Otherwise
everything advances (`clock_advance`).  `Tracked` adds to the registers which
of them hold an instruction that was not flushed.
-/

namespace CompE.Mp3

/-- The state of `cpu.sv`.  `held` is the last value of `regfile_data`. -/
structure Cpu where
  pc : Word
  regfile : RegFile
  stageID : StageReg
  stageEX : StageReg
  stageMEM : StageReg
  flushCounter : BitVec 2
  held : Word

/-- The inputs of `cpu.sv`. -/
structure Ports where
  instResp : Bool
  instRdata : Word
  dataResp : Bool
  dataRdata : Word

/-- The next PC behind an instruction in `MEM`. -/
def nextPc (pcPlus4 : Word) (mem : StageReg) : Word :=
  match mem.controlWord.pcmuxSel with
  | .pcPlus4 => pcPlus4
  | .aluOut => mem.pcPlusReg
  | .aluMod2 => mem.aluOut &&& 0xFFFFFFFC#32

namespace Cpu

/-! ## Combinational signals -/

/-- The data port. -/
def request (c : Cpu) : DataRequest := dataRequest c.stageEX

/-- `stage_reg_load`: no cache miss is pending. -/
def stageRegLoad (c : Cpu) (i : Ports) : Bool :=
  (!(c.request.memRead || c.request.memWrite) || i.dataResp) && i.instResp

/-- `regfile_in`. -/
def wbData (c : Cpu) : Word := regfileData c.stageMEM c.held

/-- The register file after the clock edge; it is written in every cycle. -/
def regfileNext (c : Cpu) : RegFile :=
  c.regfile.write c.stageMEM.controlWord.regfileLoad
    (rd c.stageMEM.instruction) c.wbData

/-- A read port of the register file in `ID`. -/
def idOperand (c : Cpu) (r : RegNo) : Word :=
  c.regfile.readPort c.stageMEM.controlWord.regfileLoad
    (rd c.stageMEM.instruction) c.wbData r

/-- `rs1_out` of the forwarding unit. -/
def rs1Out (c : Cpu) : Word :=
  forward c.stageEX c.stageMEM c.wbData true (rs1 c.stageID.instruction)
    c.stageID.rs1Out

/-- `rs2_out` of the forwarding unit. -/
def rs2Out (c : Cpu) : Word :=
  forward c.stageEX c.stageMEM c.wbData
    (forwardsRs2 (opcode c.stageID.instruction)) (rs2 c.stageID.instruction)
    c.stageID.rs2Out

/-- `load_RAW_stall`. -/
def stall (c : Cpu) : Bool := loadRawStall c.stageID c.stageEX

/-- `stage_reg_in` of `EX`. -/
def exIn (c : Cpu) : StageReg := exStage c.stageID c.rs1Out c.rs2Out

/-- A redirecting instruction is in `EX`. -/
def redirect (c : Cpu) : Bool := redirects c.stageID c.exIn.brEn

/-- `pcmux_out`. -/
def pcmuxOut (c : Cpu) : Word :=
  match c.stageMEM.controlWord.pcmuxSel with
  | .pcPlus4 => c.pc + 4#32
  | .aluOut => c.stageMEM.pcPlusReg
  | .aluMod2 => c.stageMEM.aluOut &&& 0xFFFFFFFC#32

theorem pcmuxOut_eq (c : Cpu) :
    c.pcmuxOut = nextPc (c.pc + 4#32) c.stageMEM := rfl

/-- What `EX` passes on: its instruction, or a bubble. -/
def stageRegNext (c : Cpu) (x : Floating) : StageReg :=
  if c.flushCounter = 0b00#2 ∧ c.stall = false then c.exIn
  else stageRegFlush x

/-! ## The clock edge -/

/-- One clock edge outside reset. -/
def clock (c : Cpu) (x : Floating) (i : Ports) : Cpu :=
  let load := c.stageRegLoad i
  { pc := if load && !c.stall then c.pcmuxOut else c.pc
    regfile := c.regfileNext
    stageID :=
      if load && !c.stall then
        idStage x c.pc i.instRdata (c.idOperand (rs1 i.instRdata))
          (c.idOperand (rs2 i.instRdata))
      else c.stageID
    stageEX := if load then c.stageRegNext x else c.stageEX
    stageMEM :=
      if load then { c.stageEX with memRdata := i.dataRdata } else c.stageMEM
    flushCounter :=
      if load then nextCounter c.flushCounter (c.redirect && !c.stall)
      else c.flushCounter
    held := c.wbData }

/-- After reset the PC is `0x60`, the stage registers and the flush counter
are zero.  The register file and the held value may be anything. -/
structure IsReset (c : Cpu) : Prop where
  pc : c.pc = 0x60#32
  stageID : c.stageID = .zero
  stageEX : c.stageEX = .zero
  stageMEM : c.stageMEM = .zero
  flushCounter : c.flushCounter = 0b00#2

/-- The reset state over a register file of zeros. -/
def afterReset : Cpu where
  pc := 0x60#32
  regfile := fun _ => 0#32
  stageID := .zero
  stageEX := .zero
  stageMEM := .zero
  flushCounter := 0b00#2
  held := 0#32

theorem afterReset_isReset : IsReset afterReset where
  pc := rfl
  stageID := rfl
  stageEX := rfl
  stageMEM := rfl
  flushCounter := rfl

variable {c : Cpu} {x : Floating} {i : Ports}

/-- A cache stall holds everything and repeats the register write. -/
theorem clock_hold (h : c.stageRegLoad i = false) :
    c.clock x i = { c with regfile := c.regfileNext, held := c.wbData } := by
  simp [clock, h]

/-- A load-use stall holds `IF` and `ID` and inserts a bubble after `EX`. -/
theorem clock_stall (h : c.stageRegLoad i = true) (hStall : c.stall = true) :
    c.clock x i =
      { c with
        regfile := c.regfileNext
        stageEX := stageRegFlush x
        stageMEM := { c.stageEX with memRdata := i.dataRdata }
        flushCounter := nextCounter c.flushCounter false
        held := c.wbData } := by
  simp [clock, h, hStall, stageRegNext]

/-- Otherwise every stage register is loaded. -/
theorem clock_advance (h : c.stageRegLoad i = true) (hStall : c.stall = false) :
    c.clock x i =
      { pc := c.pcmuxOut
        regfile := c.regfileNext
        stageID := idStage x c.pc i.instRdata (c.idOperand (rs1 i.instRdata))
          (c.idOperand (rs2 i.instRdata))
        stageEX := if c.flushCounter = 0b00#2 then c.exIn else stageRegFlush x
        stageMEM := { c.stageEX with memRdata := i.dataRdata }
        flushCounter := nextCounter c.flushCounter c.redirect
        held := c.wbData } := by
  simp [clock, h, hStall, stageRegNext]

/-- A stall needs a load in `MEM`. -/
theorem wbmuxSel_of_stall (h : c.stall = true) :
    c.stageEX.controlWord.regfileLoad = true ∧
      c.stageEX.controlWord.wbmuxSel = .memRdata := by
  rw [stall, loadRawStall, Bool.and_eq_true, Bool.or_eq_true, Bool.and_eq_true,
    beq_iff_eq] at h
  refine ⟨?_, h.2⟩
  rcases h.1 with h | ⟨h, -⟩ <;> exact (StageReg.writes_eq_true.1 h).2.2

end Cpu

/-! ## Which registers hold an instruction -/

/-- A stage register without effects: it writes no register, makes no memory
access and leaves the PC alone. -/
structure Bubble (s : StageReg) : Prop where
  regfileLoad : s.controlWord.regfileLoad = false
  memRead : s.controlWord.memRead = false
  memWrite : s.controlWord.memWrite = false
  pcmuxSel : s.controlWord.pcmuxSel = .pcPlus4
  wbmuxSel : s.controlWord.wbmuxSel ≠ .memRdata

/-- A stage register past `EX`: the control word of its instruction, up to
the PC select that `EX` sets for branches. -/
def Decoded (s : StageReg) : Prop :=
  s.controlWord =
    { control s.instruction with pcmuxSel := s.controlWord.pcmuxSel }

theorem stageRegFlush_bubble (x : Floating) : Bubble (stageRegFlush x) where
  regfileLoad := rfl
  memRead := rfl
  memWrite := rfl
  pcmuxSel := rfl
  wbmuxSel := by simp [stageRegFlush]

private theorem zero_bubble : Bubble .zero where
  regfileLoad := rfl
  memRead := rfl
  memWrite := rfl
  pcmuxSel := rfl
  wbmuxSel := by simp [StageReg.zero, ControlWord.zero]

theorem Bubble.setMemRdata {s : StageReg} (h : Bubble s) (d : Word) :
    Bubble { s with memRdata := d } :=
  ⟨h.regfileLoad, h.memRead, h.memWrite, h.pcmuxSel, h.wbmuxSel⟩

/-- The register of a reset pipeline passes `EX` as a bubble. -/
theorem exStage_zero_bubble (a b : Word) : Bubble (exStage .zero a b) := by
  have hOp : opcode StageReg.zero.instruction ≠ .opBr := by decide
  have hCtrl : (exStage .zero a b).controlWord = .zero := by
    simp only [exStage, if_neg hOp]
    rfl
  constructor <;> rw [hCtrl] <;> simp [ControlWord.zero]

private theorem exStage_decoded {s : StageReg}
    (h : s.controlWord = control s.instruction) (a b : Word) :
    Decoded (exStage s a b) := by
  simp only [Decoded, exStage]
  split <;> rw [h]

/-- The pipeline with the registers that hold an un-flushed instruction. -/
structure Tracked where
  cpu : Cpu
  idLive : Bool
  exLive : Bool
  memLive : Bool

namespace Tracked

/-- An un-flushed instruction is in `EX` and not stalled. -/
def leaves (t : Tracked) : Bool :=
  t.idLive && t.cpu.flushCounter == 0b00#2 && !t.cpu.stall

def step (x : Floating) (t : Tracked) (i : Ports) : Tracked where
  cpu := t.cpu.clock x i
  idLive :=
    if t.cpu.stageRegLoad i && !t.cpu.stall then true else t.idLive
  exLive := if t.cpu.stageRegLoad i then t.leaves else t.exLive
  memLive := if t.cpu.stageRegLoad i then t.exLive else t.memLive

/-- After reset the pipeline is empty. -/
def boot (c : Cpu) : Tracked := ⟨c, false, false, false⟩

/-- The stage registers hold decoded instructions where they are live, and
bubbles elsewhere. -/
structure Shape (t : Tracked) : Prop where
  id : t.idLive = true →
    t.cpu.stageID.controlWord = control t.cpu.stageID.instruction
  idEmpty : t.idLive = false → t.cpu.stageID = .zero
  ex : t.exLive = true → Decoded t.cpu.stageEX
  exEmpty : t.exLive = false → Bubble t.cpu.stageEX
  mem : t.memLive = true → Decoded t.cpu.stageMEM
  memEmpty : t.memLive = false → Bubble t.cpu.stageMEM

theorem Shape.boot {c : Cpu} (h : c.IsReset) : Shape (boot c) where
  id := by simp [Tracked.boot]
  idEmpty := fun _ => h.stageID
  ex := by simp [Tracked.boot]
  exEmpty := fun _ => by
    rw [Tracked.boot, h.stageEX]
    exact zero_bubble
  mem := by simp [Tracked.boot]
  memEmpty := fun _ => by
    rw [Tracked.boot, h.stageMEM]
    exact zero_bubble

/-- What `EX` passes on is live exactly when an un-flushed instruction
leaves. -/
theorem Shape.stageRegNext {t : Tracked} (hShape : Shape t) (x : Floating) :
    (t.leaves = true → Decoded (t.cpu.stageRegNext x)) ∧
      (t.leaves = false → Bubble (t.cpu.stageRegNext x)) := by
  rw [Cpu.stageRegNext]
  constructor
  · intro hLeaves
    rw [leaves, Bool.and_eq_true, Bool.and_eq_true, beq_iff_eq,
      Bool.not_eq_true'] at hLeaves
    rw [if_pos ⟨hLeaves.1.2, hLeaves.2⟩]
    exact exStage_decoded (hShape.id hLeaves.1.1) _ _
  · intro hLeaves
    split
    · rename_i hOpen
      have hEmpty : t.idLive = false := by
        simpa [leaves, hOpen.1, hOpen.2] using hLeaves
      rw [Cpu.exIn, hShape.idEmpty hEmpty]
      exact exStage_zero_bubble _ _
    · exact stageRegFlush_bubble x

theorem Shape.step {t : Tracked} (hShape : Shape t) (x : Floating)
    (i : Ports) : Shape (t.step x i) := by
  cases hLoad : t.cpu.stageRegLoad i with
  | false =>
      constructor <;> simp only [Tracked.step, Cpu.clock_hold hLoad, hLoad]
      · exact hShape.id
      · exact hShape.idEmpty
      · exact hShape.ex
      · exact hShape.exEmpty
      · exact hShape.mem
      · exact hShape.memEmpty
  | true =>
      obtain ⟨hNext, hNextEmpty⟩ := hShape.stageRegNext x
      constructor <;> simp only [Tracked.step, Cpu.clock, hLoad, if_true,
        Bool.true_and]
      · cases hStall : t.cpu.stall
        · exact fun _ => rfl
        · exact hShape.id
      · cases hStall : t.cpu.stall
        · intro h; cases h
        · exact hShape.idEmpty
      · exact hNext
      · exact hNextEmpty
      · exact hShape.ex
      · exact fun h => (hShape.exEmpty h).setMemRdata _

end Tracked

end CompE.Mp3
