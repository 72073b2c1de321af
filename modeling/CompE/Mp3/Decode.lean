/-!
# Instructions and their control words

`instruction_splitter` cuts the fields out of an instruction, and
`control_ROM` maps its opcode and `funct3` to the control word that travels
down the pipeline in the stage registers.
-/

namespace CompE.Mp3

/-- `rv32i_word`. -/
abbrev Word := BitVec 32

/-- `rv32i_reg`. -/
abbrev RegNo := BitVec 5

/-! ## `rv32i_types` -/

/-- `rv32i_opcode`; `other` stands for the encodings without a name. -/
inductive Opcode where
  | opLui
  | opAuipc
  | opJal
  | opJalr
  | opBr
  | opLoad
  | opStore
  | opImm
  | opReg
  | opCsr
  | other
  deriving DecidableEq, Repr

/-- `alu_ops`. -/
inductive AluOps where
  | aluAdd
  | aluSll
  | aluSra
  | aluSub
  | aluXor
  | aluSrl
  | aluOr
  | aluAnd
  deriving DecidableEq, Repr

/-- The cast `alu_ops'(funct3)`. -/
def AluOps.ofFunct3 (f : BitVec 3) : AluOps :=
  if f = 0b000#3 then .aluAdd
  else if f = 0b001#3 then .aluSll
  else if f = 0b010#3 then .aluSra
  else if f = 0b011#3 then .aluSub
  else if f = 0b100#3 then .aluXor
  else if f = 0b101#3 then .aluSrl
  else if f = 0b110#3 then .aluOr
  else .aluAnd

/-- `pcmux_sel_t`. -/
inductive PcmuxSel where
  | pcPlus4
  | aluOut
  | aluMod2
  deriving DecidableEq, Repr

/-- `alumux_sel_t`. -/
inductive AlumuxSel where
  | iImm
  | uImm
  | bImm
  | sImm
  | jImm
  | rs2Out
  deriving DecidableEq, Repr

/-- `cmpmux_sel_t`. -/
inductive CmpmuxSel where
  | iImm
  | rs2Out
  deriving DecidableEq, Repr

/-- `wbmux_sel_t`. -/
inductive WbmuxSel where
  | aluOut
  | brEn
  | pcPlus4
  | memRdata
  | pcPlusReg
  deriving DecidableEq, Repr

/-- `pcaddermux_sel_t`. -/
inductive PcaddermuxSel where
  | iImm
  | jImm
  | uImm
  | bImm
  deriving DecidableEq, Repr

/-- `rv32i_control_word`. -/
structure ControlWord where
  regfileLoad : Bool
  aluop : AluOps
  funct3 : BitVec 3
  alumuxSel : AlumuxSel
  pcmuxSel : PcmuxSel
  cmpmuxSel : CmpmuxSel
  pcaddermuxSel : PcaddermuxSel
  memRead : Bool
  memWrite : Bool
  wbmuxSel : WbmuxSel
  deriving DecidableEq, Repr

/-- The control word whose bits are all zero, as after reset. -/
def ControlWord.zero : ControlWord where
  regfileLoad := false
  aluop := .aluAdd
  funct3 := 0b000#3
  alumuxSel := .iImm
  pcmuxSel := .pcPlus4
  cmpmuxSel := .iImm
  pcaddermuxSel := .iImm
  memRead := false
  memWrite := false
  wbmuxSel := .aluOut

/-! ## `instruction_splitter` -/

section Splitter

variable (instruction : Word)

def funct3 : BitVec 3 := instruction.extractLsb' 12 3

def opcode : Opcode :=
  let o := instruction.extractLsb' 0 7
  if o = 0b0110111#7 then .opLui
  else if o = 0b0010111#7 then .opAuipc
  else if o = 0b1101111#7 then .opJal
  else if o = 0b1100111#7 then .opJalr
  else if o = 0b1100011#7 then .opBr
  else if o = 0b0000011#7 then .opLoad
  else if o = 0b0100011#7 then .opStore
  else if o = 0b0010011#7 then .opImm
  else if o = 0b0110011#7 then .opReg
  else if o = 0b1110011#7 then .opCsr
  else .other

def iImm : Word := (instruction.extractLsb' 20 12).signExtend 32

def sImm : Word :=
  (instruction.extractLsb' 25 7 ++ instruction.extractLsb' 7 5).signExtend 32

def bImm : Word :=
  (instruction.extractLsb' 31 1 ++ instruction.extractLsb' 7 1 ++
    instruction.extractLsb' 25 6 ++ instruction.extractLsb' 8 4 ++
      0#1).signExtend 32

def uImm : Word := instruction.extractLsb' 12 20 ++ 0#12

def jImm : Word :=
  (instruction.extractLsb' 31 1 ++ instruction.extractLsb' 12 8 ++
    instruction.extractLsb' 20 1 ++ instruction.extractLsb' 21 10 ++
      0#1).signExtend 32

/-- `rs1`, which is forced to `x0` for `lui`. -/
def rs1 : RegNo :=
  if opcode instruction = .opLui then 0#5 else instruction.extractLsb' 15 5

def rs2 : RegNo := instruction.extractLsb' 20 5

def rd : RegNo := instruction.extractLsb' 7 5

end Splitter

/-! ## `control_ROM` -/

/-- The control word before the opcode is looked at. -/
def ControlWord.default (f : BitVec 3) : ControlWord where
  regfileLoad := false
  aluop := .aluAdd
  funct3 := f
  alumuxSel := .rs2Out
  pcmuxSel := .pcPlus4
  cmpmuxSel := .rs2Out
  pcaddermuxSel := .uImm
  memRead := false
  memWrite := false
  wbmuxSel := .aluOut

/-- `funct3` of `slt` and `sltu`. -/
def isSetLess (f : BitVec 3) : Bool := f == 0b010#3 || f == 0b011#3

/-- `control_ROM`. -/
def controlROM (op : Opcode) (f : BitVec 3) : ControlWord :=
  let ctrl := ControlWord.default f
  match op with
  | .opLui => { ctrl with regfileLoad := true, alumuxSel := .uImm }
  | .opAuipc =>
      { ctrl with
        regfileLoad := true
        pcaddermuxSel := .uImm
        wbmuxSel := .pcPlusReg }
  | .opJal =>
      { ctrl with
        regfileLoad := true
        pcaddermuxSel := .jImm
        pcmuxSel := .aluOut
        wbmuxSel := .pcPlus4 }
  | .opJalr =>
      { ctrl with
        regfileLoad := true
        alumuxSel := .iImm
        pcmuxSel := .aluMod2
        wbmuxSel := .pcPlus4 }
  | .opBr =>
      { ctrl with
        pcaddermuxSel := .bImm
        pcmuxSel := .pcPlus4
        cmpmuxSel := .rs2Out }
  | .opLoad =>
      { ctrl with
        regfileLoad := true
        alumuxSel := .iImm
        wbmuxSel := .memRdata
        memRead := true }
  | .opStore => { ctrl with alumuxSel := .sImm, memWrite := true }
  | .opImm =>
      { ctrl with
        regfileLoad := true
        aluop := .ofFunct3 f
        alumuxSel := .iImm
        wbmuxSel := if isSetLess f then .brEn else .aluOut
        cmpmuxSel := if isSetLess f then .iImm else .rs2Out }
  | .opReg =>
      { ctrl with
        regfileLoad := true
        aluop := .ofFunct3 f
        alumuxSel := .rs2Out
        wbmuxSel := if isSetLess f then .brEn else .aluOut }
  | .opCsr | .other => ctrl

/-- The control word of an instruction. -/
def control (instruction : Word) : ControlWord :=
  controlROM (opcode instruction) (funct3 instruction)

/-- Exactly the loads write back from memory, and exactly they read it. -/
theorem control_memRead (instruction : Word) :
    (control instruction).memRead =
      decide ((control instruction).wbmuxSel = .memRdata) := by
  rw [control]
  cases opcode instruction with
  | opImm =>
      cases h : isSetLess (funct3 instruction) <;>
        simp [controlROM, ControlWord.default, h]
  | opReg =>
      cases h : isSetLess (funct3 instruction) <;>
        simp [controlROM, ControlWord.default, h]
  | _ => simp [controlROM, ControlWord.default]

/-- The jumps are the instructions whose control word redirects the PC. -/
theorem control_pcmuxSel (instruction : Word) :
    (control instruction).pcmuxSel =
      if opcode instruction = .opJal then .aluOut
      else if opcode instruction = .opJalr then .aluMod2
      else .pcPlus4 := by
  rw [control]
  cases opcode instruction <;> rfl

/-- A branch or jump does not write back from memory. -/
theorem control_wbmuxSel_of_redirect {instruction : Word}
    (h : opcode instruction = .opBr ∨ opcode instruction = .opJal ∨
      opcode instruction = .opJalr) :
    (control instruction).wbmuxSel ≠ .memRdata := by
  rw [control]
  rcases h with h | h | h <;> rw [h] <;>
    simp [controlROM, ControlWord.default]

end CompE.Mp3
