import CompE.Mp3.Decode

/-!
# The combinational stages

`regfile`, `alu`, `cmp`, the forwarding unit and the logic of the `ID`, `EX`,
`MEM` and `WB` stages, each as a function of the stage registers it reads.

Some fields of a stage register are driven by no assignment: `ID` leaves the
results of later stages open, and the bubble that `EX` inserts leaves open
everything but its control word.  Their values are a parameter, `Floating`.
-/

namespace CompE.Mp3

/-! ## Stage registers -/

/-- `stage_reg_t`. -/
structure StageReg where
  controlWord : ControlWord
  pcReg : Word
  aluOut : Word
  rs1Out : Word
  rs2Out : Word
  instruction : Word
  pcPlusReg : Word
  brEn : Bool
  memRdata : Word

/-- A stage register after reset. -/
def StageReg.zero : StageReg where
  controlWord := .zero
  pcReg := 0#32
  aluOut := 0#32
  rs1Out := 0#32
  rs2Out := 0#32
  instruction := 0#32
  pcPlusReg := 0#32
  brEn := false
  memRdata := 0#32

/-- The values of the fields that nothing drives, in the register that `ID`
fills and in `stage_reg_flush`. -/
structure Floating where
  id : StageReg
  flush : StageReg

/-- `stage_reg_flush`: `addi x0, x0, 0` with every strobe off. -/
def stageRegFlush (x : Floating) : StageReg :=
  { x.flush with
    controlWord := {
      regfileLoad := false
      aluop := .aluAdd
      funct3 := 0b000#3
      alumuxSel := .rs2Out
      pcmuxSel := .pcPlus4
      cmpmuxSel := .rs2Out
      pcaddermuxSel := .uImm
      memRead := false
      memWrite := false
      wbmuxSel := .aluOut }
    instruction := 0x00000013#32
    brEn := false }

/-- The register `s` holds an instruction that writes register `r`. -/
def StageReg.writes (s : StageReg) (r : RegNo) : Bool :=
  rd s.instruction == r && rd s.instruction != 0#5 && s.controlWord.regfileLoad

theorem StageReg.writes_eq_true {s : StageReg} {r : RegNo} :
    s.writes r = true ↔
      rd s.instruction = r ∧ r ≠ 0#5 ∧ s.controlWord.regfileLoad = true := by
  simp only [writes, Bool.and_eq_true, beq_iff_eq, bne_iff_ne, ne_eq, and_assoc]
  constructor
  · rintro ⟨rfl, h⟩; exact ⟨rfl, h⟩
  · rintro ⟨rfl, h⟩; exact ⟨rfl, h⟩

@[simp] theorem StageReg.writes_zero (s : StageReg) : s.writes 0#5 = false := by
  rw [Bool.eq_false_iff]
  intro h
  exact (writes_eq_true.1 h).2.1 rfl

/-! ## `regfile` -/

/-- The 32 registers. -/
abbrev RegFile := RegNo → Word

namespace RegFile

/-- The read value outside the write bypass: `x0` reads zero. -/
def read (f : RegFile) (r : RegNo) : Word := if r = 0#5 then 0#32 else f r

/-- The clock edge of `regfile`. -/
def write (f : RegFile) (load : Bool) (dest : RegNo) (data : Word) : RegFile :=
  fun r => if load && dest != 0#5 && r == dest then data else f r

/-- A read port with its write bypass. -/
def readPort (f : RegFile) (load : Bool) (dest : RegNo) (data : Word)
    (src : RegNo) : Word :=
  if dest = src ∧ dest ≠ 0#5 ∧ load = true then data else f.read src

@[simp] theorem read_zero (f : RegFile) : f.read 0#5 = 0#32 := by simp [read]

/-- A read port sees the register file after the clock edge. -/
theorem readPort_eq (f : RegFile) (load : Bool) (dest : RegNo) (data : Word)
    (src : RegNo) :
    f.readPort load dest data src = (f.write load dest data).read src := by
  by_cases hSrc : src = 0#5
  · subst hSrc
    have h : ¬ (dest = 0#5 ∧ dest ≠ 0#5 ∧ load = true) := fun h => h.2.1 h.1
    rw [readPort, if_neg h, read_zero, read_zero]
  · by_cases h : dest = src ∧ dest ≠ 0#5 ∧ load = true
    · obtain ⟨rfl, hDest, rfl⟩ := h
      simp [readPort, read, write, hDest]
    · have hKeep : (load && dest != 0#5 && src == dest) = false := by
        rw [Bool.eq_false_iff]
        intro hWrite
        simp only [Bool.and_eq_true, bne_iff_ne, beq_iff_eq] at hWrite
        exact h ⟨hWrite.2.symm, hWrite.1.2, hWrite.1.1⟩
      simp [readPort, h, read, write, hKeep]

/-- Writing the same value again changes nothing. -/
@[simp] theorem write_write (f : RegFile) (load : Bool) (dest : RegNo)
    (data : Word) :
    (f.write load dest data).write load dest data = f.write load dest data := by
  funext r
  show (if _ then _ else if _ then _ else _) = if _ then _ else _
  split <;> rfl

end RegFile

/-! ## `alu` and `cmp` -/

def alu (aluop : AluOps) (a b : Word) : Word :=
  match aluop with
  | .aluAdd => a + b
  | .aluSll => a <<< b.extractLsb' 0 5
  | .aluSra => a.sshiftRight' (b.extractLsb' 0 5)
  | .aluSub => a - b
  | .aluXor => a ^^^ b
  | .aluSrl => a >>> b.extractLsb' 0 5
  | .aluOr => a ||| b
  | .aluAnd => a &&& b

/-- `cmp`, with `branch_funct3_t'(funct3)` as the operation. -/
def cmp (cmpop : BitVec 3) (a b : Word) : Bool :=
  if cmpop = 0b000#3 then a == b
  else if cmpop = 0b001#3 then a != b
  else if cmpop = 0b010#3 then a.slt b
  else if cmpop = 0b011#3 then a.ult b
  else if cmpop = 0b100#3 then a.slt b
  else if cmpop = 0b101#3 then b.sle a
  else if cmpop = 0b110#3 then a.ult b
  else b.ule a

/-! ## `ID` -/

/-- `stage_reg_in` of `ID`. -/
def idStage (x : Floating) (pc instruction rs1Out rs2Out : Word) : StageReg :=
  { x.id with
    pcReg := pc
    controlWord := control instruction
    rs1Out := rs1Out
    rs2Out := rs2Out
    instruction := instruction }

/-! ## `forwarding_unit` -/

/-- The opcodes for which the second operand is forwarded from `MEM`. -/
def forwardsRs2 (op : Opcode) : Bool :=
  op == .opBr || op == .opReg || op == .opStore

/-- The value that `MEM` can forward: all but a load's. -/
def memForward (mem : StageReg) (latched : Word) : Word :=
  match mem.controlWord.wbmuxSel with
  | .aluOut => mem.aluOut
  | .brEn => if mem.brEn then 1#32 else 0#32
  | .pcPlus4 => mem.pcReg + 4#32
  | .pcPlusReg => mem.pcPlusReg
  | .memRdata => latched

/-- One operand of the forwarding unit: `MEM` first, if it may, then `WB`. -/
def forward (mem wb : StageReg) (regfileData : Word) (fromMem : Bool)
    (r : RegNo) (latched : Word) : Word :=
  if mem.writes r && fromMem then memForward mem latched
  else if wb.writes r then regfileData
  else latched

/-- `load_RAW_stall`: `MEM` holds a load whose result an operand needs. -/
def loadRawStall (ex mem : StageReg) : Bool :=
  (mem.writes (rs1 ex.instruction) ||
      mem.writes (rs2 ex.instruction) && forwardsRs2 (opcode ex.instruction)) &&
    mem.controlWord.wbmuxSel == .memRdata

/-! ## `EX` -/

/-- `ALUMUX`. -/
def aluMuxOut (sel : AlumuxSel) (instruction rs2Out : Word) : Word :=
  match sel with
  | .iImm => iImm instruction
  | .uImm => uImm instruction
  | .bImm => bImm instruction
  | .sImm => sImm instruction
  | .jImm => jImm instruction
  | .rs2Out => rs2Out

/-- The operation of the ALU, with the special case for right shifts. -/
def aluOp (ctrl : ControlWord) (instruction : Word) : AluOps :=
  if ctrl.funct3 = 0b101#3 ∧ instruction.getLsbD 30 = true then .aluSra
  else ctrl.aluop

/-- `CMPMUX`. -/
def cmpMuxOut (sel : CmpmuxSel) (instruction rs2Out : Word) : Word :=
  match sel with
  | .iImm => iImm instruction
  | .rs2Out => rs2Out

/-- `PC_ADDER_MUX`. -/
def pcAdderMuxOut (sel : PcaddermuxSel) (instruction : Word) : Word :=
  match sel with
  | .iImm => iImm instruction
  | .jImm => jImm instruction
  | .uImm => uImm instruction
  | .bImm => bImm instruction

/-- `alu_out` of `EX`. -/
def exAluOut (ex : StageReg) (rs1Out rs2Out : Word) : Word :=
  alu (aluOp ex.controlWord ex.instruction) rs1Out
    (aluMuxOut ex.controlWord.alumuxSel ex.instruction rs2Out)

/-- `br_en` of `EX`. -/
def exBrEn (ex : StageReg) (rs1Out rs2Out : Word) : Bool :=
  cmp ex.controlWord.funct3 rs1Out
    (cmpMuxOut ex.controlWord.cmpmuxSel ex.instruction rs2Out)

/-- `SETTING_STAGE_REG_IN`. -/
def exStage (ex : StageReg) (rs1Out rs2Out : Word) : StageReg :=
  { ex with
    aluOut := exAluOut ex rs1Out rs2Out
    brEn := exBrEn ex rs1Out rs2Out
    pcPlusReg := ex.pcReg +
      pcAdderMuxOut ex.controlWord.pcaddermuxSel ex.instruction
    rs1Out := rs1Out
    rs2Out := rs2Out
    controlWord :=
      if opcode ex.instruction = .opBr then
        { ex.controlWord with
          pcmuxSel := if exBrEn ex rs1Out rs2Out then .aluOut else .pcPlus4 }
      else ex.controlWord }

/-- A taken branch or a jump is about to leave `EX`. -/
def redirects (ex : StageReg) (brEn : Bool) : Bool :=
  (opcode ex.instruction == .opBr && brEn) ||
    opcode ex.instruction == .opJal || opcode ex.instruction == .opJalr

/-- The next value of `flush_counter` on an advance. -/
def nextCounter (flushCounter : BitVec 2) (redirect : Bool) : BitVec 2 :=
  if flushCounter = 0b00#2 then if redirect then 0b01#2 else 0b00#2
  else if flushCounter = 0b01#2 then 0b10#2
  else if flushCounter = 0b10#2 then 0b11#2
  else 0b00#2

/-! ## `MEM` -/

/-- The request that `MEM` puts on the data port. -/
structure DataRequest where
  memRead : Bool
  memWrite : Bool
  memAddr : Word
  memWdata : Word
  memByteEnable : BitVec 4
  deriving DecidableEq

/-- The mask of a halfword, or none at an odd address. -/
def halfMask (a : BitVec 2) : BitVec 4 :=
  if a = 0b00#2 then 0b0011#4 else if a = 0b10#2 then 0b1100#4 else 0b0000#4

def wmask (f : BitVec 3) (a : BitVec 2) : BitVec 4 :=
  if f = 0b010#3 then 0b1111#4
  else if f = 0b001#3 then halfMask a
  else if f = 0b000#3 then 0b0001#4 <<< a
  else 0b0000#4

def rmask (f : BitVec 3) (a : BitVec 2) : BitVec 4 :=
  if f = 0b010#3 then 0b1111#4
  else if f = 0b001#3 ∨ f = 0b101#3 then halfMask a
  else if f = 0b000#3 ∨ f = 0b100#3 then 0b0001#4 <<< a
  else 0b0000#4

/-- The store data, moved to the addressed byte lanes. -/
def memWdata (f : BitVec 3) (a : BitVec 2) (rs2Out : Word) : Word :=
  if f = 0b001#3 then
    if a = 0b00#2 then (rs2Out.extractLsb' 0 16).setWidth 32
    else if a = 0b10#2 then rs2Out.extractLsb' 0 16 ++ 0#16
    else rs2Out
  else if f = 0b000#3 then
    (rs2Out.extractLsb' 0 8).setWidth 32 <<< (8 * a.toNat)
  else rs2Out

/-- The data port as `MEM` drives it. -/
def dataRequest (mem : StageReg) : DataRequest :=
  let f := mem.controlWord.funct3
  let a := mem.aluOut.extractLsb' 0 2
  { memRead := mem.controlWord.memRead
    memWrite := mem.controlWord.memWrite
    memAddr := mem.aluOut
    memWdata := memWdata f a mem.rs2Out
    memByteEnable :=
      match opcode mem.instruction with
      | .opLoad => rmask f a
      | .opStore => wmask f a
      | _ => 0b0000#4 }

/-! ## `WB` -/

/-- The loaded value, or `none` for the three widths the source does not
list. -/
def loadValue (f : BitVec 3) (a : BitVec 2) (memRdata : Word) : Option Word :=
  let byte := memRdata.extractLsb' (8 * a.toNat) 8
  let half :=
    if a = 0b10#2 then memRdata.extractLsb' 16 16 else memRdata.extractLsb' 0 16
  if f = 0b000#3 then some (byte.signExtend 32)
  else if f = 0b100#3 then some (byte.setWidth 32)
  else if f = 0b001#3 then some (half.signExtend 32)
  else if f = 0b101#3 then some (half.setWidth 32)
  else if f = 0b010#3 then some memRdata
  else none

/-- `regfile_data`.  Nothing assigns it for an unlisted load width, so it then
keeps the value it last had. -/
def regfileData (wb : StageReg) (held : Word) : Word :=
  match wb.controlWord.wbmuxSel with
  | .aluOut => wb.aluOut
  | .brEn => if wb.brEn then 1#32 else 0#32
  | .pcPlus4 => wb.pcReg + 4#32
  | .pcPlusReg => wb.pcPlusReg
  | .memRdata =>
      (loadValue wb.controlWord.funct3 (wb.aluOut.extractLsb' 0 2)
        wb.memRdata).getD held

/-- An unlisted load width keeps the value it kept. -/
@[simp] theorem regfileData_held (s : StageReg) (held : Word) :
    regfileData s (regfileData s held) = regfileData s held := by
  simp only [regfileData]
  split
  · rfl
  · rfl
  · rfl
  · rfl
  · cases loadValue s.controlWord.funct3 (s.aluOut.extractLsb' 0 2) s.memRdata <;>
      rfl

/-- What is forwarded from `MEM` is what `WB` will write, for all but loads. -/
theorem memForward_eq {mem : StageReg}
    (h : mem.controlWord.wbmuxSel ≠ .memRdata) (latched d held : Word) :
    memForward mem latched = regfileData { mem with memRdata := d } held := by
  rw [memForward, regfileData]
  cases hSel : mem.controlWord.wbmuxSel <;> simp_all

end CompE.Mp3
