import CompE.Mp3.Encoding
import CompE.Library.Machine

/-!
# The multicycle processor

`control` is a state machine of twenty states that fetches an instruction into
the memory data register and then spends one or a few states on it; `datapath`
has the registers and the muxes.  The instruction register cuts out the same
fields as the pipeline's splitter, and the ALU has the same operations, so both
are taken from there.

The memory answers `mem_read` and `mem_write` after any number of cycles.
-/

namespace CompE.Mp1

open CompE.Library
open CompE.Library.Rv32i (Memory wordAt portBytes)
open CompE.Mp3 (Word RegNo RegFile AluOps PcmuxSel AlumuxSel CmpmuxSel alu opcode
  funct3 iImm sImm bImm uImm jImm rd rs2)

/-! ## `control` -/

/-- The states of `control`. -/
inductive CtlState where
  | fetch1
  | fetch2
  | fetch3
  | decode
  | slti
  | sltiu
  | srai
  | sImm
  | br
  | lwCalcAddr
  | ldr1
  | ldr2
  | swCalcAddr
  | str1
  | str2
  | sAuipc
  | sLui
  | sReg
  | sJal
  | sJalr
  deriving DecidableEq, Repr

/-- `marmux_sel_t`. -/
inductive MarmuxSel where
  | pcOut
  | aluOut
  deriving DecidableEq, Repr

/-- `regfilemux_sel_t`. -/
inductive RegfilemuxSel where
  | aluOut
  | brEn
  | uImm
  | lw
  | pcPlus4
  | lb
  | lbu
  | lh
  | lhu
  deriving DecidableEq, Repr

/-- `alumux1_sel_t`. -/
inductive Alumux1Sel where
  | rs1Out
  | pcOut
  deriving DecidableEq, Repr

/-- The outputs of `control`. -/
structure Controls where
  pcmuxSel : PcmuxSel
  marmuxSel : MarmuxSel
  regfilemuxSel : RegfilemuxSel
  alumux1Sel : Alumux1Sel
  alumux2Sel : AlumuxSel
  cmpmuxSel : CmpmuxSel
  aluop : AluOps
  cmpop : BitVec 3
  loadPc : Bool
  loadIr : Bool
  loadRegfile : Bool
  loadMar : Bool
  loadMdr : Bool
  loadDataOut : Bool
  memRead : Bool
  memWrite : Bool
  memByteEnable : BitVec 4

/-- `set_defaults`. -/
def setDefaults (f : BitVec 3) : Controls where
  pcmuxSel := .pcPlus4
  marmuxSel := .pcOut
  regfilemuxSel := .aluOut
  alumux1Sel := .rs1Out
  alumux2Sel := .iImm
  cmpmuxSel := .rs2Out
  aluop := .ofFunct3 f
  cmpop := f
  loadPc := false
  loadIr := false
  loadRegfile := false
  loadMar := false
  loadMdr := false
  loadDataOut := false
  memRead := false
  memWrite := false
  memByteEnable := 0b1111#4

namespace Controls

def withPC (c : Controls) (sel : PcmuxSel) : Controls :=
  { c with loadPc := true, pcmuxSel := sel }

def withRegfile (c : Controls) (sel : RegfilemuxSel) : Controls :=
  { c with loadRegfile := true, regfilemuxSel := sel }

def withMAR (c : Controls) (sel : MarmuxSel) : Controls :=
  { c with loadMar := true, marmuxSel := sel }

def withMDR (c : Controls) : Controls :=
  { c with loadMdr := true, memRead := true }

/-- `setALU` with an operation. -/
def withALU (c : Controls) (sel1 : Alumux1Sel) (sel2 : AlumuxSel)
    (op : AluOps) : Controls :=
  { c with alumux1Sel := sel1, alumux2Sel := sel2, aluop := op }

def withCMP (c : Controls) (sel : CmpmuxSel) (op : BitVec 3) : Controls :=
  { c with cmpmuxSel := sel, cmpop := op }

end Controls

/-- `branch_funct3_t`. -/
def blt : BitVec 3 := 0b100#3

def bltu : BitVec 3 := 0b110#3

/-- The byte enables of `str1`. -/
def storeMask (f : BitVec 3) (lsbCheck : BitVec 2) : BitVec 4 :=
  if f = 0b000#3 then 0b0001#4 <<< lsbCheck
  else if f = 0b001#3 then if lsbCheck = 0b10#2 then 0b1100#4 else 0b0011#4
  else 0b1111#4

/-- `loadRegfile` of `ldr2`; nothing for a width that is not listed. -/
def loadSel (f : BitVec 3) : Option RegfilemuxSel :=
  if f = 0b010#3 then some .lw
  else if f = 0b001#3 then some .lh
  else if f = 0b101#3 then some .lhu
  else if f = 0b000#3 then some .lb
  else if f = 0b100#3 then some .lbu
  else none

/-- `state_actions`. -/
def stateActions (st : CtlState) (f : BitVec 3) (brEn : Bool)
    (lsbCheck : BitVec 2) : Controls :=
  let c := setDefaults f
  match st with
  | .fetch1 => c.withMAR .pcOut
  | .fetch2 => c.withMDR
  | .fetch3 => { c with loadIr := true }
  | .decode => c
  | .slti =>
      (((c.withRegfile .brEn).withPC .pcPlus4).withCMP .iImm blt).withALU
        .rs1Out .iImm c.aluop
  | .sltiu =>
      (((c.withRegfile .brEn).withPC .pcPlus4).withCMP .iImm bltu).withALU
        .rs1Out .iImm c.aluop
  | .srai =>
      ((c.withRegfile .aluOut).withPC .pcPlus4).withALU .rs1Out .iImm .aluSra
  | .sImm =>
      ((c.withRegfile .aluOut).withPC .pcPlus4).withALU .rs1Out .iImm
        (.ofFunct3 f)
  | .br =>
      (c.withPC (if brEn then .aluOut else .pcPlus4)).withALU .pcOut .bImm
        .aluAdd
  | .lwCalcAddr => (c.withALU .rs1Out .iImm .aluAdd).withMAR .aluOut
  | .ldr1 => c.withMDR
  | .ldr2 =>
      match loadSel f with
      | some sel => (c.withRegfile sel).withPC .pcPlus4
      | none => c.withPC .pcPlus4
  | .swCalcAddr =>
      { (c.withALU .rs1Out .sImm .aluAdd).withMAR .aluOut with
        loadDataOut := true }
  | .str1 =>
      { c with memWrite := true, memByteEnable := storeMask f lsbCheck }
  | .str2 => c.withPC .pcPlus4
  | .sAuipc =>
      ((c.withALU .pcOut .uImm .aluAdd).withRegfile .aluOut).withPC .pcPlus4
  | .sLui => (c.withRegfile .uImm).withPC .pcPlus4
  | .sReg =>
      ((c.withALU .rs1Out .rs2Out (.ofFunct3 f)).withRegfile .aluOut).withPC
        .pcPlus4
  | .sJal =>
      ((c.withALU .pcOut .jImm .aluAdd).withRegfile .pcPlus4).withPC .aluOut
  | .sJalr =>
      ((c.withALU .rs1Out .iImm .aluAdd).withRegfile .pcPlus4).withPC .aluMod2

/-- The state behind `decode`. -/
def dispatch (w : Word) : CtlState :=
  match opcode w with
  | .opImm =>
      if funct3 w = 0b010#3 then .slti
      else if funct3 w = 0b011#3 then .sltiu
      else if funct3 w = 0b101#3 then
        if (Rv32i.fieldFunct7 w).getLsbD 5 then .srai else .sImm
      else .sImm
  | .opBr => .br
  | .opLoad => .lwCalcAddr
  | .opStore => .swCalcAddr
  | .opAuipc => .sAuipc
  | .opLui => .sLui
  | .opReg => .sReg
  | .opJal => .sJal
  | .opJalr => .sJalr
  | .opCsr | .other => .fetch1

/-- `next_state_logic`. -/
def nextState (st : CtlState) (ir : Word) (memResp : Bool) : CtlState :=
  match st with
  | .fetch1 => .fetch2
  | .fetch2 => if memResp then .fetch3 else .fetch2
  | .fetch3 => .decode
  | .decode => dispatch ir
  | .lwCalcAddr => .ldr1
  | .ldr1 => if memResp then .ldr2 else .ldr1
  | .swCalcAddr => .str1
  | .str1 => if memResp then .str2 else .str1
  | _ => .fetch1

/-! ## `datapath` -/

/-- The processor's registers, and the memory it is connected to. -/
structure System where
  state : CtlState
  ir : Word
  mdr : Word
  memDataOut : Word
  mar : Word
  pc : Word
  regs : RegFile
  mem : Memory

/-- One cycle of the memory; `bus` is on `mem_rdata` when no read is
answered. -/
structure MemPort where
  memResp : Bool
  bus : Word

/-- `cmp`.  The two numbers that are not listed leave the output as it was; it
is not looked at then. -/
def cmp (cmpop : BitVec 3) (a b : Word) : Bool :=
  if cmpop = 0b000#3 then a == b
  else if cmpop = 0b001#3 then a != b
  else if cmpop = 0b100#3 then a.slt b
  else if cmpop = 0b101#3 then b.sle a
  else if cmpop = 0b110#3 then a.ult b
  else if cmpop = 0b111#3 then b.ule a
  else false

namespace System

section Signals

variable (s : System) (p : MemPort)

def lsbCheck : BitVec 2 := s.mar.extractLsb' 0 2

def rs1Out : Word := s.regs.read (Rv32i.fieldRs1 s.ir)

def rs2Out : Word := s.regs.read (rs2 s.ir)

def cmpmuxOut (sel : CmpmuxSel) : Word :=
  match sel with
  | .rs2Out => s.rs2Out
  | .iImm => iImm s.ir

/-- `br_en`.  What it compares does not depend on it. -/
def brEn : Bool :=
  let c := stateActions s.state (funct3 s.ir) false s.lsbCheck
  cmp c.cmpop s.rs1Out (s.cmpmuxOut c.cmpmuxSel)

def controls : Controls :=
  stateActions s.state (funct3 s.ir) s.brEn s.lsbCheck

def alumux1Out (sel : Alumux1Sel) : Word :=
  match sel with
  | .rs1Out => s.rs1Out
  | .pcOut => s.pc

def alumux2Out (sel : AlumuxSel) : Word :=
  match sel with
  | .iImm => iImm s.ir
  | .uImm => uImm s.ir
  | .bImm => bImm s.ir
  | .sImm => sImm s.ir
  | .jImm => jImm s.ir
  | .rs2Out => s.rs2Out

def aluOut : Word :=
  alu s.controls.aluop (s.alumux1Out s.controls.alumux1Sel)
    (s.alumux2Out s.controls.alumux2Sel)

def pcmuxOut (sel : PcmuxSel) : Word :=
  match sel with
  | .pcPlus4 => s.pc + 4#32
  | .aluOut => s.aluOut
  | .aluMod2 => s.aluOut &&& 0xFFFFFFFE#32

def marmuxOut (sel : MarmuxSel) : Word :=
  match sel with
  | .pcOut => s.pc
  | .aluOut => s.aluOut

/-- The byte of the memory data register that `lsb_check` selects. -/
def mdrByte : BitVec 8 := s.mdr.extractLsb' (8 * s.lsbCheck.toNat) 8

def mdrHalf : BitVec 16 :=
  if s.lsbCheck ≠ 0b00#2 then s.mdr.extractLsb' 16 16 else s.mdr.extractLsb' 0 16

def regfilemuxOut (sel : RegfilemuxSel) : Word :=
  match sel with
  | .aluOut => s.aluOut
  | .brEn => if s.brEn then 1#32 else 0#32
  | .uImm => uImm s.ir
  | .lw => s.mdr
  | .pcPlus4 => s.pc + 4#32
  | .lb => s.mdrByte.signExtend 32
  | .lbu => s.mdrByte.setWidth 32
  | .lh => s.mdrHalf.signExtend 32
  | .lhu => s.mdrHalf.setWidth 32

/-- `mem_wdata`. -/
def memWdata : Word := s.memDataOut <<< (8 * s.lsbCheck.toNat)

/-- `mem_rdata`. -/
def memRdata : Word :=
  if p.memResp && s.controls.memRead then wordAt s.mem s.mar else p.bus

/-- One clock edge outside reset. -/
def clock : System :=
  let c := s.controls
  { state := nextState s.state s.ir p.memResp
    ir := if c.loadIr then s.mdr else s.ir
    mdr := if c.loadMdr then s.memRdata p else s.mdr
    memDataOut := if c.loadDataOut then s.rs2Out else s.memDataOut
    mar := if c.loadMar then s.marmuxOut c.marmuxSel else s.mar
    pc := if c.loadPc then s.pcmuxOut c.pcmuxSel else s.pc
    regs :=
      if c.loadRegfile && rd s.ir != 0#5 then
        Function.update s.regs (rd s.ir) (s.regfilemuxOut c.regfilemuxSel)
      else s.regs
    mem :=
      if p.memResp && c.memWrite then
        Rv32i.storeBytes s.mem (portBytes s.mar c.memByteEnable s.memWdata)
      else s.mem }

end Signals

/-- What the instruction set speaks of. -/
def arch (s : System) : Rv32i.State where
  regs := s.regs
  pc := s.pc
  mem := s.mem

end System

/-- The processor over its clock cycles, with any memory delays. -/
def mp1Machine : Machine System MemPort Unit where
  step := System.clock
  emit := fun _ _ => []
  legal := fun _ _ => True

end CompE.Mp1
