import CompE.Mp3.Stages
import CompE.Library.Rv32i

/-!
# Fields and operations against the instruction set

The opcode names of `rv32i_types` tell the instruction classes apart as the
instruction set's decoder does (`decode_eq`), and `alu_ops'(funct3)` is the
operation of `funct3` except for the comparisons, whose numbers the ALU uses
for other operations (`alu_ofFunct3`).
-/

namespace CompE.Mp3

open CompE.Library
open CompE.Library.Rv32i (Instr)

/-- The instruction set's decoder, by the name of the opcode. -/
theorem decode_eq (w : Word) : Rv32i.decode w =
    match opcode w with
    | .opLui => some (.lui (rd w) (uImm w))
    | .opAuipc => some (.auipc (rd w) (uImm w))
    | .opJal => some (.jal (rd w) (jImm w))
    | .opJalr =>
        if funct3 w = 0b000#3 then
          some (.jalr (rd w) (Rv32i.fieldRs1 w) (iImm w))
        else none
    | .opBr => (Rv32i.branchOp (funct3 w)).map fun op =>
        .branch op (Rv32i.fieldRs1 w) (rs2 w) (bImm w)
    | .opLoad => (Rv32i.loadOp (funct3 w)).map fun op =>
        .load op (rd w) (Rv32i.fieldRs1 w) (iImm w)
    | .opStore => (Rv32i.storeOp (funct3 w)).map fun op =>
        .store op (Rv32i.fieldRs1 w) (rs2 w) (sImm w)
    | .opImm => (Rv32i.immOp (funct3 w) (Rv32i.fieldFunct7 w)).map fun op =>
        .opImm op (rd w) (Rv32i.fieldRs1 w) (iImm w)
    | .opReg => (Rv32i.regOp (funct3 w) (Rv32i.fieldFunct7 w)).map fun op =>
        .opReg op (rd w) (Rv32i.fieldRs1 w) (rs2 w)
    | .opCsr | .other => none := by
  simp only [Rv32i.decode, opcode]
  generalize w.extractLsb' 0 7 = o
  by_cases hLui : o = 0b0110111#7
  · rw [if_pos hLui, if_pos hLui]
    rfl
  rw [if_neg hLui, if_neg hLui]
  by_cases hAuipc : o = 0b0010111#7
  · rw [if_pos hAuipc, if_pos hAuipc]
    rfl
  rw [if_neg hAuipc, if_neg hAuipc]
  by_cases hJal : o = 0b1101111#7
  · rw [if_pos hJal, if_pos hJal]
    rfl
  rw [if_neg hJal, if_neg hJal]
  by_cases hJalr : o = 0b1100111#7
  · rw [if_pos hJalr, if_pos hJalr]
    rfl
  rw [if_neg hJalr, if_neg hJalr]
  by_cases hBr : o = 0b1100011#7
  · rw [if_pos hBr, if_pos hBr]
    rfl
  rw [if_neg hBr, if_neg hBr]
  by_cases hLoad : o = 0b0000011#7
  · rw [if_pos hLoad, if_pos hLoad]
    rfl
  rw [if_neg hLoad, if_neg hLoad]
  by_cases hStore : o = 0b0100011#7
  · rw [if_pos hStore, if_pos hStore]
    rfl
  rw [if_neg hStore, if_neg hStore]
  by_cases hImm : o = 0b0010011#7
  · rw [if_pos hImm, if_pos hImm]
    rfl
  rw [if_neg hImm, if_neg hImm]
  by_cases hReg : o = 0b0110011#7
  · rw [if_pos hReg, if_pos hReg]
    rfl
  rw [if_neg hReg, if_neg hReg]
  by_cases hCsr : o = 0b1110011#7
  · rw [if_pos hCsr]
  · rw [if_neg hCsr]

theorem funct3_cases (f : BitVec 3) :
    f = 0b000#3 ∨ f = 0b001#3 ∨ f = 0b010#3 ∨ f = 0b011#3 ∨ f = 0b100#3 ∨
      f = 0b101#3 ∨ f = 0b110#3 ∨ f = 0b111#3 := by
  revert f
  decide

/-- The cast from `funct3` gives the operation, but for `slt` and `sltu`. -/
theorem alu_ofFunct3 {f : BitVec 3} (h : isSetLess f = false) (a b : Word) :
    alu (.ofFunct3 f) a b = (Rv32i.plainOp f).eval a b := by
  rcases funct3_cases f with rfl | rfl | rfl | rfl | rfl | rfl | rfl | rfl
  · rfl
  · rfl
  · exact absurd h (by decide)
  · exact absurd h (by decide)
  · rfl
  · rfl
  · rfl
  · rfl

/-- Bit 30 of the instruction is the bit of `funct7` that tells the right
shifts apart. -/
theorem getLsbD_30 (w : Word) :
    w.getLsbD 30 = (Rv32i.fieldFunct7 w).getLsbD 5 := by
  simp [Rv32i.fieldFunct7]

/-- It is also a bit of the immediates. -/
theorem getLsbD_30_iImm (w : Word) : w.getLsbD 30 = (iImm w).getLsbD 10 := by
  rw [iImm, BitVec.getLsbD_signExtend]
  simp

theorem getLsbD_30_uImm (w : Word) : w.getLsbD 30 = (uImm w).getLsbD 30 := by
  rw [uImm, BitVec.getLsbD_append]
  simp

theorem funct3_uImm (w : Word) : funct3 w = (uImm w).extractLsb' 12 3 := by
  rw [funct3, uImm]
  ext i hi
  simp
  grind

/-- Where an addition does for a subtraction. -/
theorem add_eq_sub_iff (a b : Word) :
    a + b = a - b ↔ b = 0#32 ∨ b = 0x80000000#32 := by
  have hNeg : a + b = a - b ↔ b = -b := by
    rw [BitVec.sub_eq_add_neg, BitVec.add_right_inj]
  have hLt := b.isLt
  rw [hNeg, ← BitVec.toNat_inj, ← BitVec.toNat_inj, ← BitVec.toNat_inj,
    BitVec.toNat_neg]
  simp only [BitVec.toNat_ofNat]
  omega

end CompE.Mp3
