import CompE.Mp3.Encoding
import CompE.Mp3.Pipeline

/-!
# One instruction through the stages

The logic of `ID`, `EX`, `MEM` and `WB` for one instruction with the right
operands, put together: the value for `rd`, the next PC and the use of data
memory (`effect`).  For every instruction of the base set it is compared with
what the instruction set says.

Four kinds of instructions are not always right: `sub`, which is an addition;
`lui` and `lhu` with an immediate that has the bits of an arithmetic right
shift; and `jalr`, whose target loses a second low bit (`effect_iff`).
-/

namespace CompE.Mp3

open CompE.Library
open CompE.Library.Rv32i (Instr Effect Access Memory Op BranchOp LoadOp StoreOp
  wordAt portBytes result)

/-! ## The stages together -/

section Effect

variable (x : Floating) (held w : Word) (regs : RegFile) (pc : Word)
  (mem : Memory)

/-- The register behind `EX`. -/
def executed : StageReg :=
  exStage (idStage x pc w (regs.read (rs1 w)) (regs.read (rs2 w)))
    (regs.read (rs1 w)) (regs.read (rs2 w))

/-- The register behind `MEM`, with the word at the address. -/
def accessed : StageReg :=
  { executed x w regs pc with
    memRdata := wordAt mem (dataRequest (executed x w regs pc)).memAddr }

/-- The use of the data port. -/
def portAccess (r : DataRequest) : Access :=
  if r.memRead then .load r.memAddr
  else if r.memWrite then
    .store r.memAddr (portBytes r.memAddr r.memByteEnable r.memWdata)
  else .none

/-- What an instruction does. -/
def effect : Effect where
  write :=
    if (accessed x w regs pc mem).controlWord.regfileLoad then
      result (rd w) (regfileData (accessed x w regs pc mem) held)
    else none
  nextPc := nextPc (pc + 4#32) (executed x w regs pc)
  access := portAccess (dataRequest (executed x w regs pc))

end Effect

/-! ## The classes of instructions -/

section Classes

variable {x : Floating} {held w : Word} {regs : RegFile} {pc : Word}
  {mem : Memory}

private theorem effect_lui (h : opcode w = .opLui) : effect x held w regs pc mem =
    ⟨result (rd w) (alu (aluOp (control w) w) 0#32 (uImm w)), pc + 4#32,
      .none⟩ := by
  simp [effect, accessed, executed, exStage, idStage, nextPc, portAccess,
    dataRequest, regfileData, exAluOut, aluMuxOut, control, controlROM, h,
    ControlWord.default, rs1]

private theorem effect_auipc (h : opcode w = .opAuipc) : effect x held w regs pc mem =
    ⟨result (rd w) (pc + uImm w), pc + 4#32, .none⟩ := by
  simp [effect, accessed, executed, exStage, idStage, nextPc, portAccess,
    dataRequest, regfileData, pcAdderMuxOut, control, controlROM, h,
    ControlWord.default]

private theorem effect_jal (h : opcode w = .opJal) : effect x held w regs pc mem =
    ⟨result (rd w) (pc + 4#32), pc + jImm w, .none⟩ := by
  simp [effect, accessed, executed, exStage, idStage, nextPc, portAccess,
    dataRequest, regfileData, pcAdderMuxOut, control, controlROM, h,
    ControlWord.default]

private theorem effect_jalr (h : opcode w = .opJalr) : effect x held w regs pc mem =
    ⟨result (rd w) (pc + 4#32),
      alu (aluOp (control w) w) (regs.read (rs1 w)) (iImm w) &&& 0xFFFFFFFC#32,
      .none⟩ := by
  simp [effect, accessed, executed, exStage, idStage, nextPc, portAccess,
    dataRequest, regfileData, exAluOut, aluMuxOut, control, controlROM, h,
    ControlWord.default]

private theorem effect_br (h : opcode w = .opBr) : effect x held w regs pc mem =
    ⟨none,
      if cmp (funct3 w) (regs.read (rs1 w)) (regs.read (rs2 w)) then
        pc + bImm w
      else pc + 4#32,
      .none⟩ := by
  cases hTaken : cmp (funct3 w) (regs.read (rs1 w)) (regs.read (rs2 w)) <;>
    simp [effect, accessed, executed, exStage, idStage, nextPc, portAccess,
      dataRequest, exBrEn, cmpMuxOut, pcAdderMuxOut, control, controlROM, h,
      ControlWord.default, hTaken]

private theorem effect_load (h : opcode w = .opLoad) : effect x held w regs pc mem =
    let a := alu (aluOp (control w) w) (regs.read (rs1 w)) (iImm w)
    ⟨result (rd w)
        ((loadValue (funct3 w) (a.extractLsb' 0 2) (wordAt mem a)).getD held),
      pc + 4#32, .load a⟩ := by
  simp [effect, accessed, executed, exStage, idStage, nextPc, portAccess,
    dataRequest, regfileData, exAluOut, aluMuxOut, control, controlROM, h,
    ControlWord.default]

private theorem effect_store (h : opcode w = .opStore) : effect x held w regs pc mem =
    let a := alu (aluOp (control w) w) (regs.read (rs1 w)) (sImm w)
    ⟨none, pc + 4#32,
      .store a (portBytes a (wmask (funct3 w) (a.extractLsb' 0 2))
        (memWdata (funct3 w) (a.extractLsb' 0 2) (regs.read (rs2 w))))⟩ := by
  simp [effect, accessed, executed, exStage, idStage, nextPc, portAccess,
    dataRequest, exAluOut, aluMuxOut, control, controlROM, h,
    ControlWord.default]

private theorem effect_opImm (h : opcode w = .opImm) : effect x held w regs pc mem =
    ⟨result (rd w)
        (if isSetLess (funct3 w) then
          if cmp (funct3 w) (regs.read (rs1 w)) (iImm w) then 1#32 else 0#32
        else alu (aluOp (control w) w) (regs.read (rs1 w)) (iImm w)),
      pc + 4#32, .none⟩ := by
  cases hSet : isSetLess (funct3 w) <;>
    simp [effect, accessed, executed, exStage, idStage, nextPc, portAccess,
      dataRequest, regfileData, exAluOut, exBrEn, aluMuxOut, cmpMuxOut, control,
      controlROM, h, ControlWord.default, hSet]

private theorem effect_opReg (h : opcode w = .opReg) : effect x held w regs pc mem =
    ⟨result (rd w)
        (if isSetLess (funct3 w) then
          if cmp (funct3 w) (regs.read (rs1 w)) (regs.read (rs2 w)) then 1#32
          else 0#32
        else
          alu (aluOp (control w) w) (regs.read (rs1 w)) (regs.read (rs2 w))),
      pc + 4#32, .none⟩ := by
  cases hSet : isSetLess (funct3 w) <;>
    simp [effect, accessed, executed, exStage, idStage, nextPc, portAccess,
      dataRequest, regfileData, exAluOut, exBrEn, aluMuxOut, cmpMuxOut, control,
      controlROM, h, ControlWord.default, hSet]

end Classes

/-! ## The parts -/

private theorem control_funct3 (w : Word) : (control w).funct3 = funct3 w := by
  rw [control]
  cases opcode w <;> rfl

/-- Bit 30 makes `funct3` 101 an arithmetic right shift, in every class. -/
theorem aluOp_control (w : Word) : aluOp (control w) w =
    if funct3 w = 0b101#3 ∧ w.getLsbD 30 = true then .aluSra
    else if opcode w = .opImm ∨ opcode w = .opReg then .ofFunct3 (funct3 w)
    else .aluAdd := by
  rw [aluOp, control_funct3]
  congr 1
  rw [control]
  cases opcode w <;> rfl

/-- What `EX` computes for `funct3` and bit 30. -/
def exValue (f : BitVec 3) (bit30 : Bool) (a b : Word) : Word :=
  if isSetLess f then if cmp f a b then 1#32 else 0#32
  else alu (if f = 0b101#3 ∧ bit30 = true then .aluSra else .ofFunct3 f) a b

private theorem exValue_plain {f : BitVec 3} (a b : Word) :
    exValue f false a b = (Rv32i.plainOp f).eval a b := by
  cases hSet : isSetLess f with
  | false => simp [exValue, hSet, alu_ofFunct3 hSet]
  | true =>
      rcases funct3_cases f with rfl | rfl | rfl | rfl | rfl | rfl | rfl | rfl
      · exact absurd hSet (by decide)
      · exact absurd hSet (by decide)
      · rfl
      · rfl
      · exact absurd hSet (by decide)
      · exact absurd hSet (by decide)
      · exact absurd hSet (by decide)
      · exact absurd hSet (by decide)

private theorem exValue_sra (a b : Word) :
    exValue 0b101#3 true a b = Op.sra.eval a b := rfl

/-- Bit 30 matters to the right shifts only. -/
theorem exValue_of_ne {f : BitVec 3} (h : f ≠ 0b101#3) (bit30 : Bool)
    (a b : Word) : exValue f bit30 a b = (Rv32i.plainOp f).eval a b := by
  rw [← exValue_plain]
  simp [exValue, h]

/-- The immediate operations are right. -/
theorem exValue_immOp {f : BitVec 3} {f7 : BitVec 7} {op : Op}
    (h : Rv32i.immOp f f7 = some op) (a b : Word) :
    exValue f (f7.getLsbD 5) a b = op.eval a b := by
  by_cases hSll : f = 0b001#3
  · subst hSll
    rw [Rv32i.immOp, if_pos rfl] at h
    rw [exValue_of_ne (by decide)]
    split at h
    · rw [← Option.some.inj h]
      rfl
    · cases h
  · by_cases hShift : f = 0b101#3
    · subst hShift
      rw [Rv32i.immOp, if_neg hSll, if_pos rfl] at h
      split at h
      · next hZero =>
          rw [← Option.some.inj h, hZero]
          exact exValue_plain a b
      · split at h
        · next hArith =>
            rw [← Option.some.inj h, hArith]
            exact exValue_sra a b
        · cases h
    · rw [Rv32i.immOp, if_neg hSll, if_neg hShift, Option.some.injEq] at h
      rw [exValue_of_ne hShift, h]

private theorem plainOp_ne_sub (f : BitVec 3) : Rv32i.plainOp f ≠ .sub := by
  revert f
  decide

/-- The register operations are right, but for the subtraction. -/
theorem exValue_regOp {f : BitVec 3} {f7 : BitVec 7} {op : Op}
    (h : Rv32i.regOp f f7 = some op) (a b : Word) :
    exValue f (f7.getLsbD 5) a b =
      if op = .sub then a + b else op.eval a b := by
  unfold Rv32i.regOp at h
  split at h
  · next hZero =>
      rw [← Option.some.inj h, hZero, if_neg (plainOp_ne_sub f)]
      exact exValue_plain a b
  · split at h
    · next hArith =>
        subst hArith
        split at h
        · next hSub =>
            rw [← Option.some.inj h, hSub, if_pos rfl]
            rfl
        · split at h
          · next hSra =>
              rw [← Option.some.inj h, hSra, if_neg (by decide)]
              exact exValue_sra a b
          · cases h
    · cases h

theorem cmp_branchOp {f : BitVec 3} {op : BranchOp}
    (h : Rv32i.branchOp f = some op) (a b : Word) :
    cmp f a b = op.taken a b := by
  rcases funct3_cases f with rfl | rfl | rfl | rfl | rfl | rfl | rfl | rfl <;>
    first
    | (cases h; rfl)
    | cases h

/-- A load takes its value from the word at its address. -/
theorem loadValue_eq {f : BitVec 3} {op : LoadOp}
    (h : Rv32i.loadOp f = some op) (mem : Memory) {a : Word}
    (hAligned : a.toNat % op.size = 0) :
    loadValue f (a.extractLsb' 0 2) (wordAt mem a) = some (op.value mem a) := by
  have hByte := Rv32i.wordAt_byte mem a
  rcases funct3_cases f with rfl | rfl | rfl | rfl | rfl | rfl | rfl | rfl
  · cases h
    simp only [loadValue, hByte]
    rfl
  · cases h
    rcases Rv32i.offset_of_half hAligned with hk | hk
    · rw [hk]
      show some (((wordAt mem a).extractLsb' 0 16).signExtend 32) = _
      rw [Rv32i.wordAt_half0 mem hk]
      rfl
    · rw [hk]
      show some (((wordAt mem a).extractLsb' 16 16).signExtend 32) = _
      rw [Rv32i.wordAt_half1 mem hk]
      rfl
  · cases h
    show some (wordAt mem a) = _
    rw [Rv32i.wordAt_word mem (Rv32i.offset_of_word hAligned)]
    rfl
  · cases h
  · cases h
    simp only [loadValue, hByte]
    rfl
  · cases h
    rcases Rv32i.offset_of_half hAligned with hk | hk
    · rw [hk]
      show some (((wordAt mem a).extractLsb' 0 16).setWidth 32) = _
      rw [Rv32i.wordAt_half0 mem hk]
      rfl
    · rw [hk]
      show some (((wordAt mem a).extractLsb' 16 16).setWidth 32) = _
      rw [Rv32i.wordAt_half1 mem hk]
      rfl
  · cases h
  · cases h

/-- A byte moved to its lane. -/
theorem extract_shifted (v : Word) (k : BitVec 2) :
    ((v.extractLsb' 0 8).setWidth 32 <<< (8 * k.toNat)).extractLsb'
        (8 * k.toNat) 8 = v.extractLsb' 0 8 := by
  apply BitVec.eq_of_getLsbD_eq
  intro i hi
  have hBound : 8 * k.toNat + i < 32 := by omega
  have hAbove : ¬ 8 * k.toNat + i < 8 * k.toNat := by omega
  have hBit : 8 * k.toNat + i - 8 * k.toNat = i := by omega
  have hSmall : i < 32 := by omega
  simp [hi, hBound, hBit, hSmall]

/-- A byte of a halfword that stays in place. -/
theorem extract_half {v : Word} {n : Nat} (hn : n + 8 ≤ 16) :
    ((v.extractLsb' 0 16).setWidth 32).extractLsb' n 8 = v.extractLsb' n 8 := by
  apply BitVec.eq_of_getLsbD_eq
  intro i hi
  have hWord : n + i < 32 := by omega
  have hHalf : n + i < 16 := by omega
  simp only [BitVec.getLsbD_extractLsb', BitVec.getLsbD_setWidth, hi, hWord,
    hHalf, decide_true, Bool.true_and, Nat.zero_add]

/-- A byte of a halfword that is moved up. -/
theorem extract_moved {v : Word} {n : Nat} (hn : n + 8 ≤ 16) :
    (v.extractLsb' 0 16 ++ 0#16).extractLsb' (16 + n) 8 =
      v.extractLsb' n 8 := by
  apply BitVec.eq_of_getLsbD_eq
  intro i hi
  have hAbove : ¬ 16 + n + i < 16 := by omega
  have hBit : 16 + n + i - 16 = n + i := by omega
  have hHalf : n + i < 16 := by omega
  simp only [BitVec.getLsbD_extractLsb', BitVec.getLsbD_append, hi, hAbove,
    hBit, hHalf, decide_true, Bool.true_and, Nat.zero_add, if_false]

/-- A store puts its bytes at its address. -/
theorem portBytes_store {f : BitVec 3} {op : StoreOp}
    (h : Rv32i.storeOp f = some op) (v : Word) {a : Word}
    (hAligned : a.toNat % op.size = 0) :
    portBytes a (wmask f (a.extractLsb' 0 2))
        (memWdata f (a.extractLsb' 0 2) v) = op.bytes a v := by
  rcases funct3_cases f with rfl | rfl | rfl | rfl | rfl | rfl | rfl | rfl
  · cases h
    exact Rv32i.portBytes_byte a _ v (extract_shifted v _)
  · cases h
    rcases Rv32i.offset_of_half hAligned with hk | hk
    · rw [hk]
      exact Rv32i.portBytes_half0 hk (extract_half (by decide))
        (extract_half (by decide))
    · rw [hk]
      exact Rv32i.portBytes_half1 hk (@extract_moved v 0 (by decide))
        (@extract_moved v 8 (by decide))
  · cases h
    rw [Rv32i.offset_of_word hAligned]
    exact Rv32i.portBytes_word (Rv32i.offset_of_word hAligned) v
  · cases h
  · cases h
  · cases h
  · cases h
  · cases h

/-! ## The instructions that are not always right -/

/-- Where the stages do what the instruction set says: a subtraction of zero
or of the smallest integer is an addition, `lui` must not have the bits of an
arithmetic right shift unless its result is dropped, `lhu` with bit 10 of its
immediate set shifts its base, and `jalr` clears bit 1. -/
def Faithful (i : Instr) (regs : RegFile) : Prop :=
  match i with
  | .opReg .sub rd _ rs2 =>
      rd = 0#5 ∨ regs.read rs2 = 0#32 ∨ regs.read rs2 = 0x80000000#32
  | .lui rd imm =>
      rd = 0#5 ∨ ¬ (imm.extractLsb' 12 3 = 0b101#3 ∧ imm.getLsbD 30 = true)
  | .load .lhu _ rs1 imm =>
      imm.getLsbD 10 = false ∨
        (regs.read rs1).sshiftRight' (imm.extractLsb' 0 5) =
          regs.read rs1 + imm
  | .jalr _ rs1 imm => (regs.read rs1 + imm).getLsbD 1 = false
  | _ => True

/-- The two masks of a jump target differ in bit 1. -/
theorem mask_eq_iff (t : Word) :
    t &&& 0xFFFFFFFC#32 = t &&& 0xFFFFFFFE#32 ↔ t.getLsbD 1 = false := by
  have hMasks : ∀ i : Fin 32, i.val ≠ 1 →
      (0xFFFFFFFC#32).getLsbD i = (0xFFFFFFFE#32).getLsbD i := by
    decide
  constructor
  · intro h
    have hBit := congrArg (fun x => x.getLsbD 1) h
    simpa using hBit.symm
  · intro h
    apply BitVec.eq_of_getLsbD_eq
    intro i hi
    rw [BitVec.getLsbD_and, BitVec.getLsbD_and]
    by_cases hOne : i = 1
    · rw [hOne, h]
      rfl
    · rw [hMasks ⟨i, hi⟩ hOne]

section Comparison

variable {x : Floating} {held w : Word} {regs : RegFile} {pc : Word}
  {mem : Memory}

private theorem rs1_eq (h : opcode w ≠ .opLui) : Rv32i.fieldRs1 w = rs1 w := by
  rw [rs1, if_neg h]
  rfl

private theorem alu_lui (w : Word) (h : opcode w = .opLui) :
    alu (aluOp (control w) w) 0#32 (uImm w) =
      if (uImm w).extractLsb' 12 3 = 0b101#3 ∧ (uImm w).getLsbD 30 = true then
        0#32
      else uImm w := by
  rw [aluOp_control, h, funct3_uImm, getLsbD_30_uImm]
  split
  · simp [alu]
  · simp [alu]

private theorem effect_lui_iff (h : opcode w = .opLui) :
    effect x held w regs pc mem =
        Rv32i.exec (.lui (rd w) (uImm w)) regs pc mem ↔
      Faithful (.lui (rd w) (uImm w)) regs := by
  rw [effect_lui h, alu_lui w h, Rv32i.exec, Effect.mk.injEq,
    Rv32i.result_eq_iff, Faithful]
  split
  · next hShift =>
      have hNe : ¬ 0#32 = uImm w := by
        intro hEq
        rw [← hEq] at hShift
        exact absurd hShift.2 (by decide)
      simp [hShift, hNe]
  · next hShift =>
      exact ⟨fun _ => Or.inr hShift, fun _ => ⟨Or.inr rfl, rfl, rfl⟩⟩

private theorem effect_jalr_iff (h : opcode w = .opJalr) (hFunct3 : funct3 w = 0b000#3) :
    effect x held w regs pc mem =
        Rv32i.exec (.jalr (rd w) (rs1 w) (iImm w)) regs pc mem ↔
      Faithful (.jalr (rd w) (rs1 w) (iImm w)) regs := by
  have hOp : aluOp (control w) w = .aluAdd := by
    rw [aluOp_control, h, hFunct3]
    rfl
  rw [effect_jalr h, hOp, Rv32i.exec, Effect.mk.injEq, Faithful,
    ← mask_eq_iff]
  exact ⟨fun hEq => hEq.2.1, fun hEq => ⟨rfl, hEq, rfl⟩⟩

/-- A load is right where its address is. -/
theorem effect_load_iff {op : LoadOp} (h : opcode w = .opLoad)
    (hFunct3 : Rv32i.loadOp (funct3 w) = some op)
    (hAligned : (regs.read (rs1 w) + iImm w).toNat % op.size = 0) :
    effect x held w regs pc mem =
        Rv32i.exec (.load op (rd w) (rs1 w) (iImm w)) regs pc mem ↔
      alu (aluOp (control w) w) (regs.read (rs1 w)) (iImm w) =
        regs.read (rs1 w) + iImm w := by
  rw [effect_load h, Rv32i.exec, Effect.mk.injEq]
  constructor
  · rintro ⟨_, _, hAccess⟩
    exact Access.load.inj hAccess
  · intro hAddr
    rw [hAddr, loadValue_eq hFunct3 mem hAligned]
    exact ⟨rfl, rfl, rfl⟩

private theorem alu_load {op : LoadOp} (h : opcode w = .opLoad)
    (hFunct3 : Rv32i.loadOp (funct3 w) = some op) (a : Word) :
    alu (aluOp (control w) w) a (iImm w) = a + iImm w ↔
      op = .lhu → (iImm w).getLsbD 10 = false ∨
        a.sshiftRight' ((iImm w).extractLsb' 0 5) = a + iImm w := by
  rw [aluOp_control, h, getLsbD_30_iImm]
  by_cases hHalf : funct3 w = 0b101#3
  · rw [hHalf] at hFunct3 ⊢
    cases hFunct3
    cases hBit : (iImm w).getLsbD 10 with
    | true => simp [alu]
    | false => simp [alu]
  · have hOther : op ≠ .lhu := by
      rintro rfl
      unfold Rv32i.loadOp at hFunct3
      grind
    simp [alu, hHalf, hOther]

private theorem effect_store_eq {op : StoreOp} (h : opcode w = .opStore)
    (hFunct3 : Rv32i.storeOp (funct3 w) = some op)
    (hAligned : (regs.read (rs1 w) + sImm w).toNat % op.size = 0) :
    effect x held w regs pc mem =
      Rv32i.exec (.store op (rs1 w) (rs2 w) (sImm w)) regs pc mem := by
  have hAdd : aluOp (control w) w = .aluAdd := by
    have hShift : funct3 w ≠ 0b101#3 := by
      intro hEq
      rw [hEq] at hFunct3
      cases hFunct3
    rw [aluOp_control, h]
    simp [hShift]
  rw [effect_store h, hAdd, Rv32i.exec, Effect.mk.injEq]
  refine ⟨rfl, rfl, congrArg (Access.store _) ?_⟩
  exact portBytes_store hFunct3 (regs.read (rs2 w)) hAligned

private theorem effect_br_eq {op : BranchOp} (h : opcode w = .opBr)
    (hFunct3 : Rv32i.branchOp (funct3 w) = some op) :
    effect x held w regs pc mem =
      Rv32i.exec (.branch op (rs1 w) (rs2 w) (bImm w)) regs pc mem := by
  rw [effect_br h, cmp_branchOp hFunct3]
  rfl

/-- The value for `rd` of an operation. -/
theorem exValue_control (h : opcode w = .opImm ∨ opcode w = .opReg)
    (a b : Word) :
    (if isSetLess (funct3 w) then
        if cmp (funct3 w) a b then 1#32 else 0#32
      else alu (aluOp (control w) w) a b) =
      exValue (funct3 w) ((Rv32i.fieldFunct7 w).getLsbD 5) a b := by
  rw [aluOp_control, getLsbD_30, exValue]
  simp [h]

private theorem effect_opImm_eq {op : Op} (h : opcode w = .opImm)
    (hFunct : Rv32i.immOp (funct3 w) (Rv32i.fieldFunct7 w) = some op) :
    effect x held w regs pc mem =
      Rv32i.exec (.opImm op (rd w) (rs1 w) (iImm w)) regs pc mem := by
  rw [effect_opImm h, exValue_control (Or.inl h), exValue_immOp hFunct]
  rfl

private theorem effect_opReg_iff {op : Op} (h : opcode w = .opReg)
    (hFunct : Rv32i.regOp (funct3 w) (Rv32i.fieldFunct7 w) = some op) :
    effect x held w regs pc mem =
        Rv32i.exec (.opReg op (rd w) (rs1 w) (rs2 w)) regs pc mem ↔
      Faithful (.opReg op (rd w) (rs1 w) (rs2 w)) regs := by
  rw [effect_opReg h, exValue_control (Or.inr h), exValue_regOp hFunct]
  by_cases hSub : op = .sub
  · subst hSub
    rw [if_pos rfl, Rv32i.exec, Effect.mk.injEq, Rv32i.result_eq_iff, Faithful,
      ← add_eq_sub_iff (regs.read (rs1 w))]
    exact ⟨fun hEq => hEq.1, fun hEq => ⟨hEq, rfl, rfl⟩⟩
  · have hFaithful : Faithful (.opReg op (rd w) (rs1 w) (rs2 w)) regs := by
      cases op <;> trivial
    rw [if_neg hSub]
    exact ⟨fun _ => hFaithful, fun _ => rfl⟩

end Comparison

/--
**One instruction.**  For every instruction of the base set, all operands,
every PC and every memory, with loads and stores aligned: the stages together
do what the instruction set says if and only if the instruction is none of the
four that are not always right, or its operands make no difference.
-/
theorem effect_iff (x : Floating) (held w : Word) (regs : RegFile) (pc : Word)
    (mem : Memory) {i : Instr} (hDecode : Rv32i.decode w = some i)
    (hAligned : i.Aligned regs) :
    effect x held w regs pc mem = Rv32i.exec i regs pc mem ↔
      Faithful i regs := by
  rw [decode_eq] at hDecode
  cases hOp : opcode w with
  | opLui =>
      rw [hOp] at hDecode
      rw [← Option.some.inj hDecode]
      exact effect_lui_iff hOp
  | opAuipc =>
      rw [hOp] at hDecode
      rw [← Option.some.inj hDecode, effect_auipc hOp]
      exact ⟨fun _ => trivial, fun _ => rfl⟩
  | opJal =>
      rw [hOp] at hDecode
      rw [← Option.some.inj hDecode, effect_jal hOp]
      exact ⟨fun _ => trivial, fun _ => rfl⟩
  | opJalr =>
      rw [hOp, rs1_eq (by simp [hOp])] at hDecode
      simp only at hDecode
      split at hDecode
      · next hFunct3 =>
          rw [← Option.some.inj hDecode]
          exact effect_jalr_iff hOp hFunct3
      · cases hDecode
  | opBr =>
      rw [hOp, rs1_eq (by simp [hOp])] at hDecode
      obtain ⟨op, hFunct3, rfl⟩ := Option.map_eq_some_iff.1 hDecode
      rw [effect_br_eq hOp hFunct3]
      exact ⟨fun _ => trivial, fun _ => rfl⟩
  | opLoad =>
      rw [hOp, rs1_eq (by simp [hOp])] at hDecode
      obtain ⟨op, hFunct3, rfl⟩ := Option.map_eq_some_iff.1 hDecode
      rw [effect_load_iff hOp hFunct3 hAligned, alu_load hOp hFunct3]
      cases op <;> simp [Faithful]
  | opStore =>
      rw [hOp, rs1_eq (by simp [hOp])] at hDecode
      obtain ⟨op, hFunct3, rfl⟩ := Option.map_eq_some_iff.1 hDecode
      rw [effect_store_eq hOp hFunct3 hAligned]
      exact ⟨fun _ => trivial, fun _ => rfl⟩
  | opImm =>
      rw [hOp, rs1_eq (by simp [hOp])] at hDecode
      obtain ⟨op, hFunct, rfl⟩ := Option.map_eq_some_iff.1 hDecode
      rw [effect_opImm_eq hOp hFunct]
      exact ⟨fun _ => trivial, fun _ => rfl⟩
  | opReg =>
      rw [hOp, rs1_eq (by simp [hOp])] at hDecode
      obtain ⟨op, hFunct, rfl⟩ := Option.map_eq_some_iff.1 hDecode
      exact effect_opReg_iff hOp hFunct
  | opCsr => rw [hOp] at hDecode; cases hDecode
  | other => rw [hOp] at hDecode; cases hDecode

/-- `lhu x5, 6(x1)`. -/
theorem effect_iff_lhu :
    let x : Floating := ⟨.zero, .zero⟩
    effect x 0#32 0x0060D283#32 (fun _ => 0x1000#32) 0x60#32
        (fun a => a.setWidth 8) =
      Rv32i.exec (.load .lhu 5#5 1#5 6#32) (fun _ => 0x1000#32) 0x60#32
        (fun a => a.setWidth 8) :=
  (@effect_iff ⟨.zero, .zero⟩ 0#32 0x0060D283#32 (fun _ => 0x1000#32) 0x60#32
    (fun a => a.setWidth 8) (.load .lhu 5#5 1#5 6#32) (by decide) rfl).2
    (Or.inl (by decide))

/-- `sub x3, x1, x2` adds. -/
theorem effect_sub :
    ¬ ∀ (x : Floating) (held w : Word) (regs : RegFile) (pc : Word)
      (mem : Memory) (i : Instr), Rv32i.decode w = some i → i.Aligned regs →
        effect x held w regs pc mem = Rv32i.exec i regs pc mem := by
  intro h
  have hSub := h ⟨.zero, .zero⟩ 0#32 0x402081B3#32 (fun _ => 1#32) 0#32
    (fun _ => 0#8) (.opReg .sub 3#5 1#5 2#5) (by decide) trivial
  have hFaithful : Faithful (.opReg .sub 3#5 1#5 2#5) (fun _ => 1#32) :=
    (effect_opReg_iff (by decide) (by decide)).1 hSub
  revert hFaithful
  show ¬ ((3#5 : Rv32i.Reg) = 0#5 ∨ _ ∨ _)
  decide

end CompE.Mp3
