import CompE.Mp1.Design
import Mathlib.Algebra.Ring.Nat

/-!
# The multicycle processor against the instruction set

From `fetch1` the machine comes back to `fetch1` after five cycles, seven for a
store or a load, and the cycles the memory makes it wait (`Cycles`).  A wait
changes nothing but the memory data register, which the answer then replaces.

The step in between is that of the instruction set for all instructions but
four register operations: `s_reg` takes `funct3` for the ALU's operation, so
`slt` shifts, `sltu` subtracts, and bit 30 is not looked at (`mp1_step`).
-/

namespace CompE.Mp1

open CompE.Library
open CompE.Library.Rv32i (Instr Op BranchOp LoadOp StoreOp Memory wordAt portBytes
  result)
open CompE.Mp3 (Word RegFile AluOps alu opcode funct3 iImm sImm bImm uImm jImm rd
  rs2)

/-! ## Waiting for the memory -/

/-- The cycles of a request: any number of waits and the answer. -/
inductive Answered : List MemPort → Prop where
  | answer {p : MemPort} (h : p.memResp = true) : Answered [p]
  | wait {p : MemPort} {ps : List MemPort} (h : p.memResp = false)
      (hRest : Answered ps) : Answered (p :: ps)

/-- The cycles of one instruction, which uses data memory or not. -/
inductive Cycles : Bool → List MemPort → Prop where
  | plain {ps : List MemPort} (hFetch : Answered ps) (p1 p3 p4 p5 : MemPort) :
      Cycles false (p1 :: (ps ++ [p3, p4, p5]))
  | access {ps ps' : List MemPort} (hFetch : Answered ps) (hData : Answered ps')
      (p1 p3 p4 p5 p7 : MemPort) :
      Cycles true (p1 :: (ps ++ p3 :: p4 :: p5 :: (ps' ++ [p7])))

/-- The registers that a read leaves alone. -/
def System.received (s : System) (st : CtlState) (v : Word) : System :=
  { s with state := st, mdr := v }

/-- A state that reads stays until the answer and then has the word. -/
theorem run_read {st next : CtlState}
    (hClock : ∀ (s : System) (p : MemPort), s.state = st → s.clock p =
      s.received (if p.memResp then next else st)
        (if p.memResp then wordAt s.mem s.mar else p.bus))
    {ps : List MemPort} (h : Answered ps) :
    ∀ (s : System), s.state = st →
      mp1Machine.run s ps = s.received next (wordAt s.mem s.mar) := by
  induction h with
  | @answer p hResp =>
      intro s hState
      show s.clock p = _
      rw [hClock s p hState, hResp]
      rfl
  | @wait p ps hResp hRest ih =>
      intro s hState
      show mp1Machine.run (s.clock p) ps = _
      rw [hClock s p hState, hResp]
      exact ih (s.received st p.bus) rfl

section Clock

variable {s : System} (p : MemPort)

private theorem clock_fetch1 (h : s.state = .fetch1) :
    s.clock p = { s with state := .fetch2, mar := s.pc } := by
  simp [System.clock, System.controls, stateActions, setDefaults,
    Controls.withMAR, nextState, System.marmuxOut, h]

private theorem clock_fetch2 (s : System) (p : MemPort) (h : s.state = .fetch2) :
    s.clock p = s.received (if p.memResp then .fetch3 else .fetch2)
      (if p.memResp then wordAt s.mem s.mar else p.bus) := by
  simp [System.clock, System.controls, stateActions, setDefaults,
    Controls.withMDR, nextState, System.memRdata, System.received, h]

private theorem clock_fetch3 (h : s.state = .fetch3) :
    s.clock p = { s with state := .decode, ir := s.mdr } := by
  simp [System.clock, System.controls, stateActions, setDefaults, nextState, h]

private theorem clock_decode (h : s.state = .decode) :
    s.clock p = { s with state := dispatch s.ir } := by
  simp [System.clock, System.controls, stateActions, setDefaults, nextState, h]

private theorem clock_lwCalcAddr (h : s.state = .lwCalcAddr) :
    s.clock p =
      { s with state := .ldr1, mar := s.rs1Out + iImm s.ir } := by
  simp [System.clock, System.controls, stateActions, setDefaults,
    Controls.withMAR, Controls.withALU, nextState, System.marmuxOut,
    System.aluOut, System.alumux1Out, System.alumux2Out, alu, h]

private theorem clock_ldr1 (s : System) (p : MemPort) (h : s.state = .ldr1) :
    s.clock p = s.received (if p.memResp then .ldr2 else .ldr1)
      (if p.memResp then wordAt s.mem s.mar else p.bus) := by
  simp [System.clock, System.controls, stateActions, setDefaults,
    Controls.withMDR, nextState, System.memRdata, System.received, h]

private theorem clock_swCalcAddr (h : s.state = .swCalcAddr) :
    s.clock p =
      { s with
        state := .str1
        mar := s.rs1Out + sImm s.ir
        memDataOut := s.rs2Out } := by
  simp [System.clock, System.controls, stateActions, setDefaults,
    Controls.withMAR, Controls.withALU, nextState, System.marmuxOut,
    System.aluOut, System.alumux1Out, System.alumux2Out, alu, h]

/-- The state behind the fetch. -/
def System.fetched (s : System) : System :=
  { s with
    state := dispatch (wordAt s.mem s.pc)
    ir := wordAt s.mem s.pc
    mdr := wordAt s.mem s.pc
    mar := s.pc }

private theorem run_fetch {ps : List MemPort} (hFetch : Answered ps)
    (h : s.state = .fetch1) (p1 p3 p4 : MemPort) (rest : List MemPort) :
    mp1Machine.run s (p1 :: (ps ++ p3 :: p4 :: rest)) =
      mp1Machine.run s.fetched rest := by
  have hFirst : mp1Machine.step s p1 = { s with state := .fetch2, mar := s.pc } :=
    clock_fetch1 p1 h
  have hRead := run_read clock_fetch2 hFetch
    { s with state := .fetch2, mar := s.pc } rfl
  rw [Machine.run, hFirst, Machine.run_append, hRead]
  show mp1Machine.run ((System.clock _ p3).clock p4) rest = _
  rw [clock_fetch3 p3 rfl, clock_decode p4 rfl]
  rfl

end Clock

/-! ## Back to `fetch1` -/

/-- The machine behind an instruction with this effect. -/
def System.retire (s : System) (e : Rv32i.Effect) : System :=
  { s with
    state := .fetch1
    regs := (s.arch.apply e).regs
    pc := (s.arch.apply e).pc
    mem := (s.arch.apply e).mem }

/-- Both sides leave `x0` alone. -/
theorem regs_apply (s : Rv32i.State) (r : Rv32i.Reg) (v pc : Word)
    (a : Rv32i.Access) : (s.apply ⟨result r v, pc, a⟩).regs =
      if r = 0#5 then s.regs else Function.update s.regs r v := by
  by_cases h : r = 0#5
  · simp [Rv32i.State.apply, result, h]
  · simp [Rv32i.State.apply, result, Rv32i.Regs.write, h]

section Retire

variable {s : System} (p : MemPort)

private theorem clock_sLui (h : s.state = .sLui) :
    s.clock p = s.retire ⟨result (rd s.ir) (uImm s.ir), s.pc + 4#32, .none⟩ := by
  simp only [System.retire, regs_apply]
  simp [System.clock, System.controls, stateActions, setDefaults,
    Controls.withRegfile, Controls.withPC, nextState, System.pcmuxOut,
    System.regfilemuxOut, h, System.arch, Rv32i.State.apply]

private theorem clock_sAuipc (h : s.state = .sAuipc) :
    s.clock p =
      s.retire ⟨result (rd s.ir) (s.pc + uImm s.ir), s.pc + 4#32, .none⟩ := by
  simp only [System.retire, regs_apply]
  simp [System.clock, System.controls, stateActions, setDefaults,
    Controls.withRegfile, Controls.withPC, Controls.withALU, nextState,
    System.pcmuxOut, System.regfilemuxOut, System.aluOut, System.alumux1Out,
    System.alumux2Out, alu, h, System.arch, Rv32i.State.apply]

private theorem clock_sJal (h : s.state = .sJal) :
    s.clock p =
      s.retire ⟨result (rd s.ir) (s.pc + 4#32), s.pc + jImm s.ir, .none⟩ := by
  simp only [System.retire, regs_apply]
  simp [System.clock, System.controls, stateActions, setDefaults,
    Controls.withRegfile, Controls.withPC, Controls.withALU, nextState,
    System.pcmuxOut, System.regfilemuxOut, System.aluOut, System.alumux1Out,
    System.alumux2Out, alu, h, System.arch, Rv32i.State.apply]

private theorem clock_sJalr (h : s.state = .sJalr) :
    s.clock p =
      s.retire ⟨result (rd s.ir) (s.pc + 4#32),
        (s.rs1Out + iImm s.ir) &&& 0xFFFFFFFE#32, .none⟩ := by
  simp only [System.retire, regs_apply]
  simp [System.clock, System.controls, stateActions, setDefaults,
    Controls.withRegfile, Controls.withPC, Controls.withALU, nextState,
    System.pcmuxOut, System.regfilemuxOut, System.aluOut, System.alumux1Out,
    System.alumux2Out, alu, h, System.arch, Rv32i.State.apply]

/-- `br_en` of a branch is its condition. -/
theorem clock_br (h : s.state = .br) :
    s.clock p =
      s.retire ⟨none,
        if cmp (funct3 s.ir) s.rs1Out s.rs2Out then s.pc + bImm s.ir
        else s.pc + 4#32, .none⟩ := by
  cases hTaken : cmp (funct3 s.ir) s.rs1Out s.rs2Out <;>
    simp [System.clock, System.retire, System.controls, stateActions,
      setDefaults, Controls.withPC, Controls.withALU, nextState,
      System.pcmuxOut, System.brEn, System.cmpmuxOut, System.aluOut,
      System.alumux1Out, System.alumux2Out, alu, h, hTaken, System.arch,
      Rv32i.State.apply]

private theorem clock_slti (h : s.state = .slti) :
    s.clock p =
      s.retire ⟨result (rd s.ir) (Op.slt.eval s.rs1Out (iImm s.ir)),
        s.pc + 4#32, .none⟩ := by
  simp only [System.retire, regs_apply]
  simp [System.clock, System.controls, stateActions, setDefaults,
    Controls.withRegfile, Controls.withPC, Controls.withALU, Controls.withCMP,
    nextState, System.pcmuxOut, System.regfilemuxOut, System.brEn,
    System.cmpmuxOut, cmp, blt, Op.eval, h, System.arch, Rv32i.State.apply]

private theorem clock_sltiu (h : s.state = .sltiu) :
    s.clock p =
      s.retire ⟨result (rd s.ir) (Op.sltu.eval s.rs1Out (iImm s.ir)),
        s.pc + 4#32, .none⟩ := by
  simp only [System.retire, regs_apply]
  simp [System.clock, System.controls, stateActions, setDefaults,
    Controls.withRegfile, Controls.withPC, Controls.withALU, Controls.withCMP,
    nextState, System.pcmuxOut, System.regfilemuxOut, System.brEn,
    System.cmpmuxOut, cmp, bltu, Op.eval, h, System.arch, Rv32i.State.apply]

private theorem clock_srai (h : s.state = .srai) :
    s.clock p =
      s.retire ⟨result (rd s.ir) (Op.sra.eval s.rs1Out (iImm s.ir)),
        s.pc + 4#32, .none⟩ := by
  simp only [System.retire, regs_apply]
  simp [System.clock, System.controls, stateActions, setDefaults,
    Controls.withRegfile, Controls.withPC, Controls.withALU, nextState,
    System.pcmuxOut, System.regfilemuxOut, System.aluOut, System.alumux1Out,
    System.alumux2Out, alu, Op.eval, h, System.arch, Rv32i.State.apply]

private theorem clock_sImm (h : s.state = .sImm) :
    s.clock p =
      s.retire ⟨result (rd s.ir)
        (alu (.ofFunct3 (funct3 s.ir)) s.rs1Out (iImm s.ir)),
        s.pc + 4#32, .none⟩ := by
  simp only [System.retire, regs_apply]
  simp [System.clock, System.controls, stateActions, setDefaults,
    Controls.withRegfile, Controls.withPC, Controls.withALU, nextState,
    System.pcmuxOut, System.regfilemuxOut, System.aluOut, System.alumux1Out,
    System.alumux2Out, h, System.arch, Rv32i.State.apply]

private theorem clock_sReg (h : s.state = .sReg) :
    s.clock p =
      s.retire ⟨result (rd s.ir)
        (alu (.ofFunct3 (funct3 s.ir)) s.rs1Out s.rs2Out),
        s.pc + 4#32, .none⟩ := by
  simp only [System.retire, regs_apply]
  simp [System.clock, System.controls, stateActions, setDefaults,
    Controls.withRegfile, Controls.withPC, Controls.withALU, nextState,
    System.pcmuxOut, System.regfilemuxOut, System.aluOut, System.alumux1Out,
    System.alumux2Out, h, System.arch, Rv32i.State.apply]

private theorem clock_ldr2 {sel : RegfilemuxSel} (h : s.state = .ldr2)
    (hSel : loadSel (funct3 s.ir) = some sel) :
    s.clock p =
      s.retire ⟨result (rd s.ir) (s.regfilemuxOut sel), s.pc + 4#32,
        .none⟩ := by
  simp only [System.retire, regs_apply]
  simp [System.clock, System.controls, stateActions, setDefaults,
    Controls.withRegfile, Controls.withPC, nextState, System.pcmuxOut, h, hSel,
    System.arch, Rv32i.State.apply]

private theorem clock_str2 (h : s.state = .str2) :
    s.clock p = { s with state := .fetch1, pc := s.pc + 4#32 } := by
  simp [System.clock, System.controls, stateActions, setDefaults,
    Controls.withPC, nextState, System.pcmuxOut, h]

/-- The write happens with the answer. -/
def System.stored (s : System) : System :=
  { s with
    state := .str2
    mem := Rv32i.storeBytes s.mem
      (portBytes s.mar (storeMask (funct3 s.ir) s.lsbCheck) s.memWdata) }

private theorem clock_str1 (h : s.state = .str1) :
    s.clock p = if p.memResp then s.stored else s := by
  cases hResp : p.memResp with
  | true =>
      simp [System.clock, System.controls, stateActions, setDefaults, nextState,
        System.stored, h, hResp]
  | false =>
      have hSelf : { s with state := .str1 } = s := by rw [← h]
      simp [System.clock, System.controls, stateActions, setDefaults, nextState,
        h, hResp, hSelf]

private theorem run_str1 {ps : List MemPort} (hData : Answered ps)
    (h : s.state = .str1) : mp1Machine.run s ps = s.stored := by
  induction hData with
  | @answer p hResp =>
      show s.clock p = _
      rw [clock_str1 p h, hResp]
      rfl
  | @wait p ps hResp hRest ih =>
      show mp1Machine.run (s.clock p) ps = _
      rw [clock_str1 p h, hResp]
      exact ih

end Retire

/-! ## Values -/

/-- Sub-word loads take their lanes from the word at the address. -/
theorem regfilemuxOut_load {s : System} {op : LoadOp}
    (hOp : Rv32i.loadOp (funct3 s.ir) = some op)
    (hAligned : s.mar.toNat % op.size = 0) (hMdr : s.mdr = wordAt s.mem s.mar) :
    ∃ sel, loadSel (funct3 s.ir) = some sel ∧
      s.regfilemuxOut sel = op.value s.mem s.mar := by
  have hByte : s.mdrByte = s.mem s.mar := by
    rw [System.mdrByte, hMdr]
    exact Rv32i.wordAt_byte s.mem s.mar
  have hHalf : s.mar.toNat % 2 = 0 →
      s.mdrHalf = s.mem (s.mar + 1) ++ s.mem s.mar := by
    intro hEven
    rw [System.mdrHalf, hMdr]
    rcases Rv32i.offset_of_half hEven with hk | hk
    · rw [if_neg (by simp [System.lsbCheck, hk])]
      exact Rv32i.wordAt_half0 s.mem hk
    · rw [if_pos (by simp [System.lsbCheck, hk])]
      exact Rv32i.wordAt_half1 s.mem hk
  revert hOp
  rcases Mp3.funct3_cases (funct3 s.ir) with h | h | h | h | h | h | h | h <;>
    rw [h] <;> intro hOp <;> cases hOp
  · exact ⟨.lb, rfl, congrArg (BitVec.signExtend 32) hByte⟩
  · exact ⟨.lh, rfl, congrArg (BitVec.signExtend 32) (hHalf hAligned)⟩
  · refine ⟨.lw, rfl, ?_⟩
    show s.mdr = _
    rw [hMdr]
    exact Rv32i.wordAt_word s.mem (Rv32i.offset_of_word hAligned)
  · exact ⟨.lbu, rfl, congrArg (BitVec.setWidth 32) hByte⟩
  · exact ⟨.lhu, rfl, congrArg (BitVec.setWidth 32) (hHalf hAligned)⟩

private theorem extract_shiftLeft (v : Word) {k n : Nat} (h : k + n + 8 ≤ 32) :
    (v <<< k).extractLsb' (k + n) 8 = v.extractLsb' n 8 := by
  apply BitVec.eq_of_getLsbD_eq
  intro i hi
  have hWord : k + n + i < 32 := by omega
  have hAbove : ¬ k + n + i < k := by omega
  have hBit : k + n + i - k = n + i := by omega
  simp only [BitVec.getLsbD_extractLsb', BitVec.getLsbD_shiftLeft, hi, hWord,
    hAbove, hBit, decide_true, decide_false, Bool.not_false, Bool.true_and]

/-- A store puts its bytes at its address. -/
theorem portBytes_store {f : BitVec 3} {op : StoreOp}
    (h : Rv32i.storeOp f = some op) (v : Word) {a : Word}
    (hAligned : a.toNat % op.size = 0) :
    portBytes a (storeMask f (a.extractLsb' 0 2))
        (v <<< (8 * (a.extractLsb' 0 2).toNat)) = op.bytes a v := by
  have hLane : 8 * (a.extractLsb' 0 2).toNat + 0 + 8 ≤ 32 := by
    have hLt := (a.extractLsb' 0 2).isLt
    omega
  rcases Mp3.funct3_cases f with rfl | rfl | rfl | rfl | rfl | rfl | rfl | rfl <;>
    cases h
  · exact Rv32i.portBytes_byte a _ v (@extract_shiftLeft v _ 0 hLane)
  · rcases Rv32i.offset_of_half hAligned with hk | hk
    · rw [hk]
      exact Rv32i.portBytes_half0 hk
        (@extract_shiftLeft v 0 0 (by decide)) (@extract_shiftLeft v 0 8 (by decide))
    · rw [hk]
      exact Rv32i.portBytes_half1 hk
        (@extract_shiftLeft v 16 0 (by decide))
        (@extract_shiftLeft v 16 8 (by decide))
  · rw [Rv32i.offset_of_word hAligned]
    show portBytes a 0b1111#4 (v <<< 0) = _
    rw [BitVec.shiftLeft_zero]
    exact Rv32i.portBytes_word (Rv32i.offset_of_word hAligned) v

theorem cmp_branchOp {f : BitVec 3} {op : BranchOp}
    (h : Rv32i.branchOp f = some op) (a b : Word) :
    cmp f a b = op.taken a b := by
  rcases Mp3.funct3_cases f with rfl | rfl | rfl | rfl | rfl | rfl | rfl | rfl <;>
    cases h <;> rfl

private theorem isSetLess_eq_false {f : BitVec 3} (h2 : f ≠ 0b010#3) (h3 : f ≠ 0b011#3) :
    Mp3.isSetLess f = false := by
  revert f
  decide

/-- What `s_reg` computes for an operation. -/
def regValue (op : Op) (a b : Word) : Word :=
  match op with
  | .sub => a + b
  | .slt => a.sshiftRight' (b.extractLsb' 0 5)
  | .sltu => a - b
  | .sra => a >>> b.extractLsb' 0 5
  | op => op.eval a b

private theorem alu_plainOp (f : BitVec 3) (a b : Word) :
    alu (.ofFunct3 f) a b = regValue (Rv32i.plainOp f) a b := by
  rcases Mp3.funct3_cases f with rfl | rfl | rfl | rfl | rfl | rfl | rfl | rfl <;>
    rfl

private theorem alu_regOp {f : BitVec 3} {f7 : BitVec 7} {op : Op}
    (h : Rv32i.regOp f f7 = some op) (a b : Word) :
    alu (.ofFunct3 f) a b = regValue op a b := by
  unfold Rv32i.regOp at h
  split at h
  · rw [← Option.some.inj h]
    exact alu_plainOp f a b
  · split at h
    · split at h
      · next hSub =>
          rw [← Option.some.inj h, hSub]
          rfl
      · split at h
        · next hSra =>
            rw [← Option.some.inj h, hSra]
            rfl
        · cases h
    · cases h

/-! ## The register operations that are not always right -/

/-- The operands on which a register operation is right.  A shift by the low
five bits `k` of `b` gives 0 for numbers below `2 ^ k` and 1 for those up to
twice that. -/
def RegFaithful (op : Op) (a b : Word) : Prop :=
  match op with
  | .sub => b = 0#32 ∨ b = 0x80000000#32
  | .slt =>
      a.msb = false ∧
        if a.slt b then
          2 ^ (b.toNat % 32) ≤ a.toNat ∧ a.toNat < 2 ^ (b.toNat % 32 + 1)
        else a.toNat < 2 ^ (b.toNat % 32)
  | .sltu => a = b ∨ a = 0#32 ∧ b = 0xFFFFFFFF#32
  | .sra => a.msb = false ∨ b.toNat % 32 = 0
  | _ => True

private theorem toNat_amount (b : Word) : (b.extractLsb' 0 5).toNat = b.toNat % 32 := by
  rw [BitVec.extractLsb'_toNat]
  simp

private theorem slt_faithful (a b : Word) :
    a.sshiftRight' (b.extractLsb' 0 5) = (if a.slt b then 1#32 else 0#32) ↔
      RegFaithful .slt a b := by
  rw [BitVec.sshiftRight_eq', toNat_amount, RegFaithful]
  generalize b.toNat % 32 = k
  cases hSign : a.msb with
  | true =>
      have hMsb : (a.sshiftRight k).msb = true := by
        rw [BitVec.msb_sshiftRight, hSign]
      have hNe : a.sshiftRight k ≠ if a.slt b then 1#32 else 0#32 := by
        intro hEq
        rw [hEq] at hMsb
        split at hMsb
        · exact absurd hMsb (by decide)
        · exact absurd hMsb (by decide)
      simp [hNe]
  | false =>
      rw [BitVec.sshiftRight_eq_of_msb_false hSign, ← BitVec.toNat_inj,
        BitVec.toNat_ushiftRight, Nat.shiftRight_eq_div_pow]
      have hPos : 0 < 2 ^ k := Nat.two_pow_pos k
      split
      · rw [show (1#32).toNat = 1 from rfl, Nat.div_eq_iff hPos]
        constructor
        · rintro ⟨hLow, hHigh⟩
          refine ⟨rfl, ?_, ?_⟩
          · omega
          · rw [Nat.pow_succ]
            omega
        · rintro ⟨_, hLow, hHigh⟩
          rw [Nat.pow_succ] at hHigh
          omega
      · rw [show (0#32).toNat = 0 from rfl, Nat.div_eq_zero_iff]
        simp

private theorem sltu_faithful (a b : Word) :
    a - b = (if a.ult b then 1#32 else 0#32) ↔ RegFaithful .sltu a b := by
  have ha := a.isLt
  have hb := b.isLt
  rw [RegFaithful]
  simp only [← BitVec.toNat_inj, BitVec.toNat_sub]
  by_cases hLt : a.ult b
  · rw [if_pos hLt]
    have hNat : a.toNat < b.toNat := by simpa [BitVec.ult] using hLt
    simp only [BitVec.toNat_ofNat]
    omega
  · rw [if_neg hLt]
    have hNat : b.toNat ≤ a.toNat := by simpa [BitVec.ult] using hLt
    simp only [BitVec.toNat_ofNat]
    omega

private theorem sra_faithful (a b : Word) :
    a >>> b.extractLsb' 0 5 = a.sshiftRight' (b.extractLsb' 0 5) ↔
      RegFaithful .sra a b := by
  rw [BitVec.sshiftRight_eq', BitVec.ushiftRight_eq', toNat_amount, RegFaithful]
  cases hSign : a.msb with
  | false => simp [BitVec.sshiftRight_eq_of_msb_false hSign]
  | true =>
      have hMsb : (a.sshiftRight (b.toNat % 32)).msb = true := by
        rw [BitVec.msb_sshiftRight, hSign]
      by_cases hZero : b.toNat % 32 = 0
      · simp [hZero]
      · have hNe : a >>> (b.toNat % 32) ≠ a.sshiftRight (b.toNat % 32) := by
          intro hEq
          rw [← hEq, BitVec.msb_ushiftRight] at hMsb
          simp [hZero] at hMsb
        simp [hNe, hZero]

private theorem regValue_iff (op : Op) (a b : Word) :
    regValue op a b = op.eval a b ↔ RegFaithful op a b := by
  cases op with
  | sub => exact Mp3.add_eq_sub_iff a b
  | slt => exact slt_faithful a b
  | sltu => exact sltu_faithful a b
  | sra => exact sra_faithful a b
  | add | sll | xor | srl | or | and => exact ⟨fun _ => trivial, fun _ => rfl⟩

/-! ## One instruction -/

/-- Whether an instruction goes to data memory. -/
def usesMemory (i : Instr) : Bool :=
  match i with
  | .load .. | .store .. => true
  | _ => false

/-- What the machine does for an instruction. -/
def effect (i : Instr) (regs : RegFile) (pc : Word) (mem : Memory) :
    Rv32i.Effect :=
  match i with
  | .opReg op rd rs1 rs2 =>
      ⟨result rd (regValue op (regs.read rs1) (regs.read rs2)), pc + 4#32, .none⟩
  | i => Rv32i.exec i regs pc mem

/-- Where the machine does what the instruction set says. -/
def Faithful (i : Instr) (regs : RegFile) : Prop :=
  match i with
  | .opReg op rd rs1 rs2 =>
      rd = 0#5 ∨ RegFaithful op (regs.read rs1) (regs.read rs2)
  | _ => True

/-- The machine is back with this effect. -/
def Retires (s : System) (ps : List MemPort) (e : Rv32i.Effect) : Prop :=
  (mp1Machine.run s ps).state = .fetch1 ∧
    (mp1Machine.run s ps).arch = s.arch.apply e

section Classes

variable {s : System} {ps : List MemPort}

/-- Without data memory the fifth cycle is the last. -/
theorem retires_of_clock {e : Rv32i.Effect} (hStart : s.state = .fetch1)
    (hCycles : Cycles false ps) (hClock : ∀ p, s.fetched.clock p =
      s.fetched.retire e) : Retires s ps e := by
  cases hCycles with
  | @plain qs hFetch p1 p3 p4 p5 =>
      have hRun : mp1Machine.run s (p1 :: (qs ++ [p3, p4, p5])) =
          s.fetched.retire e := by
        rw [run_fetch hFetch hStart p1 p3 p4 [p5]]
        exact hClock p5
      rw [Retires, hRun]
      exact ⟨rfl, rfl⟩

private theorem retires_load {op : LoadOp} (hStart : s.state = .fetch1)
    (hCycles : Cycles true ps)
    (hOp : opcode (wordAt s.mem s.pc) = .opLoad)
    (hFunct3 : Rv32i.loadOp (funct3 (wordAt s.mem s.pc)) = some op)
    (hAligned : (s.fetched.rs1Out + iImm s.fetched.ir).toNat % op.size = 0) :
    Retires s ps
      ⟨result (rd s.fetched.ir)
          (op.value s.mem (s.fetched.rs1Out + iImm s.fetched.ir)),
        s.pc + 4#32, .load (s.fetched.rs1Out + iImm s.fetched.ir)⟩ := by
  cases hCycles with
  | @access qs qs' hFetch hData p1 p3 p4 p5 p7 =>
      have hState : s.fetched.state = .lwCalcAddr := by
        show dispatch _ = _
        rw [dispatch, hOp]
      let t : System :=
        { s.fetched with
          state := .ldr2
          mar := s.fetched.rs1Out + iImm s.fetched.ir
          mdr := wordAt s.mem (s.fetched.rs1Out + iImm s.fetched.ir) }
      have hRun : mp1Machine.run s.fetched (p5 :: (qs' ++ [p7])) = t.clock p7 := by
        rw [Machine.run, Machine.run_append]
        show mp1Machine.run (mp1Machine.run (s.fetched.clock p5) _) _ = _
        rw [clock_lwCalcAddr p5 hState, run_read clock_ldr1 hData _ rfl]
        rfl
      obtain ⟨sel, hSel, hValue⟩ :=
        @regfilemuxOut_load t op hFunct3 hAligned rfl
      rw [Retires, run_fetch hFetch hStart p1 p3 p4, hRun,
        clock_ldr2 p7 rfl hSel, hValue]
      exact ⟨rfl, rfl⟩

private theorem retires_store {op : StoreOp} (hStart : s.state = .fetch1)
    (hCycles : Cycles true ps)
    (hOp : opcode (wordAt s.mem s.pc) = .opStore)
    (hFunct3 : Rv32i.storeOp (funct3 (wordAt s.mem s.pc)) = some op)
    (hAligned : (s.fetched.rs1Out + sImm s.fetched.ir).toNat % op.size = 0) :
    Retires s ps
      ⟨none, s.pc + 4#32,
        .store (s.fetched.rs1Out + sImm s.fetched.ir)
          (op.bytes (s.fetched.rs1Out + sImm s.fetched.ir) s.fetched.rs2Out)⟩ := by
  cases hCycles with
  | @access qs qs' hFetch hData p1 p3 p4 p5 p7 =>
      have hState : s.fetched.state = .swCalcAddr := by
        show dispatch _ = _
        rw [dispatch, hOp]
      let t : System :=
        { s.fetched with
          state := .str1
          mar := s.fetched.rs1Out + sImm s.fetched.ir
          memDataOut := s.fetched.rs2Out }
      have hRun : mp1Machine.run s.fetched (p5 :: (qs' ++ [p7])) =
          t.stored.clock p7 := by
        rw [Machine.run, Machine.run_append]
        show mp1Machine.run (mp1Machine.run (s.fetched.clock p5) _) _ = _
        rw [clock_swCalcAddr p5 hState, run_str1 hData rfl]
        rfl
      have hBytes := portBytes_store hFunct3 s.fetched.rs2Out hAligned
      have hMem : t.stored.mem = Rv32i.storeBytes s.mem
          (op.bytes (s.fetched.rs1Out + sImm s.fetched.ir) s.fetched.rs2Out) :=
        congrArg (Rv32i.storeBytes s.mem) hBytes
      rw [Retires, run_fetch hFetch hStart p1 p3 p4, hRun, clock_str2 p7 rfl]
      refine ⟨rfl, ?_⟩
      rw [System.arch, hMem]
      rfl

/-- The four ways an immediate operation is executed. -/
theorem clock_opImm {op : Op} (hOp : opcode (wordAt s.mem s.pc) = .opImm)
    (hFunct : Rv32i.immOp (funct3 (wordAt s.mem s.pc))
      (Rv32i.fieldFunct7 (wordAt s.mem s.pc)) = some op) (p : MemPort) :
    s.fetched.clock p = s.fetched.retire
      ⟨result (rd s.fetched.ir)
          (op.eval s.fetched.rs1Out (iImm s.fetched.ir)),
        s.pc + 4#32, .none⟩ := by
  have hState : s.fetched.state = dispatch (wordAt s.mem s.pc) := rfl
  have hIr : s.fetched.ir = wordAt s.mem s.pc := rfl
  rw [dispatch, hOp] at hState
  simp only at hState
  by_cases hSlt : funct3 (wordAt s.mem s.pc) = 0b010#3
  · rw [if_pos hSlt] at hState
    rw [hSlt] at hFunct
    cases hFunct
    exact clock_slti p hState
  rw [if_neg hSlt] at hState
  by_cases hSltu : funct3 (wordAt s.mem s.pc) = 0b011#3
  · rw [if_pos hSltu] at hState
    rw [hSltu] at hFunct
    cases hFunct
    exact clock_sltiu p hState
  rw [if_neg hSltu] at hState
  have hAlu := Mp3.alu_ofFunct3 (isSetLess_eq_false hSlt hSltu)
    s.fetched.rs1Out (iImm (wordAt s.mem s.pc))
  by_cases hShift : funct3 (wordAt s.mem s.pc) = 0b101#3
  · rw [if_pos hShift] at hState
    rw [hShift, Rv32i.immOp, if_neg (by decide), if_pos rfl] at hFunct
    split at hFunct
    · next hLogical =>
        rw [hLogical, if_neg (by decide)] at hState
        rw [clock_sImm p hState, hIr, ← Option.some.inj hFunct, hAlu, hShift]
        rfl
    · split at hFunct
      · next hArith =>
          rw [hArith, if_pos (by decide)] at hState
          rw [← Option.some.inj hFunct]
          exact clock_srai p hState
      · cases hFunct
  · rw [if_neg hShift] at hState
    rw [clock_sImm p hState, hIr, hAlu]
    rw [Rv32i.immOp, if_neg hShift] at hFunct
    split at hFunct
    · next hSll =>
        split at hFunct
        · rw [← Option.some.inj hFunct, hSll]
          rfl
        · cases hFunct
    · rw [← Option.some.inj hFunct]
      rfl

/-- Every instruction retires, with the effect of the machine. -/
theorem retires_effect {i : Instr} (hStart : s.state = .fetch1)
    (hDecode : Rv32i.decode (wordAt s.mem s.pc) = some i)
    (hAligned : i.Aligned s.regs) (hCycles : Cycles (usesMemory i) ps) :
    Retires s ps (effect i s.regs s.pc s.mem) := by
  have hState : s.fetched.state = dispatch (wordAt s.mem s.pc) := rfl
  rw [Mp3.decode_eq] at hDecode
  rw [dispatch] at hState
  cases hOp : opcode (wordAt s.mem s.pc) with
  | opLui =>
      rw [hOp] at hDecode hState
      cases hDecode
      exact retires_of_clock hStart hCycles fun p => clock_sLui p hState
  | opAuipc =>
      rw [hOp] at hDecode hState
      cases hDecode
      exact retires_of_clock hStart hCycles fun p => clock_sAuipc p hState
  | opJal =>
      rw [hOp] at hDecode hState
      cases hDecode
      exact retires_of_clock hStart hCycles fun p => clock_sJal p hState
  | opJalr =>
      rw [hOp] at hDecode hState
      simp only at hDecode
      split at hDecode
      · cases hDecode
        exact retires_of_clock hStart hCycles fun p => clock_sJalr p hState
      · cases hDecode
  | opBr =>
      rw [hOp] at hDecode hState
      obtain ⟨op, hFunct3, rfl⟩ := Option.map_eq_some_iff.1 hDecode
      apply retires_of_clock hStart hCycles
      intro p
      rw [clock_br p hState]
      show s.fetched.retire ⟨none, if cmp (funct3 (wordAt s.mem s.pc)) _ _ then _
        else _, .none⟩ = _
      rw [cmp_branchOp hFunct3]
      rfl
  | opLoad =>
      rw [hOp] at hDecode
      obtain ⟨op, hFunct3, rfl⟩ := Option.map_eq_some_iff.1 hDecode
      exact retires_load hStart hCycles hOp hFunct3 hAligned
  | opStore =>
      rw [hOp] at hDecode
      obtain ⟨op, hFunct3, rfl⟩ := Option.map_eq_some_iff.1 hDecode
      exact retires_store hStart hCycles hOp hFunct3 hAligned
  | opImm =>
      rw [hOp] at hDecode
      obtain ⟨op, hFunct, rfl⟩ := Option.map_eq_some_iff.1 hDecode
      exact retires_of_clock hStart hCycles (clock_opImm hOp hFunct)
  | opReg =>
      rw [hOp] at hDecode hState
      obtain ⟨op, hFunct, rfl⟩ := Option.map_eq_some_iff.1 hDecode
      apply retires_of_clock hStart hCycles
      intro p
      rw [clock_sReg p hState]
      show s.fetched.retire
        ⟨result _ (alu (.ofFunct3 (funct3 (wordAt s.mem s.pc))) _ _), _, .none⟩ = _
      rw [alu_regOp hFunct]
      rfl
  | opCsr => rw [hOp] at hDecode; cases hDecode
  | other => rw [hOp] at hDecode; cases hDecode

end Classes

private theorem apply_result_iff (s : Rv32i.State) (r : Rv32i.Reg) (v v' pc : Word) :
    s.apply ⟨result r v, pc, .none⟩ = s.apply ⟨result r v', pc, .none⟩ ↔
      r = 0#5 ∨ v = v' := by
  rw [← Rv32i.result_eq_iff]
  constructor
  · intro hEq
    have hRegs := congrArg (fun t => t.regs r) hEq
    simp only [regs_apply] at hRegs
    rw [Rv32i.result_eq_iff]
    by_cases h : r = 0#5
    · exact Or.inl h
    · simp only [if_neg h, Function.update_self] at hRegs
      exact Or.inr hRegs
  · intro hEq
    rw [hEq]

private theorem apply_effect_iff (s : Rv32i.State) (i : Instr) :
    s.apply (effect i s.regs s.pc s.mem) =
        s.apply (Rv32i.exec i s.regs s.pc s.mem) ↔ Faithful i s.regs := by
  cases i with
  | opReg op rd rs1 rs2 =>
      have hValues := apply_result_iff s rd
        (regValue op (s.regs.read rs1) (s.regs.read rs2))
        (op.eval (s.regs.read rs1) (s.regs.read rs2)) (s.pc + 4#32)
      rw [regValue_iff] at hValues
      exact hValues
  | _ => exact ⟨fun _ => trivial, fun _ => rfl⟩

/--
**One instruction.**  From `fetch1`, with the PC at an instruction of the base
set whose loads and stores are aligned, and after any waits: the machine is in
`fetch1` again, and its registers, PC and memory are those behind one step of
the instruction set if and only if the instruction is none of `sub`, `slt`,
`sltu` and `sra`, or its operands make no difference.
-/
theorem mp1_step {s : System} {ps : List MemPort} {i : Instr}
    (hStart : s.state = .fetch1)
    (hDecode : Rv32i.decode (wordAt s.mem s.pc) = some i)
    (hAligned : i.Aligned s.regs) (hCycles : Cycles (usesMemory i) ps) :
    (mp1Machine.run s ps).state = .fetch1 ∧
      (s.arch.step = some (mp1Machine.run s ps).arch ↔ Faithful i s.regs) := by
  obtain ⟨hBack, hArch⟩ := retires_effect hStart hDecode hAligned hCycles
  have hStep : s.arch.step = some (s.arch.apply (Rv32i.exec i s.regs s.pc s.mem)) := by
    show (Rv32i.decode (wordAt s.mem s.pc)).map _ = _
    rw [hDecode]
    rfl
  refine ⟨hBack, ?_⟩
  rw [hStep, hArch, Option.some.injEq, eq_comm]
  exact apply_effect_iff s.arch i

/-- In front of the instruction at address 0. -/
def atInstruction (w : Word) (regs : RegFile) : System where
  state := .fetch1
  ir := 0#32
  mdr := 0#32
  memDataOut := 0#32
  mar := 0#32
  pc := 0#32
  regs := regs
  mem := Rv32i.storeBytes (fun _ => 0x80#8) (portBytes 0#32 0b1111#4 w)

/-- `lb x5, 7(x1)`, with a wait for the instruction and two for the byte. -/
theorem mp1_step_lb :
    let s := atInstruction 0x00708283#32 (fun _ => 0x1000#32)
    let wait : MemPort := ⟨false, 0xDEADBEEF#32⟩
    let answer : MemPort := ⟨true, 0#32⟩
    s.arch.step = some (mp1Machine.run s [wait, wait, answer, wait, wait, wait,
      wait, wait, answer, wait]).arch :=
  (@mp1_step (atInstruction 0x00708283#32 (fun _ => 0x1000#32)) _
    (.load .lb 5#5 1#5 7#32) rfl (by decide) rfl
    (.access (.wait rfl (.answer rfl)) (.wait rfl (.wait rfl (.answer rfl)))
      _ _ _ _ _)).2.2 trivial

/-- `slt x3, x1, x2` shifts. -/
theorem mp1_step_slt :
    ¬ ∀ (s : System) (ps : List MemPort) (i : Instr), s.state = .fetch1 →
      Rv32i.decode (wordAt s.mem s.pc) = some i → i.Aligned s.regs →
      Cycles (usesMemory i) ps →
        (mp1Machine.run s ps).state = .fetch1 ∧
          s.arch.step = some (mp1Machine.run s ps).arch := by
  intro h
  have hSlt := (h (atInstruction 0x0020A1B3#32 (fun r => r.setWidth 32))
    [⟨true, 0#32⟩, ⟨true, 0#32⟩, ⟨true, 0#32⟩, ⟨true, 0#32⟩, ⟨true, 0#32⟩]
    (.opReg .slt 3#5 1#5 2#5) rfl (by decide) trivial
    (.plain (.answer rfl) _ _ _ _)).2
  have hRd := congrArg (fun o => o.map fun t => t.regs 3#5) hSlt
  revert hRd
  decide

end CompE.Mp1
