import Mathlib.Data.List.Basic
import Mathlib.Logic.Function.Basic

/-!
# The RV32I instruction set

The integer instructions of the base set without `fence`, `ecall`, `ebreak`
and the CSR instructions: their encoding (`decode`), what each one does
(`exec`), and one step of a hart (`State.step`).  There are no exceptions: a
jump goes where it says.

A hart that reaches memory through a port of aligned words with byte enables
sees `wordAt` and writes `portBytes`.  The lemmas of the last section relate
them to loads and stores at their addresses.
-/

namespace CompE.Library.Rv32i

abbrev Word := BitVec 32

abbrev Reg := BitVec 5

abbrev Byte := BitVec 8

/-- Memory by byte addresses. -/
abbrev Memory := Word → Byte

/-! ## Instructions -/

inductive BranchOp where
  | beq
  | bne
  | blt
  | bge
  | bltu
  | bgeu
  deriving DecidableEq, Repr

inductive LoadOp where
  | lb
  | lh
  | lw
  | lbu
  | lhu
  deriving DecidableEq, Repr

inductive StoreOp where
  | sb
  | sh
  | sw
  deriving DecidableEq, Repr

/-- The operations on two integers; `sub` has no immediate form. -/
inductive Op where
  | add
  | sub
  | sll
  | slt
  | sltu
  | xor
  | srl
  | sra
  | or
  | and
  deriving DecidableEq, Repr

/-- An instruction, with its immediate extended to a word. -/
inductive Instr where
  | lui (rd : Reg) (imm : Word)
  | auipc (rd : Reg) (imm : Word)
  | jal (rd : Reg) (imm : Word)
  | jalr (rd rs1 : Reg) (imm : Word)
  | branch (op : BranchOp) (rs1 rs2 : Reg) (imm : Word)
  | load (op : LoadOp) (rd rs1 : Reg) (imm : Word)
  | store (op : StoreOp) (rs1 rs2 : Reg) (imm : Word)
  | opImm (op : Op) (rd rs1 : Reg) (imm : Word)
  | opReg (op : Op) (rd rs1 rs2 : Reg)
  deriving DecidableEq, Repr

/-! ## Encoding -/

section Decode

variable (w : Word)

def immI : Word := (w.extractLsb' 20 12).signExtend 32

def immS : Word := (w.extractLsb' 25 7 ++ w.extractLsb' 7 5).signExtend 32

def immB : Word :=
  (w.extractLsb' 31 1 ++ w.extractLsb' 7 1 ++ w.extractLsb' 25 6 ++
    w.extractLsb' 8 4 ++ 0#1).signExtend 32

def immU : Word := w.extractLsb' 12 20 ++ 0#12

def immJ : Word :=
  (w.extractLsb' 31 1 ++ w.extractLsb' 12 8 ++ w.extractLsb' 20 1 ++
    w.extractLsb' 21 10 ++ 0#1).signExtend 32

def fieldRd : Reg := w.extractLsb' 7 5

def fieldRs1 : Reg := w.extractLsb' 15 5

def fieldRs2 : Reg := w.extractLsb' 20 5

def fieldFunct3 : BitVec 3 := w.extractLsb' 12 3

def fieldFunct7 : BitVec 7 := w.extractLsb' 25 7

end Decode

def branchOp (f : BitVec 3) : Option BranchOp :=
  if f = 0b000#3 then some .beq
  else if f = 0b001#3 then some .bne
  else if f = 0b100#3 then some .blt
  else if f = 0b101#3 then some .bge
  else if f = 0b110#3 then some .bltu
  else if f = 0b111#3 then some .bgeu
  else none

def loadOp (f : BitVec 3) : Option LoadOp :=
  if f = 0b000#3 then some .lb
  else if f = 0b001#3 then some .lh
  else if f = 0b010#3 then some .lw
  else if f = 0b100#3 then some .lbu
  else if f = 0b101#3 then some .lhu
  else none

def storeOp (f : BitVec 3) : Option StoreOp :=
  if f = 0b000#3 then some .sb
  else if f = 0b001#3 then some .sh
  else if f = 0b010#3 then some .sw
  else none

/-- The operation of `funct3` alone; the right shift is the logical one. -/
def plainOp (f : BitVec 3) : Op :=
  if f = 0b000#3 then .add
  else if f = 0b001#3 then .sll
  else if f = 0b010#3 then .slt
  else if f = 0b011#3 then .sltu
  else if f = 0b100#3 then .xor
  else if f = 0b101#3 then .srl
  else if f = 0b110#3 then .or
  else .and

def regOp (f : BitVec 3) (f7 : BitVec 7) : Option Op :=
  if f7 = 0b0000000#7 then some (plainOp f)
  else if f7 = 0b0100000#7 then
    if f = 0b000#3 then some .sub
    else if f = 0b101#3 then some .sra
    else none
  else none

/-- Only the shifts have a `funct7` in their immediate form. -/
def immOp (f : BitVec 3) (f7 : BitVec 7) : Option Op :=
  if f = 0b001#3 then if f7 = 0b0000000#7 then some .sll else none
  else if f = 0b101#3 then
    if f7 = 0b0000000#7 then some .srl
    else if f7 = 0b0100000#7 then some .sra
    else none
  else some (plainOp f)

/-- The instruction of a word. -/
def decode (w : Word) : Option Instr :=
  let o := w.extractLsb' 0 7
  if o = 0b0110111#7 then some (.lui (fieldRd w) (immU w))
  else if o = 0b0010111#7 then some (.auipc (fieldRd w) (immU w))
  else if o = 0b1101111#7 then some (.jal (fieldRd w) (immJ w))
  else if o = 0b1100111#7 then
    if fieldFunct3 w = 0b000#3 then
      some (.jalr (fieldRd w) (fieldRs1 w) (immI w))
    else none
  else if o = 0b1100011#7 then
    (branchOp (fieldFunct3 w)).map fun op =>
      .branch op (fieldRs1 w) (fieldRs2 w) (immB w)
  else if o = 0b0000011#7 then
    (loadOp (fieldFunct3 w)).map fun op =>
      .load op (fieldRd w) (fieldRs1 w) (immI w)
  else if o = 0b0100011#7 then
    (storeOp (fieldFunct3 w)).map fun op =>
      .store op (fieldRs1 w) (fieldRs2 w) (immS w)
  else if o = 0b0010011#7 then
    (immOp (fieldFunct3 w) (fieldFunct7 w)).map fun op =>
      .opImm op (fieldRd w) (fieldRs1 w) (immI w)
  else if o = 0b0110011#7 then
    (regOp (fieldFunct3 w) (fieldFunct7 w)).map fun op =>
      .opReg op (fieldRd w) (fieldRs1 w) (fieldRs2 w)
  else none

/-! ## Meaning -/

/-- The registers; what `x0` holds is never read. -/
abbrev Regs := Reg → Word

namespace Regs

def read (regs : Regs) (r : Reg) : Word := if r = 0#5 then 0#32 else regs r

def write (regs : Regs) (r : Reg) (v : Word) : Regs :=
  if r = 0#5 then regs else Function.update regs r v

end Regs

def BranchOp.taken (op : BranchOp) (a b : Word) : Bool :=
  match op with
  | .beq => a == b
  | .bne => a != b
  | .blt => a.slt b
  | .bge => b.sle a
  | .bltu => a.ult b
  | .bgeu => b.ule a

/-- Shifts take the low five bits of their second operand. -/
def Op.eval (op : Op) (a b : Word) : Word :=
  match op with
  | .add => a + b
  | .sub => a - b
  | .sll => a <<< b.extractLsb' 0 5
  | .slt => if a.slt b then 1#32 else 0#32
  | .sltu => if a.ult b then 1#32 else 0#32
  | .xor => a ^^^ b
  | .srl => a >>> b.extractLsb' 0 5
  | .sra => a.sshiftRight' (b.extractLsb' 0 5)
  | .or => a ||| b
  | .and => a &&& b

/-- The value loaded from an address. -/
def LoadOp.value (op : LoadOp) (mem : Memory) (a : Word) : Word :=
  match op with
  | .lb => (mem a).signExtend 32
  | .lh => (mem (a + 1) ++ mem a).signExtend 32
  | .lw => mem (a + 3) ++ mem (a + 2) ++ mem (a + 1) ++ mem a
  | .lbu => (mem a).setWidth 32
  | .lhu => (mem (a + 1) ++ mem a).setWidth 32

/-- The bytes stored at an address and behind it. -/
def StoreOp.bytes (op : StoreOp) (a v : Word) : List (Word × Byte) :=
  match op with
  | .sb => [(a, v.extractLsb' 0 8)]
  | .sh => [(a, v.extractLsb' 0 8), (a + 1, v.extractLsb' 8 8)]
  | .sw =>
      [(a, v.extractLsb' 0 8), (a + 1, v.extractLsb' 8 8),
        (a + 2, v.extractLsb' 16 8), (a + 3, v.extractLsb' 24 8)]

def LoadOp.size : LoadOp → Nat
  | .lb | .lbu => 1
  | .lh | .lhu => 2
  | .lw => 4

def StoreOp.size : StoreOp → Nat
  | .sb => 1
  | .sh => 2
  | .sw => 4

/-- What an instruction does with data memory. -/
inductive Access where
  | none
  | load (a : Word)
  | store (a : Word) (bytes : List (Word × Byte))
  deriving DecidableEq

/-- The bytes that are stored. -/
def Access.stored : Access → List (Word × Byte)
  | .store _ bytes => bytes
  | .none | .load _ => []

/-- What an instruction does. -/
structure Effect where
  write : Option (Reg × Word)
  nextPc : Word
  access : Access
  deriving DecidableEq

/-- The result for `rd`, which `x0` does not take. -/
def result (rd : Reg) (v : Word) : Option (Reg × Word) :=
  if rd = 0#5 then none else some (rd, v)

def exec (i : Instr) (regs : Regs) (pc : Word) (mem : Memory) : Effect :=
  match i with
  | .lui rd imm => ⟨result rd imm, pc + 4, .none⟩
  | .auipc rd imm => ⟨result rd (pc + imm), pc + 4, .none⟩
  | .jal rd imm => ⟨result rd (pc + 4), pc + imm, .none⟩
  | .jalr rd rs1 imm =>
      ⟨result rd (pc + 4), (regs.read rs1 + imm) &&& 0xFFFFFFFE, .none⟩
  | .branch op rs1 rs2 imm =>
      ⟨none, if op.taken (regs.read rs1) (regs.read rs2) then pc + imm else pc + 4,
        .none⟩
  | .load op rd rs1 imm =>
      ⟨result rd (op.value mem (regs.read rs1 + imm)), pc + 4,
        .load (regs.read rs1 + imm)⟩
  | .store op rs1 rs2 imm =>
      ⟨none, pc + 4,
        .store (regs.read rs1 + imm)
          (op.bytes (regs.read rs1 + imm) (regs.read rs2))⟩
  | .opImm op rd rs1 imm =>
      ⟨result rd (op.eval (regs.read rs1) imm), pc + 4, .none⟩
  | .opReg op rd rs1 rs2 =>
      ⟨result rd (op.eval (regs.read rs1) (regs.read rs2)), pc + 4, .none⟩

theorem result_eq_iff {rd : Reg} {v v' : Word} :
    result rd v = result rd v' ↔ rd = 0#5 ∨ v = v' := by
  unfold result
  by_cases h : rd = 0#5
  · simp [h]
  · simp [h]

/-- Loads and stores are at multiples of their size. -/
def Instr.Aligned (i : Instr) (regs : Regs) : Prop :=
  match i with
  | .load op _ rs1 imm => (regs.read rs1 + imm).toNat % op.size = 0
  | .store op rs1 _ imm => (regs.read rs1 + imm).toNat % op.size = 0
  | _ => True

/-! ## Words of memory -/

/-- The address of the aligned word of an address. -/
def wordBase (a : Word) : Word := a.extractLsb' 2 30 ++ 0#2

/-- The aligned word of an address. -/
def wordAt (mem : Memory) (a : Word) : Word :=
  mem (wordBase a + 3) ++ mem (wordBase a + 2) ++ mem (wordBase a + 1) ++
    mem (wordBase a)

/-- The enabled bytes of an aligned word. -/
def portBytes (a : Word) (mask : BitVec 4) (v : Word) : List (Word × Byte) :=
  ((List.range 4).filter mask.getLsbD).map fun j =>
    (wordBase a + BitVec.ofNat 32 j, v.extractLsb' (8 * j) 8)

/-- A hart and its memory. -/
structure State where
  regs : Regs
  pc : Word
  mem : Memory

/-- The bytes are stored one after the other. -/
def storeBytes (mem : Memory) (bytes : List (Word × Byte)) : Memory :=
  bytes.foldl (fun m b => Function.update m b.1 b.2) mem

def State.apply (s : State) (e : Effect) : State where
  regs :=
    match e.write with
    | none => s.regs
    | some (r, v) => s.regs.write r v
  pc := e.nextPc
  mem :=
    match e.access with
    | .store _ bytes => storeBytes s.mem bytes
    | _ => s.mem

/-- One step of the hart. -/
def State.step (s : State) : Option State :=
  (decode (wordAt s.mem s.pc)).map fun i =>
    s.apply (exec i s.regs s.pc s.mem)

/-- The hart after a number of steps. -/
def State.run (s : State) : Nat → Option State
  | 0 => some s
  | n + 1 => s.step.bind fun s' => s'.run n

/-- The addresses of a number of steps. -/
def State.pcs (s : State) : Nat → List Word
  | 0 => []
  | n + 1 => s.pc :: s.step.elim [] fun s' => s'.pcs n

/-- A store either leaves a byte alone or decides it. -/
theorem storeBytes_cases (bytes : List (Word × Byte)) (a : Word) :
    (∀ mem, storeBytes mem bytes a = mem a) ∨
      ∃ v, ∀ mem, storeBytes mem bytes a = v := by
  induction bytes with
  | nil => exact Or.inl fun _ => rfl
  | cons b bytes ih =>
      rcases ih with hKept | ⟨v, hWritten⟩
      · by_cases hHere : a = b.1
        · refine Or.inr ⟨b.2, fun mem => ?_⟩
          show storeBytes (Function.update mem b.1 b.2) bytes a = b.2
          rw [hKept, hHere, Function.update_self]
        · refine Or.inl fun mem => ?_
          show storeBytes (Function.update mem b.1 b.2) bytes a = mem a
          rw [hKept, Function.update_of_ne hHere]
      · exact Or.inr ⟨v, fun mem => hWritten _⟩

/-- A store made twice is made once. -/
@[simp] theorem storeBytes_storeBytes (mem : Memory)
    (bytes : List (Word × Byte)) :
    storeBytes (storeBytes mem bytes) bytes = storeBytes mem bytes := by
  funext a
  rcases storeBytes_cases bytes a with hKept | ⟨v, hWritten⟩
  · rw [hKept]
  · rw [hWritten, hWritten]

theorem storeBytes_of_ne {bytes : List (Word × Byte)} {a : Word}
    (h : ∀ b ∈ bytes, b.1 ≠ a) (mem : Memory) : storeBytes mem bytes a = mem a := by
  induction bytes generalizing mem with
  | nil => rfl
  | cons b bytes ih =>
      have hHere : b.1 ≠ a := h b List.mem_cons_self
      show storeBytes (Function.update mem b.1 b.2) bytes a = mem a
      rw [ih (fun b hb => h b (List.mem_cons_of_mem _ hb)),
        Function.update_of_ne hHere.symm]

/-- A byte that is not stored keeps its value. -/
theorem State.apply_mem_of_ne {e : Effect} {a : Word}
    (h : ∀ b ∈ e.access.stored, b.1 ≠ a) (s : State) :
    (s.apply e).mem a = s.mem a := by
  rw [State.apply]
  cases hAccess : e.access with
  | none => rfl
  | load => rfl
  | store a' bytes =>
      rw [hAccess] at h
      exact storeBytes_of_ne h s.mem

/-! ## Loads and stores through words -/

theorem toNat_wordBase (a : Word) : (wordBase a).toNat = a.toNat / 4 * 4 := by
  rw [wordBase, BitVec.toNat_append, BitVec.extractLsb'_toNat]
  simp [Nat.shiftLeft_eq, Nat.shiftRight_eq_div_pow]
  omega

theorem toNat_offset (a : Word) : (a.extractLsb' 0 2).toNat = a.toNat % 4 := by
  rw [BitVec.extractLsb'_toNat]
  simp

/-- An address is its word's and its place there. -/
theorem eq_wordBase_add {a : Word} {k : BitVec 2} (h : a.extractLsb' 0 2 = k) :
    a = wordBase a + k.setWidth 32 := by
  apply BitVec.eq_of_toNat_eq
  have hOffset := toNat_offset a
  have hBase := toNat_wordBase a
  rw [h] at hOffset
  rw [BitVec.toNat_add, hBase, BitVec.toNat_setWidth, hOffset]
  omega

theorem offset_cases (k : BitVec 2) :
    k = 0b00#2 ∨ k = 0b01#2 ∨ k = 0b10#2 ∨ k = 0b11#2 := by
  revert k
  decide

/-- The place of an aligned halfword. -/
theorem offset_of_half {a : Word} (h : a.toNat % 2 = 0) :
    a.extractLsb' 0 2 = 0b00#2 ∨ a.extractLsb' 0 2 = 0b10#2 := by
  have hOffset := toNat_offset a
  rcases offset_cases (a.extractLsb' 0 2) with hk | hk | hk | hk
  · exact Or.inl hk
  · rw [hk] at hOffset
    simp at hOffset
    omega
  · exact Or.inr hk
  · rw [hk] at hOffset
    simp at hOffset
    omega

/-- The place of an aligned word. -/
theorem offset_of_word {a : Word} (h : a.toNat % 4 = 0) :
    a.extractLsb' 0 2 = 0b00#2 := by
  apply BitVec.eq_of_toNat_eq
  rw [toNat_offset, h]
  rfl

section Bytes

variable (b3 b2 b1 b0 : Byte)

theorem extract_byte0 : (b3 ++ b2 ++ b1 ++ b0).extractLsb' 0 8 = b0 := by
  ext i hi
  simp
  grind

theorem extract_byte1 : (b3 ++ b2 ++ b1 ++ b0).extractLsb' 8 8 = b1 := by
  ext i hi
  simp
  grind

theorem extract_byte2 : (b3 ++ b2 ++ b1 ++ b0).extractLsb' 16 8 = b2 := by
  ext i hi
  simp
  grind

theorem extract_byte3 : (b3 ++ b2 ++ b1 ++ b0).extractLsb' 24 8 = b3 := by
  ext i hi
  simp
  grind

theorem extract_half0 : (b3 ++ b2 ++ b1 ++ b0).extractLsb' 0 16 = b1 ++ b0 := by
  ext i hi
  simp
  grind

theorem extract_half1 : (b3 ++ b2 ++ b1 ++ b0).extractLsb' 16 16 = b3 ++ b2 := by
  ext i hi
  simp
  grind

end Bytes

theorem eq_wordBase {a : Word} (h : a.extractLsb' 0 2 = 0b00#2) :
    a = wordBase a := by
  calc a = wordBase a + (0b00#2).setWidth 32 := eq_wordBase_add h
    _ = wordBase a := BitVec.add_zero _

theorem eq_wordBase_two {a : Word} (h : a.extractLsb' 0 2 = 0b10#2) :
    a = wordBase a + 2 ∧ a + 1 = wordBase a + 3 := by
  have hAddr : a = wordBase a + 2 := eq_wordBase_add h
  refine ⟨hAddr, ?_⟩
  calc a + 1 = wordBase a + 2 + 1 := by rw [← hAddr]
    _ = wordBase a + 3 := BitVec.add_assoc _ _ _

/-- A byte of the word. -/
theorem wordAt_byte (mem : Memory) (a : Word) :
    (wordAt mem a).extractLsb' (8 * (a.extractLsb' 0 2).toNat) 8 = mem a := by
  have hAddr : mem a = mem (wordBase a + (a.extractLsb' 0 2).setWidth 32) :=
    congrArg mem (eq_wordBase_add rfl)
  rw [hAddr]
  generalize a.extractLsb' 0 2 = k
  rcases offset_cases k with rfl | rfl | rfl | rfl
  · rw [show wordBase a + (0b00#2).setWidth 32 = wordBase a from
      BitVec.add_zero _]
    exact extract_byte0 _ _ _ _
  · exact extract_byte1 _ _ _ _
  · exact extract_byte2 _ _ _ _
  · exact extract_byte3 _ _ _ _

/-- The low halfword of the word. -/
theorem wordAt_half0 (mem : Memory) {a : Word}
    (h : a.extractLsb' 0 2 = 0b00#2) :
    (wordAt mem a).extractLsb' 0 16 = mem (a + 1) ++ mem a := by
  rw [wordAt, ← eq_wordBase h]
  exact extract_half0 _ _ _ _

/-- The high halfword of the word. -/
theorem wordAt_half1 (mem : Memory) {a : Word}
    (h : a.extractLsb' 0 2 = 0b10#2) :
    (wordAt mem a).extractLsb' 16 16 = mem (a + 1) ++ mem a := by
  obtain ⟨hLow, hHigh⟩ := eq_wordBase_two h
  have hLowMem : mem a = mem (wordBase a + 2) := congrArg mem hLow
  rw [wordAt, hHigh, hLowMem]
  exact extract_half1 _ _ _ _

theorem wordAt_word (mem : Memory) {a : Word}
    (h : a.extractLsb' 0 2 = 0b00#2) :
    wordAt mem a = mem (a + 3) ++ mem (a + 2) ++ mem (a + 1) ++ mem a := by
  rw [wordAt, ← eq_wordBase h]

/-- One enabled byte. -/
theorem portBytes_byte (a v x : Word)
    (h : v.extractLsb' (8 * (a.extractLsb' 0 2).toNat) 8 = x.extractLsb' 0 8) :
    portBytes a (0b0001#4 <<< a.extractLsb' 0 2) v = StoreOp.sb.bytes a x := by
  have hAddr : StoreOp.sb.bytes a x =
      [(wordBase a + (a.extractLsb' 0 2).setWidth 32,
        v.extractLsb' (8 * (a.extractLsb' 0 2).toNat) 8)] := by
    rw [h, ← eq_wordBase_add rfl]
    rfl
  rw [hAddr, portBytes]
  generalize a.extractLsb' 0 2 = k
  rcases offset_cases k with rfl | rfl | rfl | rfl <;> rfl

/-- Two enabled bytes, in the low half. -/
theorem portBytes_half0 {a v x : Word} (hk : a.extractLsb' 0 2 = 0b00#2)
    (h0 : v.extractLsb' 0 8 = x.extractLsb' 0 8)
    (h1 : v.extractLsb' 8 8 = x.extractLsb' 8 8) :
    portBytes a 0b0011#4 v = StoreOp.sh.bytes a x := by
  have hPort : portBytes a 0b0011#4 v =
      [(wordBase a + 0#32, v.extractLsb' 0 8),
        (wordBase a + 1, v.extractLsb' 8 8)] := rfl
  rw [hPort, ← eq_wordBase hk, h0, h1, BitVec.add_zero]
  rfl

/-- Two enabled bytes, in the high half. -/
theorem portBytes_half1 {a v x : Word} (hk : a.extractLsb' 0 2 = 0b10#2)
    (h0 : v.extractLsb' 16 8 = x.extractLsb' 0 8)
    (h1 : v.extractLsb' 24 8 = x.extractLsb' 8 8) :
    portBytes a 0b1100#4 v = StoreOp.sh.bytes a x := by
  obtain ⟨hLow, hHigh⟩ := eq_wordBase_two hk
  have hPort : portBytes a 0b1100#4 v =
      [(wordBase a + 2, v.extractLsb' 16 8),
        (wordBase a + 3, v.extractLsb' 24 8)] := rfl
  rw [hPort, ← hLow, ← hHigh, h0, h1]
  rfl

theorem portBytes_word {a : Word} (hk : a.extractLsb' 0 2 = 0b00#2) (v : Word) :
    portBytes a 0b1111#4 v = StoreOp.sw.bytes a v := by
  have hPort : portBytes a 0b1111#4 v =
      [(wordBase a + 0#32, v.extractLsb' 0 8),
        (wordBase a + 1, v.extractLsb' 8 8),
        (wordBase a + 2, v.extractLsb' 16 8),
        (wordBase a + 3, v.extractLsb' 24 8)] := rfl
  rw [hPort, BitVec.add_zero, ← eq_wordBase hk]
  rfl

end CompE.Library.Rv32i
