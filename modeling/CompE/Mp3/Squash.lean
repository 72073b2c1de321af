import CompE.Mp3.Pipeline

/-!
# Control hazards

The PC is redirected when a taken branch or a jump is in `WB`, three
instructions too late, and the flush counter of `EX` turns these three into
bubbles.  The specification walks the program: an instruction leaves `EX`
un-flushed only at the address its predecessor names, and behind a redirect
exactly the next three sequential addresses are squashed (`controlFlow`).

The invariant `Aligned` ties the flush counter to the position of the
redirecting instruction: counter 1, it is in `MEM`; counter 2, in `WB`, where
the PC takes its target; counter 3, gone.  A load-use stall needs a load in
`MEM`, which excludes all three.
-/

namespace CompE.Mp3

open CompE.Library

/-! ## The specification -/

/-- An instruction that leaves `EX` un-flushed, with its outcome. -/
structure Issue where
  pc : Word
  instruction : Word
  redirect : Bool
  target : Word

/-- What leaves `EX`: an un-flushed instruction, or one turned into a bubble. -/
inductive Leave where
  | issued (e : Issue)
  | squashed (pc : Word)

/-- The next address of the program, and the fetched addresses that still
have to be squashed. -/
structure Flow where
  next : Word
  wrong : List Word

/-- The control flow of a program. -/
def controlFlow (imem : Word → Word) : Acceptor Flow Leave where
  good f
    | .issued e =>
        f.wrong = [] ∧ e.pc = f.next ∧ e.instruction = imem e.pc
    | .squashed pc => f.wrong.head? = some pc
  next f
    | .issued e =>
        if e.redirect then
          ⟨e.target, [e.pc + 4#32, e.pc + 8#32, e.pc + 12#32]⟩
        else ⟨e.pc + 4#32, []⟩
    | .squashed _ => { f with wrong := f.wrong.tail }

/-! ## The machine -/

/-- The address a redirecting stage register sends to the PC. -/
def StageReg.target (s : StageReg) : Word :=
  if s.controlWord.pcmuxSel = .aluMod2 then s.aluOut &&& 0xFFFFFFFC#32
  else s.pcPlusReg

namespace Tracked

/-- What leaves `EX` in a cycle. -/
def leaving (t : Tracked) (i : Ports) : List Leave :=
  if t.cpu.stageRegLoad i && !t.cpu.stall then
    if t.leaves then
      [.issued ⟨t.cpu.stageID.pcReg, t.cpu.stageID.instruction,
        t.cpu.redirect, t.cpu.exIn.target⟩]
    else if t.idLive then [.squashed t.cpu.stageID.pcReg]
    else []
  else []

/-- The pipeline running the program `imem`: an instruction response carries
the instruction at the PC.  The stalls and the data are arbitrary. -/
def running (x : Floating) (imem : Word → Word) :
    Machine Tracked Ports Leave where
  step := step x
  emit := leaving
  legal t i := i.instResp = true → i.instRdata = imem t.cpu.pc

instance decidableRunningLegal (x : Floating) (imem : Word → Word)
    (t : Tracked) (i : Ports) : Decidable ((running x imem).legal t i) :=
  inferInstanceAs (Decidable (i.instResp = true → i.instRdata = imem t.cpu.pc))

/-! ## The invariant -/

/-- The pipeline is where the flow of the program says. -/
structure Aligned (imem : Word → Word) (t : Tracked) (f : Flow) : Prop where
  shape : Shape t
  fetched : t.idLive = true →
    t.cpu.stageID.instruction = imem t.cpu.stageID.pcReg
  /-- Before the first fetch nothing is to be squashed. -/
  empty : t.idLive = false →
    t.cpu.flushCounter = 0b00#2 ∧ t.cpu.pc = f.next
  /-- No redirect is under way. -/
  straight : t.cpu.flushCounter = 0b00#2 →
    f.wrong = [] ∧
      t.cpu.stageEX.controlWord.pcmuxSel = .pcPlus4 ∧
      t.cpu.stageMEM.controlWord.pcmuxSel = .pcPlus4 ∧
      (t.idLive = true →
        t.cpu.stageID.pcReg = f.next ∧ t.cpu.pc = f.next + 4#32)
  /-- The redirecting instruction is in `MEM`. -/
  inMEM : t.cpu.flushCounter = 0b01#2 →
    t.cpu.stageEX.controlWord.pcmuxSel ≠ .pcPlus4 ∧
      t.cpu.stageEX.target = f.next ∧
      t.cpu.stageEX.controlWord.wbmuxSel ≠ .memRdata ∧
      t.cpu.stageMEM.controlWord.pcmuxSel = .pcPlus4 ∧
      f.wrong = [t.cpu.stageID.pcReg, t.cpu.pc, t.cpu.pc + 4#32]
  /-- The redirecting instruction is in `WB` and drives the PC. -/
  inWB : t.cpu.flushCounter = 0b10#2 →
    t.cpu.stageMEM.controlWord.pcmuxSel ≠ .pcPlus4 ∧
      t.cpu.stageMEM.target = f.next ∧
      Bubble t.cpu.stageEX ∧
      f.wrong = [t.cpu.stageID.pcReg, t.cpu.pc]
  /-- The PC is at the target. -/
  atTarget : t.cpu.flushCounter = 0b11#2 →
    t.cpu.stageMEM.controlWord.pcmuxSel = .pcPlus4 ∧
      Bubble t.cpu.stageEX ∧
      f.wrong = [t.cpu.stageID.pcReg] ∧ t.cpu.pc = f.next

theorem Aligned.boot {c : Cpu} (h : c.IsReset) (imem : Word → Word) :
    Aligned imem (boot c) ⟨0x60#32, []⟩ where
  shape := Shape.boot h
  fetched := by simp [Tracked.boot]
  empty := fun _ => ⟨h.flushCounter, h.pc⟩
  straight := fun _ => by
    simp [Tracked.boot, h.stageEX, h.stageMEM, StageReg.zero, ControlWord.zero]
  inMEM := by simp [Tracked.boot, h.flushCounter]
  inWB := by simp [Tracked.boot, h.flushCounter]
  atTarget := by simp [Tracked.boot, h.flushCounter]

section Step

variable {imem : Word → Word} {t : Tracked} {f : Flow} {x : Floating}
  {i : Ports}

/-- A stall happens outside redirects only. -/
theorem Aligned.counter_of_stall (h : Aligned imem t f)
    (hStall : t.cpu.stall = true) : t.cpu.flushCounter = 0b00#2 := by
  obtain ⟨hLoad, hSel⟩ := Cpu.wbmuxSel_of_stall hStall
  have hCases : t.cpu.flushCounter = 0b00#2 ∨ t.cpu.flushCounter = 0b01#2 ∨
      t.cpu.flushCounter = 0b10#2 ∨ t.cpu.flushCounter = 0b11#2 := by
    generalize t.cpu.flushCounter = k
    revert k; decide
  rcases hCases with hk | hk | hk | hk
  · exact hk
  · exact absurd hSel (h.inMEM hk).2.2.1
  · rw [(h.inWB hk).2.2.1.regfileLoad] at hLoad
    cases hLoad
  · rw [(h.atTarget hk).2.1.regfileLoad] at hLoad
    cases hLoad

/-- The PC redirect never meets a load-use stall. -/
theorem Aligned.no_stall_of_redirect (h : Aligned imem t f)
    (hSel : t.cpu.stageMEM.controlWord.pcmuxSel ≠ .pcPlus4) :
    t.cpu.stall = false := by
  cases hStall : t.cpu.stall with
  | false => rfl
  | true =>
      have hk := h.counter_of_stall hStall
      exact absurd (h.straight hk).2.2.1 hSel

/-- The flush counter starts exactly when the stage register that leaves
redirects the PC. -/
theorem redirect_iff {c : Cpu}
    (h : c.stageID.controlWord = control c.stageID.instruction) :
    c.redirect = true ↔ c.exIn.controlWord.pcmuxSel ≠ .pcPlus4 := by
  have hSel := control_pcmuxSel c.stageID.instruction
  rw [← h] at hSel
  rw [Cpu.redirect, redirects]
  simp only [Cpu.exIn, exStage]
  by_cases hBr : opcode c.stageID.instruction = .opBr
  · simp only [hBr, if_true]
    cases exBrEn c.stageID c.rs1Out c.rs2Out <;> simp
  · rw [if_neg hBr, hSel]
    by_cases hJal : opcode c.stageID.instruction = .opJal
    · simp [hJal]
    · by_cases hJalr : opcode c.stageID.instruction = .opJalr
      · simp [hJalr]
      · simp [hBr, hJal, hJalr]

private theorem exIn_wbmuxSel_of_redirect {c : Cpu}
    (h : c.stageID.controlWord = control c.stageID.instruction)
    (hRedirect : c.redirect = true) :
    c.exIn.controlWord.wbmuxSel ≠ .memRdata := by
  have hOp : opcode c.stageID.instruction = .opBr ∨
      opcode c.stageID.instruction = .opJal ∨
      opcode c.stageID.instruction = .opJalr := by
    rw [Cpu.redirect, redirects] at hRedirect
    simp only [Bool.or_eq_true, Bool.and_eq_true, beq_iff_eq] at hRedirect
    rcases hRedirect with (⟨hOp, -⟩ | hOp) | hOp
    · exact .inl hOp
    · exact .inr (.inl hOp)
    · exact .inr (.inr hOp)
  have hSel := control_wbmuxSel_of_redirect hOp
  rw [← h] at hSel
  simp only [Cpu.exIn, exStage]
  split <;> exact hSel

theorem nextPc_of_redirect {m : StageReg}
    (h : m.controlWord.pcmuxSel ≠ .pcPlus4) (p : Word) :
    nextPc p m = m.target := by
  rw [nextPc, StageReg.target]
  cases hSel : m.controlWord.pcmuxSel <;> simp_all

theorem nextPc_of_straight {m : StageReg}
    (h : m.controlWord.pcmuxSel = .pcPlus4) (p : Word) : nextPc p m = p := by
  rw [nextPc, h]

/-- The target of a redirect is what the PC takes from `WB`. -/
theorem pcmuxOut_of_redirect {c : Cpu}
    (h : c.stageMEM.controlWord.pcmuxSel ≠ .pcPlus4) :
    c.pcmuxOut = c.stageMEM.target := by
  rw [Cpu.pcmuxOut_eq, nextPc_of_redirect h]

private theorem pcmuxOut_of_straight {c : Cpu}
    (h : c.stageMEM.controlWord.pcmuxSel = .pcPlus4) :
    c.pcmuxOut = c.pc + 4#32 := by
  rw [Cpu.pcmuxOut_eq, nextPc_of_straight h]

/-- A cache stall keeps the alignment. -/
theorem Aligned.hold (h : Aligned imem t f)
    (hLoad : t.cpu.stageRegLoad i = false) :
    t.leaving i = [] ∧ Aligned imem (t.step x i) f := by
  refine ⟨by simp [leaving, hLoad], h.shape.step x i, ?_, ?_, ?_, ?_, ?_, ?_⟩ <;>
    simp only [Tracked.step, Cpu.clock_hold hLoad, hLoad]
  · exact h.fetched
  · exact h.empty
  · exact h.straight
  · exact h.inMEM
  · exact h.inWB
  · exact h.atTarget

/-- A load-use stall keeps the alignment: the load does not redirect. -/
theorem Aligned.stall (h : Aligned imem t f)
    (hLoad : t.cpu.stageRegLoad i = true) (hStall : t.cpu.stall = true) :
    t.leaving i = [] ∧ Aligned imem (t.step x i) f := by
  have hk := h.counter_of_stall hStall
  have hNext : nextCounter t.cpu.flushCounter false = 0b00#2 := by
    rw [hk]; rfl
  obtain ⟨hWrong, hEX, -, hID⟩ := h.straight hk
  refine ⟨by simp [leaving, hStall], h.shape.step x i, ?_, ?_, ?_, ?_, ?_, ?_⟩ <;>
    simp only [Tracked.step, Cpu.clock_stall hLoad hStall, hLoad, hStall, hNext]
  · exact h.fetched
  · exact fun hEmpty => ⟨trivial, (h.empty hEmpty).2⟩
  · exact fun _ => ⟨hWrong, rfl, hEX, hID⟩
  · intro hk'; cases hk'
  · intro hk'; cases hk'
  · intro hk'; cases hk'

/-- On an advance the instruction at the PC enters `ID`. -/
theorem fetched_of_advance (hLoad : t.cpu.stageRegLoad i = true)
    (hStall : t.cpu.stall = false) (hLegal : (running x imem).legal t i) :
    (t.step x i).cpu.stageID.pcReg = t.cpu.pc ∧
      (t.step x i).cpu.stageID.instruction = imem t.cpu.pc ∧
      (t.step x i).idLive = true := by
  have hResp : i.instResp = true := by
    rw [Cpu.stageRegLoad, Bool.and_eq_true] at hLoad
    exact hLoad.2
  simp only [Tracked.step, Cpu.clock_advance hLoad hStall, hLoad, hStall]
  exact ⟨rfl, hLegal hResp, rfl⟩

/-! ### Where an advance leads

Behind an advance `ID` holds what was fetched, and the flush counter picks one
of the four cases. -/

theorem Aligned.of_straight (hShape : Shape t) (hLive : t.idLive = true)
    (hInst : t.cpu.stageID.instruction = imem t.cpu.stageID.pcReg)
    (hk : t.cpu.flushCounter = 0b00#2)
    (hCase : f.wrong = [] ∧
      t.cpu.stageEX.controlWord.pcmuxSel = .pcPlus4 ∧
      t.cpu.stageMEM.controlWord.pcmuxSel = .pcPlus4 ∧
      t.cpu.stageID.pcReg = f.next ∧ t.cpu.pc = f.next + 4#32) :
    Aligned imem t f where
  shape := hShape
  fetched := fun _ => hInst
  empty := by simp [hLive]
  straight := fun _ =>
    ⟨hCase.1, hCase.2.1, hCase.2.2.1, fun _ => hCase.2.2.2⟩
  inMEM := by simp [hk]
  inWB := by simp [hk]
  atTarget := by simp [hk]

theorem Aligned.of_inMEM (hShape : Shape t) (hLive : t.idLive = true)
    (hInst : t.cpu.stageID.instruction = imem t.cpu.stageID.pcReg)
    (hk : t.cpu.flushCounter = 0b01#2)
    (hCase : t.cpu.stageEX.controlWord.pcmuxSel ≠ .pcPlus4 ∧
      t.cpu.stageEX.target = f.next ∧
      t.cpu.stageEX.controlWord.wbmuxSel ≠ .memRdata ∧
      t.cpu.stageMEM.controlWord.pcmuxSel = .pcPlus4 ∧
      f.wrong = [t.cpu.stageID.pcReg, t.cpu.pc, t.cpu.pc + 4#32]) :
    Aligned imem t f where
  shape := hShape
  fetched := fun _ => hInst
  empty := by simp [hLive]
  straight := by simp [hk]
  inMEM := fun _ => hCase
  inWB := by simp [hk]
  atTarget := by simp [hk]

theorem Aligned.of_inWB (hShape : Shape t) (hLive : t.idLive = true)
    (hInst : t.cpu.stageID.instruction = imem t.cpu.stageID.pcReg)
    (hk : t.cpu.flushCounter = 0b10#2)
    (hCase : t.cpu.stageMEM.controlWord.pcmuxSel ≠ .pcPlus4 ∧
      t.cpu.stageMEM.target = f.next ∧ Bubble t.cpu.stageEX ∧
      f.wrong = [t.cpu.stageID.pcReg, t.cpu.pc]) :
    Aligned imem t f where
  shape := hShape
  fetched := fun _ => hInst
  empty := by simp [hLive]
  straight := by simp [hk]
  inMEM := by simp [hk]
  inWB := fun _ => hCase
  atTarget := by simp [hk]

theorem Aligned.of_atTarget (hShape : Shape t) (hLive : t.idLive = true)
    (hInst : t.cpu.stageID.instruction = imem t.cpu.stageID.pcReg)
    (hk : t.cpu.flushCounter = 0b11#2)
    (hCase : t.cpu.stageMEM.controlWord.pcmuxSel = .pcPlus4 ∧
      Bubble t.cpu.stageEX ∧ f.wrong = [t.cpu.stageID.pcReg] ∧
      t.cpu.pc = f.next) :
    Aligned imem t f where
  shape := hShape
  fetched := fun _ => hInst
  empty := by simp [hLive]
  straight := by simp [hk]
  inMEM := by simp [hk]
  inWB := by simp [hk]
  atTarget := fun _ => hCase

/-- An advance while the flush counter is zero lets the instruction in `EX`
leave, if there is one. -/
theorem Aligned.issue (h : Aligned imem t f)
    (hLoad : t.cpu.stageRegLoad i = true) (hStall : t.cpu.stall = false)
    (hk : t.cpu.flushCounter = 0b00#2)
    (hLegal : (running x imem).legal t i) :
    (controlFlow imem).Accepts f (t.leaving i) ∧
      Aligned imem (t.step x i) ((controlFlow imem).after f (t.leaving i)) := by
  obtain ⟨hPc, hInst, hLive⟩ := fetched_of_advance hLoad hStall hLegal
  obtain ⟨hWrong, hEX, hMEM, hID⟩ := h.straight hk
  have hClock := Cpu.clock_advance (x := x) hLoad hStall
  have hStep : (t.step x i).cpu = t.cpu.clock x i := rfl
  have hEX' : (t.step x i).cpu.stageEX = t.cpu.exIn := by
    simp only [hStep, hClock, hk, if_true]
  have hMEM' : (t.step x i).cpu.stageMEM.controlWord.pcmuxSel = .pcPlus4 := by
    simp only [hStep, hClock, hEX]
  have hPC' : (t.step x i).cpu.pc = t.cpu.pc + 4#32 := by
    simp only [hStep, hClock, pcmuxOut_of_straight hMEM]
  have hCounter : (t.step x i).cpu.flushCounter =
      if t.cpu.redirect then 0b01#2 else 0b00#2 := by
    simp only [hStep, hClock, nextCounter, hk, if_true]
  have hShape := h.shape.step x i
  have hFetched : (t.step x i).cpu.stageID.instruction =
      imem (t.step x i).cpu.stageID.pcReg := by
    rw [hInst, hPc]
  cases hOld : t.idLive with
  | false =>
      have hZero := h.shape.idEmpty hOld
      have hRedirect : t.cpu.redirect = false := by
        rw [Cpu.redirect, hZero]
        rfl
      rw [hRedirect] at hCounter
      have hNone : t.leaving i = [] := by
        simp [leaving, leaves, hLoad, hStall, hOld]
      rw [hNone]
      refine ⟨trivial, Aligned.of_straight hShape hLive hFetched hCounter
        ⟨hWrong, ?_, hMEM', ?_, ?_⟩⟩
      · rw [hEX', Cpu.exIn, hZero]
        exact (exStage_zero_bubble _ _).pcmuxSel
      · rw [hPc]
        exact (h.empty hOld).2
      · rw [hPC', (h.empty hOld).2]
        rfl
  | true =>
      obtain ⟨hNext, hPc4⟩ := hID hOld
      have hCtrl := h.shape.id hOld
      have hOne : t.leaving i = [.issued ⟨t.cpu.stageID.pcReg,
          t.cpu.stageID.instruction, t.cpu.redirect, t.cpu.exIn.target⟩] := by
        simp [leaving, leaves, hLoad, hStall, hOld, hk]
      have hPc4' : (t.step x i).cpu.stageID.pcReg =
          t.cpu.stageID.pcReg + 4#32 := by
        rw [hPc, hPc4, hNext]
      have hPc8 : (t.step x i).cpu.pc = t.cpu.stageID.pcReg + 8#32 := by
        rw [hPC', hPc4, hNext, BitVec.add_assoc]
        rfl
      rw [hOne]
      refine ⟨⟨⟨hWrong, hNext, h.fetched hOld⟩, trivial⟩, ?_⟩
      cases hRedirect : t.cpu.redirect with
      | false =>
          rw [hRedirect] at hCounter
          have hStraight : t.cpu.exIn.controlWord.pcmuxSel = .pcPlus4 := by
            have hNot := mt (redirect_iff hCtrl).2 (by simp [hRedirect])
            exact Decidable.not_not.1 hNot
          refine Aligned.of_straight hShape hLive hFetched hCounter
            ⟨rfl, by rw [hEX', hStraight], hMEM', hPc4', ?_⟩
          rw [hPc8]
          show _ = t.cpu.stageID.pcReg + 4#32 + 4#32
          rw [BitVec.add_assoc]
          rfl
      | true =>
          rw [hRedirect] at hCounter
          refine Aligned.of_inMEM hShape hLive hFetched hCounter ?_
          rw [hEX', hPc4', hPc8, BitVec.add_assoc]
          exact ⟨(redirect_iff hCtrl).1 hRedirect, rfl,
            exIn_wbmuxSel_of_redirect hCtrl hRedirect, hMEM', rfl⟩

/-- An advance while the flush counter is not zero squashes the instruction
in `EX`. -/
theorem Aligned.squash (h : Aligned imem t f)
    (hLoad : t.cpu.stageRegLoad i = true) (hStall : t.cpu.stall = false)
    (hk : t.cpu.flushCounter ≠ 0b00#2)
    (hLegal : (running x imem).legal t i) :
    (controlFlow imem).Accepts f (t.leaving i) ∧
      Aligned imem (t.step x i) ((controlFlow imem).after f (t.leaving i)) := by
  obtain ⟨hPc, hInst, hLive⟩ := fetched_of_advance hLoad hStall hLegal
  have hClock := Cpu.clock_advance (x := x) hLoad hStall
  have hStep : (t.step x i).cpu = t.cpu.clock x i := rfl
  have hOld : t.idLive = true := by
    cases hOld : t.idLive with
    | true => rfl
    | false => exact absurd (h.empty hOld).1 hk
  have hOne : t.leaving i = [.squashed t.cpu.stageID.pcReg] := by
    simp [leaving, leaves, hLoad, hStall, hOld, hk]
  have hEX' : (t.step x i).cpu.stageEX = stageRegFlush x := by
    simp only [hStep, hClock, if_neg hk]
  have hMEM' : (t.step x i).cpu.stageMEM =
      { t.cpu.stageEX with memRdata := i.dataRdata } := by
    simp only [hStep, hClock]
  have hPC' : (t.step x i).cpu.pc = t.cpu.pcmuxOut := by
    simp only [hStep, hClock]
  have hCounter : (t.step x i).cpu.flushCounter =
      nextCounter t.cpu.flushCounter t.cpu.redirect := by
    simp only [hStep, hClock]
  have hShape := h.shape.step x i
  have hFetched : (t.step x i).cpu.stageID.instruction =
      imem (t.step x i).cpu.stageID.pcReg := by
    rw [hInst, hPc]
  have hCases : t.cpu.flushCounter = 0b01#2 ∨
      t.cpu.flushCounter = 0b10#2 ∨ t.cpu.flushCounter = 0b11#2 := by
    revert hk
    generalize t.cpu.flushCounter = k
    revert k; decide
  rw [hOne]
  rcases hCases with hk | hk | hk
  · obtain ⟨hSel, hTarget, -, hMEM, hWrong⟩ := h.inMEM hk
    have hCounter2 : (t.step x i).cpu.flushCounter = 0b10#2 := by
      rw [hCounter, hk]; rfl
    refine ⟨⟨by simp [controlFlow, hWrong], trivial⟩,
      Aligned.of_inWB hShape hLive hFetched hCounter2 ?_⟩
    rw [hMEM', hEX', hPc, hPC', pcmuxOut_of_straight hMEM]
    exact ⟨hSel, hTarget, stageRegFlush_bubble x,
      by simp [controlFlow, Acceptor.after, hWrong]⟩
  · obtain ⟨hSel, hTarget, hBubble, hWrong⟩ := h.inWB hk
    have hCounter3 : (t.step x i).cpu.flushCounter = 0b11#2 := by
      rw [hCounter, hk]; rfl
    refine ⟨⟨by simp [controlFlow, hWrong], trivial⟩,
      Aligned.of_atTarget hShape hLive hFetched hCounter3 ?_⟩
    rw [hMEM', hEX', hPc, hPC', pcmuxOut_of_redirect hSel, hTarget]
    exact ⟨hBubble.pcmuxSel, stageRegFlush_bubble x,
      by simp [controlFlow, Acceptor.after, hWrong], rfl⟩
  · obtain ⟨hMEM, hBubble, hWrong, hTarget⟩ := h.atTarget hk
    have hCounter0 : (t.step x i).cpu.flushCounter = 0b00#2 := by
      rw [hCounter, hk]; rfl
    refine ⟨⟨by simp [controlFlow, hWrong], trivial⟩,
      Aligned.of_straight hShape hLive hFetched hCounter0 ?_⟩
    rw [hMEM', hEX', hPc, hPC', pcmuxOut_of_straight hMEM, hTarget]
    exact ⟨by simp [controlFlow, Acceptor.after, hWrong], rfl,
      hBubble.pcmuxSel, rfl, rfl⟩

/-- One cycle follows the control flow of the program. -/
theorem Aligned.step (h : Aligned imem t f)
    (hLegal : (running x imem).legal t i) :
    (controlFlow imem).Accepts f ((running x imem).emit t i) ∧
      Aligned imem ((running x imem).step t i)
        ((controlFlow imem).after f ((running x imem).emit t i)) := by
  show (controlFlow imem).Accepts f (t.leaving i) ∧
    Aligned imem (t.step x i) ((controlFlow imem).after f (t.leaving i))
  cases hLoad : t.cpu.stageRegLoad i with
  | false =>
      obtain ⟨hNone, hNext⟩ := h.hold (x := x) hLoad
      rw [hNone]
      exact ⟨trivial, hNext⟩
  | true =>
      cases hStall : t.cpu.stall with
      | true =>
          obtain ⟨hNone, hNext⟩ := h.stall (x := x) hLoad hStall
          rw [hNone]
          exact ⟨trivial, hNext⟩
      | false =>
          by_cases hk : t.cpu.flushCounter = 0b00#2
          · exact h.issue hLoad hStall hk hLegal
          · exact h.squash hLoad hStall hk hLegal

end Step

/-! ## The result -/

/--
**Control hazards.**  For every program and every pattern of stalls: what
leaves `EX` follows the control flow, a register that does not hold an
un-flushed instruction writes no register and makes no memory access, and
the PC redirect never meets a load-use stall.
-/
theorem squash_correct (x : Floating) (imem : Word → Word) {c : Cpu}
    (hReset : c.IsReset) (is : List Ports)
    (hLegal : (running x imem).Legal (boot c) is) :
    (controlFlow imem).Accepts ⟨0x60#32, []⟩
        ((running x imem).events (boot c) is) ∧
      let t := (running x imem).run (boot c) is
      (t.exLive = false → Bubble t.cpu.stageEX) ∧
        (t.memLive = false → Bubble t.cpu.stageMEM) ∧
        (t.cpu.stageMEM.controlWord.pcmuxSel ≠ .pcPlus4 →
          t.cpu.stall = false) := by
  obtain ⟨hAcc, hEnd⟩ := (running x imem).simulates (controlFlow imem)
    (fun _ _ _ h hLegal => Aligned.step h hLegal) is (boot c) ⟨0x60#32, []⟩
    (Aligned.boot hReset imem) hLegal
  exact ⟨hAcc, hEnd.shape.exEmpty, hEnd.shape.memEmpty,
    hEnd.no_stall_of_redirect⟩

/-- `jal x1, 16` at the reset address, no-ops elsewhere. -/
def jumpProgram (a : Word) : Word :=
  if a = 0x60#32 then 0x010000EF#32 else 0x00000013#32

/-- A run of `jumpProgram` past the jump, with one instruction-cache stall. -/
def jumpRun : List Ports :=
  [⟨true, jumpProgram 0x60#32, false, 0#32⟩, ⟨false, 0#32, false, 0#32⟩,
    ⟨true, jumpProgram 0x64#32, false, 0#32⟩,
    ⟨true, jumpProgram 0x68#32, false, 0#32⟩,
    ⟨true, jumpProgram 0x6C#32, false, 0#32⟩,
    ⟨true, jumpProgram 0x70#32, false, 0#32⟩,
    ⟨true, jumpProgram 0x74#32, false, 0#32⟩]

theorem squash_correct_jumpRun :
    (controlFlow jumpProgram).Accepts ⟨0x60#32, []⟩
        ((running ⟨.zero, .zero⟩ jumpProgram).events (boot Cpu.afterReset)
          jumpRun) ∧
      let t := (running ⟨.zero, .zero⟩ jumpProgram).run (boot Cpu.afterReset)
        jumpRun
      (t.exLive = false → Bubble t.cpu.stageEX) ∧
        (t.memLive = false → Bubble t.cpu.stageMEM) ∧
        (t.cpu.stageMEM.controlWord.pcmuxSel ≠ .pcPlus4 →
          t.cpu.stall = false) :=
  squash_correct ⟨.zero, .zero⟩ jumpProgram Cpu.afterReset_isReset jumpRun
    (by decide +kernel)

end Tracked

end CompE.Mp3
