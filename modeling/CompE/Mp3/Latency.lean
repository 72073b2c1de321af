import CompE.Library.Stutter
import CompE.Mp3.Pipeline

/-!
# Latency insensitivity

The pipeline runs a program in front of a data memory; the instruction and
the data responses come at any time.  What a schedule cannot influence is the
sequence of architectural effects: a cache stall only repeats the register
write of `WB`.

The reference is the run without stalls (`ideal`).  A state of any schedule
is the ideal state after as many advances (`Same`), except that the register
file may already hold `WB`'s write and that a register which holds no load
carries whatever word the data port had.  So every trace, with the repetitions
removed, is an initial piece of the ideal one.
-/

namespace CompE.Mp3

open CompE.Library

/-! ## Effects -/

/-- An architectural effect. -/
inductive Effect where
  | regWrite (r : RegNo) (v : Word)
  | retire (pc : Word)
  | load (addr : Word)
  | store (addr data : Word) (mask : BitVec 4)
  deriving DecidableEq

/-- The effects that a stalled pipeline repeats. -/
def Effect.isRegWrite : Effect → Bool
  | .regWrite _ _ => true
  | _ => false

namespace Tracked

/-- The register write of an un-flushed instruction in `WB`; it happens in
every cycle. -/
def wbEffects (t : Tracked) : List Effect :=
  if t.memLive && t.cpu.stageMEM.controlWord.regfileLoad &&
      rd t.cpu.stageMEM.instruction != 0#5 then
    [.regWrite (rd t.cpu.stageMEM.instruction) t.cpu.wbData]
  else []

/-- The retirement in `WB`. -/
def retireEffects (t : Tracked) : List Effect :=
  if t.memLive then [.retire t.cpu.stageMEM.pcReg] else []

/-- The data access of an un-flushed instruction in `MEM`. -/
def memEffects (t : Tracked) : List Effect :=
  if t.exLive then
    if t.cpu.request.memRead then [.load t.cpu.request.memAddr]
    else if t.cpu.request.memWrite then
      [.store t.cpu.request.memAddr t.cpu.request.memWdata
        t.cpu.request.memByteEnable]
    else []
  else []

/-- The effects of an advance. -/
def effects (t : Tracked) : List Effect :=
  t.wbEffects ++ (t.retireEffects ++ t.memEffects)

/-- Register writes of different instructions are separated by a retirement,
so collapsing repetitions does not touch the effects of an advance. -/
theorem collapse_effects (t : Tracked) (es : List Effect) :
    Stutter.collapse Effect.isRegWrite (t.effects ++ es) =
      t.effects ++ Stutter.collapse Effect.isRegWrite es := by
  have hRest : ∀ e ∈ t.retireEffects ++ t.memEffects,
      e.isRegWrite = false := by
    intro e he
    rw [List.mem_append] at he
    rcases he with he | he
    · rw [retireEffects] at he
      split at he
      · rw [List.mem_singleton] at he; subst he; rfl
      · cases he
    · rw [memEffects] at he
      split at he
      · split at he
        · rw [List.mem_singleton] at he; subst he; rfl
        · split at he
          · rw [List.mem_singleton] at he; subst he; rfl
          · cases he
      · cases he
  rw [effects, List.append_assoc t.wbEffects, List.append_assoc t.wbEffects,
    wbEffects]
  split
  · rename_i hWrite
    rw [Bool.and_eq_true, Bool.and_eq_true] at hWrite
    have hRetire : t.retireEffects = [.retire t.cpu.stageMEM.pcReg] := by
      rw [retireEffects, hWrite.1.1, if_pos rfl]
    rw [List.singleton_append, Stutter.collapse_cons_of_head_ne,
      Stutter.collapse_append_of_not _ hRest, List.singleton_append]
    rw [Stutter.collapse_append_of_not _ hRest, hRetire]
    simp
  · rw [List.nil_append, List.nil_append,
      Stutter.collapse_append_of_not _ hRest]

end Tracked

/-! ## The machine -/

section

variable {D : Type}

/-- The pipeline and its data memory. -/
structure Timed (D : Type) where
  pipe : Tracked
  data : D

variable (x : Floating) (imem : Word → Word)
  (respond : D → DataRequest → Word × D)

namespace Timed

/-- `MEM` makes a request. -/
def requests (s : Timed D) : Bool :=
  s.pipe.cpu.request.memRead || s.pipe.cpu.request.memWrite

/-- A request is served when the pipeline advances past it. -/
def step (s : Timed D) (i : Ports) : Timed D where
  pipe := s.pipe.step x i
  data :=
    if s.pipe.cpu.stageRegLoad i && s.requests then
      (respond s.data s.pipe.cpu.request).2
    else s.data

/-- The same data for the same requests: when the pipeline advances, the
instruction is the program's and a load's data the memory's.  The response
lines, and the data ports of a stalled pipeline, are arbitrary. -/
def legal (s : Timed D) (i : Ports) : Prop :=
  s.pipe.cpu.stageRegLoad i = true →
    i.instRdata = imem s.pipe.cpu.pc ∧
      (s.pipe.cpu.request.memRead = true →
        i.dataRdata = (respond s.data s.pipe.cpu.request).1)

def machine : Machine (Timed D) Ports Effect where
  step := step x respond
  emit s i :=
    if s.pipe.cpu.stageRegLoad i then s.pipe.effects else s.pipe.wbEffects
  legal := legal imem respond

instance decidableTimedLegal (s : Timed D) (i : Ports) :
    Decidable ((machine x imem respond).legal s i) :=
  inferInstanceAs (Decidable (_ = true → _ = _ ∧ (_ = true → _ = _)))

/-- The pipeline advances. -/
def advances (s : Timed D) (i : Ports) : Bool := s.pipe.cpu.stageRegLoad i

/-- Responses without delay. -/
def idealPorts (s : Timed D) : Ports where
  instResp := true
  instRdata := imem s.pipe.cpu.pc
  dataResp := true
  dataRdata :=
    if s.pipe.cpu.request.memRead then (respond s.data s.pipe.cpu.request).1
    else 0#32

private theorem stageRegLoad_ideal (s : Timed D) :
    s.pipe.cpu.stageRegLoad (idealPorts imem respond s) = true := by
  simp [Cpu.stageRegLoad, idealPorts]

def ideal (s : Timed D) : Timed D :=
  step x respond s (idealPorts imem respond s)

/-- The effects of `n` advances without delay. -/
def idealTrace (s : Timed D) : Nat → List Effect
  | 0 => []
  | n + 1 => s.pipe.effects ++ idealTrace (ideal x imem respond s) n

/-- The state after `n` advances without delay. -/
def idealRun (s : Timed D) : Nat → Timed D
  | 0 => s
  | n + 1 => idealRun (ideal x imem respond s) n

/-! ## The simulation -/

/-- `s` is the state `q` of the ideal run, up to `WB`'s pending register write
and to the word that a register without a load carries. -/
structure Same (s q : Timed D) : Prop where
  shape : q.pipe.Shape
  idLive : s.pipe.idLive = q.pipe.idLive
  exLive : s.pipe.exLive = q.pipe.exLive
  memLive : s.pipe.memLive = q.pipe.memLive
  cpu : ∃ regfile held d, s.pipe.cpu =
    { q.pipe.cpu with
      regfile := regfile
      held := held
      stageMEM := { q.pipe.cpu.stageMEM with memRdata := d } }
  wbData : s.pipe.cpu.wbData = q.pipe.cpu.wbData
  regfileNext : s.pipe.cpu.regfileNext = q.pipe.cpu.regfileNext
  data : s.data = q.data

theorem Same.boot {c : Cpu} (h : c.IsReset) (d : D) :
    Same ⟨.boot c, d⟩ ⟨.boot c, d⟩ where
  shape := .boot h
  idLive := rfl
  exLive := rfl
  memLive := rfl
  cpu := ⟨_, _, _, rfl⟩
  wbData := rfl
  regfileNext := rfl
  data := rfl

section Step

variable {imem respond} {s q : Timed D} {i : Ports}

/-- Related states have the same effects. -/
theorem Same.effects (h : Same s q) :
    s.pipe.wbEffects = q.pipe.wbEffects ∧ s.pipe.effects = q.pipe.effects := by
  obtain ⟨f, held, d, hCpu⟩ := h.cpu
  have hWb : s.pipe.wbEffects = q.pipe.wbEffects := by
    rw [Tracked.wbEffects, Tracked.wbEffects, h.wbData, h.memLive, hCpu]
  refine ⟨hWb, ?_⟩
  rw [Tracked.effects, hWb, Tracked.retireEffects, Tracked.memEffects,
    h.memLive, h.exLive, hCpu]
  rfl

/-- A cache stall stays related, and what `WB` writes stays the same. -/
theorem Same.hold (h : Same s q) (hLoad : s.pipe.cpu.stageRegLoad i = false) :
    Same (step x respond s i) q := by
  obtain ⟨f, held, d, hCpu⟩ := h.cpu
  have hClock := Cpu.clock_hold (x := x) hLoad
  have hWb : (step x respond s i).pipe.cpu.wbData = s.pipe.cpu.wbData := by
    simp only [step, Tracked.step, hClock, Cpu.wbData, regfileData_held]
  exact {
    shape := h.shape
    idLive := by simpa [step, Tracked.step, hLoad] using h.idLive
    exLive := by simpa [step, Tracked.step, hLoad] using h.exLive
    memLive := by simpa [step, Tracked.step, hLoad] using h.memLive
    cpu := by
      refine ⟨s.pipe.cpu.regfileNext, s.pipe.cpu.wbData, d, ?_⟩
      simp only [step, Tracked.step, hClock]
      rw [hCpu]
    wbData := hWb.trans h.wbData
    regfileNext := by
      rw [← h.regfileNext]
      simp only [step, Tracked.step, hClock, Cpu.regfileNext, Cpu.wbData,
        regfileData_held, RegFile.write_write]
    data := by simpa [step, hLoad] using h.data }

/-- A register behind `MEM` writes back the data port's word only for a load,
for which the memory decides it. -/
theorem Same.regfileData_eq (h : Same s q)
    (hLoad : s.pipe.cpu.stageRegLoad i = true)
    (hLegal : legal imem respond s i) (held : Word) :
    regfileData { s.pipe.cpu.stageEX with memRdata := i.dataRdata } held =
      regfileData
        { q.pipe.cpu.stageEX with
          memRdata := (idealPorts imem respond q).dataRdata } held := by
  obtain ⟨f, held', d, hCpu⟩ := h.cpu
  have hEX : s.pipe.cpu.stageEX = q.pipe.cpu.stageEX := by rw [hCpu]
  have hRequest : s.pipe.cpu.request = q.pipe.cpu.request := by
    rw [Cpu.request, hEX]
    rfl
  rw [hEX]
  by_cases hSel : q.pipe.cpu.stageEX.controlWord.wbmuxSel = .memRdata
  · have hRead : q.pipe.cpu.request.memRead = true := by
      cases hLive : q.pipe.exLive with
      | false => exact absurd hSel (h.shape.exEmpty hLive).wbmuxSel
      | true =>
          have hDec := h.shape.ex hLive
          rw [Decoded] at hDec
          have hMem := control_memRead q.pipe.cpu.stageEX.instruction
          have hWb : q.pipe.cpu.stageEX.controlWord.wbmuxSel =
              (control q.pipe.cpu.stageEX.instruction).wbmuxSel := by
            rw [hDec]
          rw [← hWb, hSel] at hMem
          show q.pipe.cpu.stageEX.controlWord.memRead = true
          rw [hDec]
          simpa using hMem
    have hData := (hLegal hLoad).2 (by rw [hRequest]; exact hRead)
    rw [hData, hRequest, h.data, idealPorts, hRead]
    rfl
  · simp only [regfileData]
    cases hCase : q.pipe.cpu.stageEX.controlWord.wbmuxSel <;> simp_all

/-- An advance of any schedule is an advance of the ideal run. -/
theorem Same.advance (h : Same s q)
    (hLoad : s.pipe.cpu.stageRegLoad i = true)
    (hLegal : legal imem respond s i) :
    Same (step x respond s i) (ideal x imem respond q) := by
  have hWb := h.regfileData_eq hLoad hLegal q.pipe.cpu.wbData
  have hInst := (hLegal hLoad).1
  have hLoad' := stageRegLoad_ideal imem respond q
  obtain ⟨f, held, d, hCpu⟩ := h.cpu
  have hSame : s.pipe.cpu.pc = q.pipe.cpu.pc ∧
      s.pipe.cpu.stageID = q.pipe.cpu.stageID ∧
      s.pipe.cpu.stageEX = q.pipe.cpu.stageEX ∧
      s.pipe.cpu.flushCounter = q.pipe.cpu.flushCounter ∧
      s.pipe.cpu.stall = q.pipe.cpu.stall ∧
      s.pipe.cpu.pcmuxOut = q.pipe.cpu.pcmuxOut ∧
      s.pipe.cpu.request = q.pipe.cpu.request := by
    rw [hCpu]
    exact ⟨rfl, rfl, rfl, rfl, rfl, rfl, rfl⟩
  obtain ⟨hPc, hID, hEX, hCounter, hStall, hPcmux, hRequest⟩ := hSame
  have hWrites : ∀ r, s.pipe.cpu.stageMEM.writes r =
      q.pipe.cpu.stageMEM.writes r := by
    intro r
    rw [hCpu]
    rfl
  have hRs1 : s.pipe.cpu.rs1Out = q.pipe.cpu.rs1Out := by
    simp only [Cpu.rs1Out, forward, hEX, hID, h.wbData, hWrites]
  have hRs2 : s.pipe.cpu.rs2Out = q.pipe.cpu.rs2Out := by
    simp only [Cpu.rs2Out, forward, hEX, hID, h.wbData, hWrites]
  have hExIn : s.pipe.cpu.exIn = q.pipe.cpu.exIn := by
    rw [Cpu.exIn, Cpu.exIn, hID, hRs1, hRs2]
  have hRedirect : s.pipe.cpu.redirect = q.pipe.cpu.redirect := by
    rw [Cpu.redirect, Cpu.redirect, hID, hExIn]
  have hOperand : ∀ r, s.pipe.cpu.idOperand r = q.pipe.cpu.idOperand r := by
    intro r
    have hNext := h.regfileNext
    rw [Cpu.regfileNext, Cpu.regfileNext] at hNext
    rw [Cpu.idOperand, Cpu.idOperand, RegFile.readPort_eq, RegFile.readPort_eq,
      hNext]
  have hNext : s.pipe.cpu.stageRegNext x = q.pipe.cpu.stageRegNext x := by
    rw [Cpu.stageRegNext, Cpu.stageRegNext, hCounter, hStall, hExIn]
  have hLeaves : s.pipe.leaves = q.pipe.leaves := by
    rw [Tracked.leaves, Tracked.leaves, h.idLive, hCounter, hStall]
  have hInst' : i.instRdata = (idealPorts imem respond q).instRdata := by
    rw [hInst, hPc]
    rfl
  have hWbNext : (step x respond s i).pipe.cpu.wbData =
      (ideal x imem respond q).pipe.cpu.wbData := by
    simp only [step, ideal, Tracked.step, Cpu.clock, hLoad, hLoad', if_true]
    show regfileData _ s.pipe.cpu.wbData = regfileData _ q.pipe.cpu.wbData
    rw [h.wbData]
    exact hWb
  exact {
    shape := h.shape.step x _
    idLive := by
      simp only [step, ideal, Tracked.step, hLoad, hLoad', hStall, h.idLive]
    exLive := by
      simp only [step, ideal, Tracked.step, hLoad, hLoad', hLeaves, if_true]
    memLive := by
      simp only [step, ideal, Tracked.step, hLoad, hLoad', h.exLive, if_true]
    cpu := by
      refine ⟨s.pipe.cpu.regfileNext, s.pipe.cpu.wbData, i.dataRdata, ?_⟩
      simp only [step, ideal, Tracked.step, Cpu.clock, hLoad, hLoad', hPc, hID,
        hEX, hCounter, hStall, hPcmux, hRedirect, hOperand, hNext, hInst',
        if_true]
    wbData := hWbNext
    regfileNext := by
      have hOld := h.regfileNext
      rw [Cpu.regfileNext, Cpu.regfileNext, hWbNext]
      simp only [step, ideal, Tracked.step, Cpu.clock, hLoad, hLoad', hEX, hOld,
        if_true]
    data := by
      simp only [step, ideal, requests, hLoad, hLoad', hRequest, h.data] }
end Step

/-! ## Traces -/

section Traces

variable {imem respond}

/-- The head of the ideal trace is the register write that is pending. -/
theorem head?_idealTrace_append {q : Timed D} {e : Effect}
    (h : q.pipe.wbEffects = [e]) (n : Nat) (tail : List Effect) :
    (idealTrace x imem respond q (n + 1) ++ tail).head? = some e := by
  simp [idealTrace, Tracked.effects, h]

/-- The pending register write is at most one. -/
theorem wbEffects_cases (t : Tracked) :
    t.wbEffects = [] ∨
      ∃ e, t.wbEffects = [e] ∧ Effect.isRegWrite e = true := by
  rw [Tracked.wbEffects]
  split
  · exact .inr ⟨_, rfl, rfl⟩
  · exact .inl rfl

/-- A run without repetitions is the ideal trace of as many advances, and
possibly the register write of the stall it ends in. -/
theorem Same.run {s q : Timed D} (is : List Ports) (h : Same s q)
    (hLegal : (machine x imem respond).Legal s is) :
    let n := (machine x imem respond).count advances s is
    ∃ tail, (tail = [] ∨ tail = (idealRun x imem respond q n).pipe.wbEffects) ∧
      Stutter.collapse Effect.isRegWrite
          ((machine x imem respond).events s is) =
        idealTrace x imem respond q n ++ tail := by
  induction is generalizing s q with
  | nil => exact ⟨[], .inl rfl, rfl⟩
  | cons i is ih =>
      cases hLoad : s.pipe.cpu.stageRegLoad i with
      | true =>
          have hStep := h.advance x hLoad hLegal.1
          obtain ⟨tail, hTail, hTrace⟩ := ih hStep hLegal.2
          have hCount : (machine x imem respond).count advances s (i :: is) =
              (machine x imem respond).count advances
                (step x respond s i) is + 1 := by
            simp [Machine.count, advances, hLoad, machine, Nat.add_comm]
          rw [hCount]
          refine ⟨tail, hTail, ?_⟩
          have hEvents : (machine x imem respond).events s (i :: is) =
              q.pipe.effects ++
                (machine x imem respond).events (step x respond s i) is := by
            rw [Machine.events, ← h.effects.2]
            simp [machine, hLoad]
          rw [hEvents, Tracked.collapse_effects, idealTrace, List.append_assoc]
          exact congrArg (q.pipe.effects ++ ·) hTrace
      | false =>
          have hStep : Same (step x respond s i) q := h.hold x hLoad
          obtain ⟨tail, hTail, hTrace⟩ := ih hStep hLegal.2
          have hCount : (machine x imem respond).count advances s (i :: is) =
              (machine x imem respond).count advances
                (step x respond s i) is := by
            simp [Machine.count, advances, hLoad, machine]
          have hEvents : (machine x imem respond).events s (i :: is) =
              q.pipe.wbEffects ++
                (machine x imem respond).events (step x respond s i) is := by
            rw [Machine.events, ← h.effects.1]
            simp [machine, hLoad]
          rw [hCount, hEvents]
          rcases wbEffects_cases q.pipe with hNone | ⟨e, hOne, hWrite⟩
          · rw [hNone]
            exact ⟨tail, hTail, hTrace⟩
          · rw [hOne, List.singleton_append]
            cases hn : (machine x imem respond).count advances
                (step x respond s i) is with
            | succ n =>
                rw [hn] at hTail hTrace
                refine ⟨tail, hTail, ?_⟩
                rw [Stutter.collapse_cons_of_head _ hWrite, hTrace]
                rw [hTrace]
                exact head?_idealTrace_append x hOne n tail
            | zero =>
                rw [hn] at hTail hTrace
                refine ⟨[e], .inr hOne.symm, ?_⟩
                rcases hTail with rfl | hTail
                · rw [Stutter.collapse_cons_of_head_ne, hTrace]
                  · rfl
                  · rw [hTrace]
                    simp [idealTrace]
                · have hTail' : tail = [e] := hTail.trans hOne
                  subst hTail'
                  rw [Stutter.collapse_cons_of_head _ hWrite, hTrace]
                  rw [hTrace]
                  rfl

/-- Longer ideal traces extend shorter ones, past the pending write. -/
theorem idealTrace_append_le (q : Timed D) {n k : Nat} (h : n < k)
    {tail : List Effect}
    (hTail : tail = [] ∨ tail = (idealRun x imem respond q n).pipe.wbEffects) :
    idealTrace x imem respond q n ++ tail <+: idealTrace x imem respond q k := by
  induction n generalizing q k with
  | zero =>
      cases k with
      | zero => omega
      | succ k =>
          rw [idealTrace, idealTrace, List.nil_append]
          rcases hTail with rfl | rfl
          · exact List.nil_prefix
          · rw [idealRun, Tracked.effects, List.append_assoc]
            exact List.prefix_append _ _
  | succ n ih =>
      cases k with
      | zero => omega
      | succ k =>
          rw [idealTrace, idealTrace, List.append_assoc]
          exact (List.prefix_append_right_inj _).2
            (ih _ (by omega) hTail)

end Traces

/-! ## The result -/

/--
**Latency insensitivity.**  For every program, data memory and initial
register file, and any two schedules of responses: without the repeated
register writes of stalls, the effects of the schedule with fewer advances are
an initial piece of the other's; with equally many, one of the two may have
begun the next register write.
-/
theorem latency_insensitive {c : Cpu} (hReset : c.IsReset) (d : D)
    (is js : List Ports)
    (hIs : (machine x imem respond).Legal ⟨.boot c, d⟩ is)
    (hJs : (machine x imem respond).Legal ⟨.boot c, d⟩ js) :
    let trace := fun ks => Stutter.collapse Effect.isRegWrite
      ((machine x imem respond).events ⟨.boot c, d⟩ ks)
    let advanced := (machine x imem respond).count advances ⟨.boot c, d⟩
    (advanced is < advanced js → trace is <+: trace js) ∧
      (advanced is = advanced js →
        trace is <+: trace js ∨ trace js <+: trace is) := by
  obtain ⟨tailI, hTailI, hTraceI⟩ := (Same.boot hReset d).run x is hIs
  obtain ⟨tailJ, hTailJ, hTraceJ⟩ := (Same.boot hReset d).run x js hJs
  refine ⟨fun hLess => ?_, fun hEq => ?_⟩
  · show Stutter.collapse _ _ <+: Stutter.collapse _ _
    rw [hTraceI, hTraceJ]
    exact (idealTrace_append_le x _ hLess hTailI).trans
      (List.prefix_append _ _)
  · show Stutter.collapse _ _ <+: Stutter.collapse _ _ ∨
      Stutter.collapse _ _ <+: Stutter.collapse _ _
    rw [hTraceI, hTraceJ]
    rw [hEq] at hTailI ⊢
    rcases hTailI with rfl | rfl
    · left
      rw [List.append_nil]
      exact List.prefix_append _ _
    · rcases hTailJ with rfl | rfl
      · right
        rw [List.append_nil]
        exact List.prefix_append _ _
      · exact .inl (List.prefix_refl _)

end Timed

end

namespace Timed

/-- `lw x1, 0(x0)` and `sw x1, 4(x0)` at the reset address. -/
def copyProgram (a : Word) : Word :=
  if a = 0x60#32 then 0x00002083#32
  else if a = 0x64#32 then 0x00102223#32
  else 0x00000013#32

/-- A data port that returns the number of requests before. -/
def countingPort (n : Nat) (_ : DataRequest) : Word × Nat :=
  (BitVec.ofNat 32 n, n + 1)

/-- `copyProgram` without delays. -/
def promptRun : List Ports :=
  [⟨true, copyProgram 0x60#32, true, 0#32⟩,
    ⟨true, copyProgram 0x64#32, true, 0#32⟩,
    ⟨true, copyProgram 0x68#32, true, 7#32⟩,
    ⟨true, copyProgram 0x68#32, true, 0#32⟩,
    ⟨true, copyProgram 0x6C#32, true, 0#32⟩]

/-- `copyProgram` with an instruction miss and a data miss. -/
def delayedRun : List Ports :=
  [⟨false, 0#32, false, 0#32⟩, ⟨true, copyProgram 0x60#32, true, 0#32⟩,
    ⟨true, copyProgram 0x64#32, true, 0#32⟩, ⟨true, 0#32, false, 1#32⟩,
    ⟨true, copyProgram 0x68#32, true, 7#32⟩]

theorem latency_insensitive_copyRuns :
    let M := machine ⟨.zero, .zero⟩ copyProgram countingPort
    let trace := fun ks => Stutter.collapse Effect.isRegWrite
      (M.events ⟨.boot Cpu.afterReset, 7⟩ ks)
    let advanced := M.count advances ⟨.boot Cpu.afterReset, 7⟩
    (advanced delayedRun < advanced promptRun →
        trace delayedRun <+: trace promptRun) ∧
      (advanced delayedRun = advanced promptRun →
        trace delayedRun <+: trace promptRun ∨
          trace promptRun <+: trace delayedRun) :=
  latency_insensitive ⟨.zero, .zero⟩ copyProgram countingPort
    Cpu.afterReset_isReset 7 delayedRun promptRun (by decide +kernel)
    (by decide +kernel)

end Timed

end CompE.Mp3
