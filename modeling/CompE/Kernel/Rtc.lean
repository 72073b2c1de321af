import CompE.Kernel.Descriptors
import CompE.Library.Trace

/-!
# The RTC driver

`rtc.c` and the interrupt line of `i8259.c`, with any number of processes in
the driver at a time.  A process can be preempted between any two statements
while interrupts are enabled: system calls run with interrupts, `rtc_write`
turns them off around `rtc_set_frequency`, `rtc_open` does not.

The flag of `rtc_read` is shared: `rtc_reads` says what a return means and
what keeps a reader waiting, `readers_overtaken` that there is no bound on it.
`rtc_line_open` is about every interleaving: no interrupt of the RTC stays
behind.  `rtc_rate_kept` and `reader_released` are about the runs in which the
timer does not take the processor from `rtc_open` while it sets the rate; see
`State.Disturbed`.
-/

namespace CompE.Kernel.Rtc

open CompE.Library

/-! ## The devices -/

/-- The registers that the driver selects. -/
inductive Reg where
  | a
  | b
  | c
  deriving DecidableEq

/-- `RTC_IRQ_NUMBER - SLAVE_IRQOFF`, as a bit of `slave_mask`. -/
def rtcLine : BitVec 8 := 1#8 <<< (0x28 - 0x28)

/-- The `switch` of `rtc_set_frequency`: `none` where it returns without a
change. -/
def rates : List (BitVec 32 × Option (BitVec 4)) :=
  [(8192, none), (4096, none), (2048, none), (1024, some 0x06),
    (512, some 0x07), (256, some 0x08), (128, some 0x09), (64, some 0x0A),
    (32, some 0x0B), (16, some 0x0C), (8, some 0x0D), (4, some 0x0E),
    (2, some 0x0F)]

/-- The case of a frequency; `none` for the default. -/
def rateOf (frequency : BitVec 32) : Option (Option (BitVec 4)) :=
  (rates.find? fun c => c.1 == frequency).map Prod.snd

/-- What `rtc_write` accepts. -/
theorem rateOf_isSome (frequency : BitVec 32) :
    (rateOf frequency).isSome = true ↔ frequency ∈ rtcFrequencies := by
  have hTable : rtcFrequencies = rates.map Prod.fst := rfl
  rw [rateOf, Option.isSome_map, List.find?_isSome, hTable, List.mem_map]
  simp only [beq_iff_eq]

/-- The rates divide 32768 Hz. -/
theorem rateOf_hertz {frequency : BitVec 32} {rate : BitVec 4}
    (h : rateOf frequency = some (some rate)) :
    frequency.toNat <<< (rate.toNat - 1) = 32768 := by
  have hTable : ∀ c ∈ rates,
      (c.2.all fun r => c.1.toNat <<< (r.toNat - 1) == 32768) = true :=
    List.all_eq_true.1 (by decide)
  obtain ⟨c, hFind, hRate⟩ := Option.map_eq_some_iff.1 h
  have hKey : c.1 = frequency := by
    simpa using List.find?_some hFind
  have hRow := hTable c (List.mem_of_find?_eq_some hFind)
  rw [hRate, hKey] at hRow
  exact eq_of_beq hRow

/-! ## The processes -/

/-- The statements of `rtc_set_frequency` behind its `switch`; `disable_irq`
and `enable_irq` are two each. -/
inductive SetStmt where
  | maskShadow
  | maskPort
  | select
  | fetch
  | selectAgain
  | store
  | unmaskShadow
  | unmaskPort
  deriving DecidableEq

/-- Where a process is in the driver. -/
inductive Place where
  | outside
  /-- before `rtc_interrupt_flag = 1` -/
  | reading
  /-- at `while (rtc_interrupt_flag)` -/
  | spinning
  /-- before the `cli` of `rtc_write` -/
  | writing (frequency : BitVec 32)
  /-- before the `rtc_set_frequency(2)` of `rtc_open` -/
  | opening
  /-- in `rtc_set_frequency`, called by `rtc_write` if `guarded` -/
  | setting (guarded : Bool) (stmt : SetStmt) (freq : BitVec 4)
      (prevData : BitVec 8)
  /-- before the `sti` of `rtc_write` -/
  | closing
  deriving DecidableEq

/-- The calls of the driver. -/
inductive Call where
  | read
  | write (frequency : BitVec 32)
  | openRtc
  deriving DecidableEq

/-- The place at which a call begins. -/
def Call.place : Call → Place
  | .read => .reading
  | .write frequency => .writing frequency
  | .openRtc => .opening

/-- The devices, the flag and the processes. -/
structure State (Pid : Type) where
  /-- `rtc_interrupt_flag` -/
  flag : Bool
  slaveMask : BitVec 8
  /-- the mask in the controller -/
  slavePort : BitVec 8
  selected : Reg
  /-- register A without its update bit -/
  divider : BitVec 3
  rate : BitVec 4
  regB : BitVec 8
  regC : BitVec 8
  /-- the controller has the interrupt -/
  requested : Bool
  /-- interrupts are enabled in the running process -/
  interrupts : Bool
  running : Pid
  place : Pid → Place

/-- What the world does. -/
inductive Move (Pid : Type) where
  | call (c : Call)
  /-- the next statement of the running process -/
  | go
  /-- the timer brings another process back -/
  | switch (p : Pid)
  /-- a period of the RTC is over -/
  | tick
  /-- `rtc_interrupt` -/
  | interrupt
  deriving DecidableEq

/-- What a run shows. -/
inductive Event (Pid : Type) where
  /-- a process has set the flag -/
  | asked (p : Pid)
  /-- the test of the loop fails -/
  | waited (p : Pid)
  /-- `rtc_read` returns -/
  | returned (p : Pid)
  | handled
  /-- `rtc_set_frequency` begins to set the rate of a frequency -/
  | sets (frequency : BitVec 32)
  deriving DecidableEq

variable {Pid : Type}

def Event.isAsked : Event Pid → Bool
  | .asked _ => true
  | .waited _ | .returned _ | .handled | .sets _ => false

def Event.isHandled : Event Pid → Bool
  | .handled => true
  | .asked _ | .waited _ | .returned _ | .sets _ => false

theorem Event.isAsked_iff {e : Event Pid} :
    e.isAsked = true ↔ ∃ q, e = .asked q := by
  cases e <;> simp [isAsked]

theorem Event.isHandled_iff {e : Event Pid} :
    e.isHandled = true ↔ e = .handled := by
  cases e <;> simp [isHandled]

variable [DecidableEq Pid]

namespace State

/-- The running process goes on elsewhere. -/
def goto (s : State Pid) (place : Place) : State Pid :=
  { s with place := Function.update s.place s.running place }

/-- `inb(RTC_DATA_PORT)`. -/
def dataPort (s : State Pid) : BitVec 8 :=
  match s.selected with
  | .a => 0#1 ++ s.divider ++ s.rate
  | .b => s.regB
  | .c => s.regC

/-- Register C is cleared when it is read. -/
def afterInb (s : State Pid) : State Pid :=
  match s.selected with
  | .a | .b => s
  | .c => { s with regC := 0#8 }

/-- `outb(data, RTC_DATA_PORT)`.  Register C is read only. -/
def outb (s : State Pid) (data : BitVec 8) : State Pid :=
  match s.selected with
  | .a => { s with divider := data.extractLsb' 4 3, rate := data.extractLsb' 0 4 }
  | .b => { s with regB := data }
  | .c => s

end State

namespace SetStmt

variable (s : State Pid) (guarded : Bool) (freq : BitVec 4)
  (prevData : BitVec 8)

/-- What a statement does to the devices. -/
def effect : SetStmt → State Pid
  | .maskShadow => { s with slaveMask := s.slaveMask ||| rtcLine }
  | .maskPort => { s with slavePort := s.slaveMask }
  | .select | .selectAgain => { s with selected := .a }
  | .fetch => s.afterInb
  | .store => s.outb ((prevData &&& 0xF0#8) ||| freq.setWidth 8)
  | .unmaskShadow => { s with slaveMask := s.slaveMask &&& ~~~ rtcLine }
  | .unmaskPort => { s with slavePort := s.slaveMask }

/-- Where it leads. -/
def after : SetStmt → Place
  | .maskShadow => .setting guarded .maskPort freq prevData
  | .maskPort => .setting guarded .select freq prevData
  | .select => .setting guarded .fetch freq prevData
  | .fetch => .setting guarded .selectAgain freq s.dataPort
  | .selectAgain => .setting guarded .store freq prevData
  | .store => .setting guarded .unmaskShadow freq prevData
  | .unmaskShadow => .setting guarded .unmaskPort freq prevData
  | .unmaskPort => if guarded then .closing else .outside

end SetStmt

namespace State

/-- The next statement of the running process. -/
def goStep (s : State Pid) : State Pid :=
  match s.place s.running with
  | .outside => s
  | .reading => { s with flag := true }.goto .spinning
  | .spinning => if s.flag then s else s.goto .outside
  | .writing frequency =>
      { s with interrupts := false }.goto
        (match rateOf frequency with
        | some (some freq) => .setting true .maskShadow freq 0#8
        | some none | none => .closing)
  | .opening => s.goto (.setting false .maskShadow 0x0F#4 0#8)
  | .setting guarded stmt freq prevData =>
      (stmt.effect s freq prevData).goto (stmt.after s guarded freq prevData)
  | .closing => { s with interrupts := true }.goto .outside

/-- A move. -/
def next (s : State Pid) : Move Pid → State Pid
  | .call c => s.goto c.place
  | .go => s.goStep
  | .switch p => { s with running := p }
  | .tick =>
      { s with
        regC := s.regC ||| 0xC0#8
        requested := s.requested || !s.regC.getLsbD 7 }
  | .interrupt =>
      { s with selected := .c, regC := 0#8, flag := false, requested := false }

/-- When a move can be made.  The RTC counts with one setting of its divider
only. -/
def Enabled (s : State Pid) : Move Pid → Prop
  | .call _ => s.place s.running = .outside
  | .go => s.place s.running ≠ .outside
  | .switch _ => s.interrupts = true
  | .tick => s.divider = 0b010#3
  | .interrupt => s.interrupts = true ∧ s.requested = true ∧
      s.slavePort &&& rtcLine = 0#8

instance decidableEnabled (s : State Pid) (m : Move Pid) :
    Decidable (s.Enabled m) :=
  match m with
  | .call _ | .switch _ | .tick => inferInstanceAs (Decidable (_ = _))
  | .go => inferInstanceAs (Decidable (_ ≠ _))
  | .interrupt => inferInstanceAs (Decidable (_ ∧ _))

def emit (s : State Pid) : Move Pid → List (Event Pid)
  | .go =>
      match s.place s.running with
      | .reading => [.asked s.running]
      | .spinning => if s.flag then [.waited s.running] else [.returned s.running]
      | .writing frequency =>
          if (rateOf frequency).join.isSome then [.sets frequency] else []
      | .opening => [.sets 2#32]
      | .outside | .setting _ _ _ _ | .closing => []
  | .interrupt => [.handled]
  | .call _ | .switch _ | .tick => []

end State

/-- The driver, behind `init_rtc`. -/
def driver : Machine (State Pid) (Move Pid) (Event Pid) where
  step := State.next
  emit := State.emit
  legal := State.Enabled

instance decidableLegal (s : State Pid) (m : Move Pid) :
    Decidable (driver.legal s m) :=
  inferInstanceAs (Decidable (s.Enabled m))

/-- The driver when no process has used it. -/
def boot (p : Pid) (rate : BitVec 4) (regB : BitVec 8) : State Pid where
  flag := false
  slaveMask := 0xFE#8
  slavePort := 0xFE#8
  selected := .b
  divider := 0b010#3
  rate := rate
  regB := regB
  regC := 0#8
  requested := false
  interrupts := true
  running := p
  place := fun _ => .outside

/-! ## Readers -/

section Readers

variable {s : State Pid} {m : Move Pid}

omit [DecidableEq Pid] in
/-- What the statements of `rtc_set_frequency` leave alone. -/
theorem effect_frame (s : State Pid) (freq : BitVec 4) (prevData : BitVec 8)
    (stmt : SetStmt) :
    (stmt.effect s freq prevData).flag = s.flag ∧
      (stmt.effect s freq prevData).requested = s.requested ∧
      (stmt.effect s freq prevData).interrupts = s.interrupts ∧
      (stmt.effect s freq prevData).running = s.running ∧
      (stmt.effect s freq prevData).place = s.place := by
  cases stmt with
  | fetch =>
      rw [SetStmt.effect, State.afterInb]
      split <;> exact ⟨rfl, rfl, rfl, rfl, rfl⟩
  | store =>
      rw [SetStmt.effect, State.outb]
      split <;> exact ⟨rfl, rfl, rfl, rfl, rfl⟩
  | maskShadow | maskPort | select | selectAgain | unmaskShadow | unmaskPort =>
      exact ⟨rfl, rfl, rfl, rfl, rfl⟩

/-- The flag says which came last, a request or an interrupt. -/
theorem flag_next (s : State Pid) (m : Move Pid) :
    (s.next m).flag =
      Machine.latch Event.isAsked Event.isHandled s.flag (s.emit m) := by
  cases m with
  | call | switch | tick => rfl
  | interrupt => rfl
  | go =>
      rw [State.next, State.goStep, State.emit]
      cases s.place s.running with
      | outside | reading | opening | closing => rfl
      | spinning =>
          cases hFlag : s.flag with
          | true => exact hFlag
          | false => exact hFlag
      | writing frequency =>
          show s.flag = _
          dsimp only
          split <;> rfl
      | setting guarded stmt freq prevData =>
          exact (effect_frame s freq prevData stmt).1

private theorem flag_run (ms : List (Move Pid)) (s : State Pid) :
    (driver.run s ms).flag =
      Machine.latch Event.isAsked Event.isHandled s.flag (driver.events s ms) := by
  induction ms generalizing s with
  | nil => rfl
  | cons m ms ih =>
      rw [Machine.run, Machine.events, Machine.latch_append, ih]
      exact congrArg (Machine.latch _ _ · _) (flag_next s m)

/-- The place of the running process behind its next statement. -/
def goPlace (s : State Pid) : Place :=
  match s.place s.running with
  | .reading => .spinning
  | .spinning => if s.flag then .spinning else .outside
  | .writing frequency =>
      match rateOf frequency with
      | some (some freq) => .setting true .maskShadow freq 0#8
      | some none | none => .closing
  | .opening => .setting false .maskShadow 0x0F#4 0#8
  | .setting guarded stmt freq prevData => stmt.after s guarded freq prevData
  | .outside | .closing => .outside

private theorem place_goStep (s : State Pid) :
    s.goStep.place = Function.update s.place s.running (goPlace s) := by
  rw [State.goStep, goPlace]
  cases hPlace : s.place s.running with
  | outside =>
      show s.place = Function.update s.place s.running .outside
      rw [← hPlace, Function.update_eq_self]
  | spinning =>
      cases s.flag with
      | true =>
          show s.place = Function.update s.place s.running .spinning
          rw [← hPlace, Function.update_eq_self]
      | false => rfl
  | setting guarded stmt freq prevData =>
      obtain ⟨-, -, -, hRunning, hSame⟩ := effect_frame s freq prevData stmt
      show Function.update (stmt.effect s freq prevData).place _ _ = _
      rw [hSame, hRunning]
  | reading | writing | opening | closing => rfl

private theorem running_goStep (s : State Pid) : s.goStep.running = s.running := by
  rw [State.goStep]
  cases s.place s.running with
  | spinning => cases s.flag <;> rfl
  | setting guarded stmt freq prevData =>
      exact (effect_frame s freq prevData stmt).2.2.2.1
  | outside | reading | writing | opening | closing => rfl

/-- The other processes stay where they are. -/
theorem next_place_of_ne {q : Pid} (h : q ≠ s.running) (m : Move Pid) :
    (s.next m).place q = s.place q := by
  cases m with
  | call c => exact Function.update_of_ne h _ _
  | go =>
      show s.goStep.place q = _
      rw [place_goStep, Function.update_of_ne h]
  | switch | tick | interrupt => rfl

/-- Who is at the loop has set the flag. -/
theorem spinning_next {q : Pid} (h : (s.next m).place q = .spinning) :
    s.place q = .spinning ∨ .asked q ∈ s.emit m := by
  by_cases hOther : q = s.running
  · subst hOther
    cases m with
    | call c =>
        have hPlace : c.place = .spinning := by
          simpa [State.next, State.goto] using h
        cases c <;> cases hPlace
    | go =>
        rw [State.next, place_goStep, Function.update_self, goPlace] at h
        cases hPlace : s.place s.running with
        | reading => exact Or.inr (by simp [State.emit, hPlace])
        | spinning => exact Or.inl rfl
        | writing frequency =>
            rw [hPlace] at h
            dsimp only at h
            split at h <;> cases h
        | setting guarded stmt freq prevData =>
            rw [hPlace] at h
            cases stmt <;> cases guarded <;> cases h
        | outside | opening | closing =>
            rw [hPlace] at h
            cases h
    | switch | tick | interrupt => exact Or.inl h
  · rw [next_place_of_ne hOther] at h
    exact Or.inl h

private theorem spinning_run (ms : List (Move Pid)) (s : State Pid) {q : Pid}
    (h : (driver.run s ms).place q = .spinning) :
    s.place q = .spinning ∨ .asked q ∈ driver.events s ms := by
  induction ms generalizing s with
  | nil => exact Or.inl h
  | cons m ms ih =>
      rw [Machine.events, List.mem_append]
      rcases ih (s.next m) h with hNext | hLater
      · exact (spinning_next hNext).imp_right Or.inl
      · exact Or.inr (Or.inr hLater)

omit [DecidableEq Pid] in
/-- A test of the loop, and what it finds. -/
theorem emit_test {a b : List (Event Pid)} {e : Event Pid} {p : Pid}
    (h : s.emit m = a ++ e :: b) (he : e = .returned p ∨ e = .waited p) :
    a = [] ∧ s.place p = .spinning ∧ (e = .waited p ↔ s.flag = true) := by
  have hMem : e ∈ s.emit m := by
    rw [h]
    simp
  have hTest : ∃ e', s.emit m = [e'] ∧ s.place s.running = .spinning ∧
      e' = if s.flag then .waited s.running else .returned s.running := by
    cases m with
    | go =>
        rw [State.emit] at hMem ⊢
        cases hPlace : s.place s.running with
        | spinning => cases s.flag <;> exact ⟨_, rfl, rfl, rfl⟩
        | writing frequency =>
            rw [hPlace] at hMem
            dsimp only at hMem
            split at hMem <;> rcases he with rfl | rfl <;> simp at hMem
        | outside | reading | opening | setting | closing =>
            rw [hPlace] at hMem
            rcases he with rfl | rfl <;> simp at hMem
    | call | switch | tick | interrupt =>
        rcases he with rfl | rfl <;> simp [State.emit] at hMem
  obtain ⟨e', hOne, hPlace, rfl⟩ := hTest
  rw [hOne] at h
  have hNil : a = [] := by
    cases a with
    | nil => rfl
    | cons x a => simp at h
  subst hNil
  obtain ⟨hEq, -⟩ := List.cons.inj h
  cases hFlag : s.flag with
  | true =>
      rw [hFlag] at hEq
      rcases he with rfl | rfl
      · cases hEq
      · cases hEq
        exact ⟨rfl, hPlace, by simp⟩
  | false =>
      rw [hFlag] at hEq
      rcases he with rfl | rfl
      · cases hEq
        exact ⟨rfl, hPlace, by simp⟩
      · cases hEq

/-- The test of a loop behind a run from `boot`. -/
theorem test_split {p₀ p : Pid} {rate : BitVec 4} {regB : BitVec 8}
    {ms : List (Move Pid)} {pre post : List (Event Pid)} {e : Event Pid}
    (h : driver.events (boot p₀ rate regB) ms = pre ++ e :: post)
    (he : e = .returned p ∨ e = .waited p) :
    .asked p ∈ pre ∧
      (Machine.latch Event.isAsked Event.isHandled false pre = true ↔
        e = .waited p) := by
  obtain ⟨done, i, rest, a, b, -, hEmit, hPre⟩ :=
    driver.events_split ms (boot p₀ rate regB) pre post e h
  obtain ⟨rfl, hPlace, hFlag⟩ := emit_test hEmit he
  rw [List.append_nil] at hPre
  subst hPre
  have hRun := flag_run done (boot p₀ rate regB)
  constructor
  · exact (spinning_run done _ hPlace).resolve_left Place.noConfusion
  · rw [hFlag, hRun]
    rfl

/--
**What `rtc_read` waits for.**  In every run, when a reader returns an
interrupt has come since its request, and no process has made a request since
that interrupt; and while a reader waits, some request has had no interrupt
yet.
-/
theorem rtc_reads (p₀ : Pid) (rate : BitVec 4) (regB : BitVec 8)
    (ms : List (Move Pid)) :
    (∀ pre p post, driver.events (boot p₀ rate regB) ms =
        pre ++ .returned p :: post →
      ∃ before after, pre = before ++ .handled :: after ∧ .asked p ∈ before ∧
        ∀ q, .asked q ∉ after) ∧
      ∀ pre p post, driver.events (boot p₀ rate regB) ms =
          pre ++ .waited p :: post →
        ∃ before q after, pre = before ++ .asked q :: after ∧
          .handled ∉ after := by
  constructor
  · intro pre p post h
    obtain ⟨hAsked, hLatch⟩ := test_split h (Or.inl rfl)
    have hOff : Machine.latch Event.isAsked Event.isHandled false pre = false := by
      simpa using hLatch
    obtain ⟨before, e, after, hPre, hHandled, hBefore, hAfter⟩ :=
      Machine.latch_off _ _ hAsked rfl hOff
    rw [Event.isHandled_iff.1 hHandled] at hPre
    refine ⟨before, after, hPre, hBefore, ?_⟩
    intro q hq
    cases hAfter _ hq
  · intro pre p post h
    obtain ⟨-, hLatch⟩ := test_split h (Or.inr rfl)
    obtain ⟨before, e, after, hPre, hAsked, hAfter⟩ :=
      Machine.latch_on _ _ (hLatch.2 rfl)
    obtain ⟨q, rfl⟩ := Event.isAsked_iff.1 hAsked
    refine ⟨before, q, after, hPre, ?_⟩
    intro hHandled
    cases hAfter _ hHandled

/-! `q` comes back from every interrupt before `p` runs, and asks again. -/

/-- Both are at the loop, and `q` runs. -/
structure Overtaken (p q : Pid) (s : State Pid) : Prop where
  flag : s.flag = true
  port : s.slavePort &&& rtcLine = 0#8
  divider : s.divider = 0b010#3
  regC : s.regC = 0#8
  interrupts : s.interrupts = true
  running : s.running = q
  slow : s.place p = .spinning
  fast : s.place q = .spinning

/-- A period of the RTC. -/
def overtaking (p q : Pid) : List (Move Pid) :=
  [.tick, .interrupt, .go, .call .read, .go, .switch p, .go, .switch q]

private theorem overtaken_round {p q : Pid} (hne : p ≠ q) (h : Overtaken p q s) :
    driver.Legal s (overtaking p q) ∧
      driver.events s (overtaking p q) =
        [.handled, .returned q, .asked q, .waited p] ∧
      Overtaken p q (driver.run s (overtaking p q)) := by
  obtain ⟨hFlag, hPort, hDivider, hRegC, hInterrupts, rfl, hSlow, hFast⟩ := h
  simp [overtaking, Machine.Legal, Machine.Always, Machine.events, Machine.run,
    driver, State.next, State.emit, State.goStep, State.goto, State.Enabled,
    Call.place, *]
  constructor <;> simp [*]

private theorem overtaken_rounds {p q : Pid} (hne : p ≠ q) (n : Nat) {s : State Pid}
    (h : Overtaken p q s) :
    driver.Legal s (List.replicate n (overtaking p q)).flatten ∧
      driver.events s (List.replicate n (overtaking p q)).flatten =
        (List.replicate n
          [.handled, .returned q, .asked q, .waited p]).flatten := by
  induction n generalizing s with
  | zero => exact ⟨trivial, rfl⟩
  | succ n ih =>
      obtain ⟨hLegal, hEvents, hNext⟩ := overtaken_round hne h
      obtain ⟨hLater, hRest⟩ := ih hNext
      simp only [List.replicate_succ, List.flatten_cons]
      constructor
      · exact (driver.legal_append _ _ _).2 ⟨hLegal, hLater⟩
      · rw [driver.events_append, hEvents, hRest]

/-- The requests of both. -/
theorem overtaken_boot {p q : Pid} (hne : p ≠ q) (rate : BitVec 4)
    (regB : BitVec 8) :
    driver.Legal (boot p rate regB)
        [.call .read, .go, .switch q, .call .read, .go] ∧
      driver.events (boot p rate regB)
          [.call .read, .go, .switch q, .call .read, .go] =
        [.asked p, .asked q] ∧
      Overtaken p q (driver.run (boot p rate regB)
        [.call .read, .go, .switch q, .call .read, .go]) := by
  have hLine : (0xFE#8) &&& rtcLine = 0#8 := by
    decide
  simp [Machine.Legal, Machine.Always, Machine.events, Machine.run, driver, boot,
    State.next, State.emit, State.goStep, State.goto, State.Enabled, Call.place,
    hne.symm]
  constructor <;> simp [hLine, hne]

/--
**Readers can be overtaken.**  One flag serves all readers: for every number of
periods there is a run in which an interrupt comes in each of them, a second
reader returns each time, and the first still waits.
-/
theorem readers_overtaken {p q : Pid} (hne : p ≠ q) (rate : BitVec 4)
    (regB : BitVec 8) (periods : Nat) :
    ∃ ms, driver.Legal (boot p rate regB) ms ∧
      driver.events (boot p rate regB) ms = .asked p :: .asked q ::
        (List.replicate periods
          [.handled, .returned q, .asked q, .waited p]).flatten := by
  obtain ⟨hLegal, hEvents, hStart⟩ := overtaken_boot hne rate regB
  obtain ⟨hLater, hRest⟩ := overtaken_rounds hne periods hStart
  refine ⟨_ ++ _, (driver.legal_append _ _ _).2 ⟨hLegal, hLater⟩, ?_⟩
  rw [driver.events_append, hEvents, hRest]
  rfl

/-- Two processes. -/
theorem readers_overtaken_bool :
    ∃ ms, driver.Legal (boot false 0x06#4 0x42#8) ms ∧
      driver.events (boot false 0x06#4 0x42#8) ms =
        .asked false :: .asked true :: (List.replicate 5
          [.handled, .returned true, .asked true, .waited false]).flatten :=
  readers_overtaken (by decide) 0x06#4 0x42#8 5

end Readers

/-! ## The line -/

/-- `slave_mask` has the bit of the RTC. -/
def SetStmt.shadowed : SetStmt → Bool
  | .maskShadow | .unmaskPort => false
  | .maskPort | .select | .fetch | .selectAgain | .store | .unmaskShadow => true

/-- `disable_irq` has begun. -/
def SetStmt.masked : SetStmt → Bool
  | .maskShadow => false
  | .maskPort | .select | .fetch | .selectAgain | .store | .unmaskShadow
  | .unmaskPort => true

/-- In `rtc_set_frequency`, at one of some statements. -/
def Place.inSet (f : SetStmt → Bool) : Place → Bool
  | .setting _ stmt _ _ => f stmt
  | .outside | .reading | .spinning | .writing _ | .opening | .closing => false

/-- Between the `cli` and the `sti` of `rtc_write`. -/
def Place.guarded : Place → Bool
  | .setting guarded _ _ _ => guarded
  | .closing => true
  | .outside | .reading | .spinning | .writing _ | .opening => false

/-- Every interleaving keeps this. -/
structure Line (regB : BitVec 8) (s : State Pid) : Prop where
  shadow : s.slaveMask &&& rtcLine ≠ 0#8 →
    ∃ p, (s.place p).inSet SetStmt.shadowed = true
  port : s.slavePort &&& rtcLine ≠ 0#8 →
    ∃ p, (s.place p).inSet SetStmt.masked = true
  pending : s.regC.getLsbD 7 = true → s.requested = true
  guarded : s.interrupts = false → (s.place s.running).guarded = true
  kept : s.regB = regB
  selected : s.selected = .b → ∀ p, (s.place p).inSet (· == .store) = false

section Line

variable {s : State Pid} {m : Move Pid} {regB : BitVec 8}

private theorem inSet_mono {f g : SetStmt → Bool} (h : ∀ stmt, f stmt = true → g stmt = true)
    {place : Place} (hf : place.inSet f = true) : place.inSet g = true := by
  cases place with
  | setting guarded stmt freq prevData => exact h stmt hf
  | outside | reading | spinning | writing | opening | closing => exact hf

/-- Who is in a section is not moved by one who is not. -/
theorem inSet_next {f : SetStmt → Bool}
    (hRunning : (s.place s.running).inSet f = false)
    (h : ∃ p, (s.place p).inSet f = true) (m : Move Pid) :
    ∃ p, ((s.next m).place p).inSet f = true := by
  obtain ⟨p, hp⟩ := h
  have hne : p ≠ s.running := by
    rintro rfl
    rw [hRunning] at hp
    cases hp
  exact ⟨p, by rw [next_place_of_ne hne]; exact hp⟩

/-- The running process goes on in `rtc_set_frequency`. -/
theorem goStep_setting {guarded : Bool} {stmt : SetStmt} {freq : BitVec 4}
    {prevData : BitVec 8}
    (h : s.place s.running = .setting guarded stmt freq prevData) :
    s.goStep =
      (stmt.effect s freq prevData).goto (stmt.after s guarded freq prevData) := by
  rw [State.goStep, h]

private theorem place_setting {guarded : Bool} {stmt : SetStmt} {freq : BitVec 4}
    {prevData : BitVec 8}
    (h : s.place s.running = .setting guarded stmt freq prevData) :
    s.goStep.place s.running = stmt.after s guarded freq prevData := by
  rw [place_goStep, Function.update_self, goPlace, h]

section Setting

variable {guarded : Bool} {stmt : SetStmt} {freq : BitVec 4}
  {prevData : BitVec 8}
  (hPlace : s.place s.running = .setting guarded stmt freq prevData)
include hPlace

private theorem shadow_set (h : Line regB s) (hBit : s.goStep.slaveMask &&& rtcLine ≠ 0#8) :
    ∃ p, (s.goStep.place p).inSet SetStmt.shadowed = true := by
  have hSelf := place_setting hPlace
  rw [goStep_setting hPlace] at hBit
  cases stmt with
  | unmaskShadow =>
      have hClear : (s.slaveMask &&& ~~~ rtcLine) &&& rtcLine = 0#8 := by
        rw [BitVec.and_assoc]
        exact BitVec.and_zero
      exact absurd hClear hBit
  | unmaskPort =>
      have hHere : (s.place s.running).inSet SetStmt.shadowed = false := by
        rw [hPlace]
        rfl
      exact inSet_next hHere (h.shadow hBit) .go
  | maskShadow | maskPort | select | fetch | selectAgain | store =>
      exact ⟨s.running, by rw [hSelf]; rfl⟩

/-- The last `outb` brings out what others have masked meanwhile. -/
theorem port_set (h : Line regB s) (hBit : s.goStep.slavePort &&& rtcLine ≠ 0#8) :
    ∃ p, (s.goStep.place p).inSet SetStmt.masked = true := by
  have hSelf := place_setting hPlace
  rw [goStep_setting hPlace] at hBit
  cases stmt with
  | maskShadow =>
      have hHere : (s.place s.running).inSet SetStmt.masked = false := by
        rw [hPlace]
        rfl
      exact inSet_next hHere (h.port hBit) .go
  | unmaskPort =>
      have hHere : (s.place s.running).inSet SetStmt.shadowed = false := by
        rw [hPlace]
        rfl
      obtain ⟨p, hp⟩ := inSet_next hHere (h.shadow hBit) .go
      refine ⟨p, inSet_mono ?_ hp⟩
      intro stmt hStmt
      cases stmt <;> first | rfl | cases hStmt
  | maskPort | select | fetch | selectAgain | store | unmaskShadow =>
      exact ⟨s.running, by rw [hSelf]; rfl⟩

private theorem pending_set (h : Line regB s) (hBit : s.goStep.regC.getLsbD 7 = true) :
    s.goStep.requested = true := by
  rw [goStep_setting hPlace] at hBit ⊢
  have hSame : (stmt.effect s freq prevData).requested = s.requested :=
    (effect_frame s freq prevData stmt).2.1
  refine hSame.trans (h.pending ?_)
  cases stmt with
  | fetch =>
      cases hSelected : s.selected with
      | c => simp [State.goto, SetStmt.effect, State.afterInb, hSelected] at hBit
      | a | b =>
          simpa [State.goto, SetStmt.effect, State.afterInb, hSelected] using hBit
  | store =>
      cases hSelected : s.selected <;>
        simpa [State.goto, SetStmt.effect, State.outb, hSelected] using hBit
  | maskShadow | maskPort | select | selectAgain | unmaskShadow | unmaskPort =>
      exact hBit

/-- No process stores with register B selected. -/
theorem registerB_set (h : Line regB s) : s.goStep.regB = regB := by
  rw [goStep_setting hPlace, ← h.kept]
  cases stmt with
  | fetch =>
      cases hSelected : s.selected <;>
        simp [State.goto, SetStmt.effect, State.afterInb, hSelected]
  | store =>
      cases hSelected : s.selected with
      | a | c => simp [State.goto, SetStmt.effect, State.outb, hSelected]
      | b =>
          have hStore := h.selected hSelected s.running
          rw [hPlace] at hStore
          cases hStore
  | maskShadow | maskPort | select | selectAgain | unmaskShadow | unmaskPort => rfl

private theorem selected_set (h : Line regB s) (hSelected : s.goStep.selected = .b)
    (p : Pid) : (s.goStep.place p).inSet (· == .store) = false := by
  have hSelf := place_setting hPlace
  have hBefore : s.selected = .b ∧ stmt ≠ .select ∧ stmt ≠ .selectAgain := by
    rw [goStep_setting hPlace] at hSelected
    cases stmt with
    | fetch =>
        cases hReg : s.selected <;>
          simp [State.goto, SetStmt.effect, State.afterInb, hReg] at hSelected ⊢
    | store =>
        cases hReg : s.selected <;>
          simp [State.goto, SetStmt.effect, State.outb, hReg] at hSelected ⊢
    | select | selectAgain => cases hSelected
    | maskShadow | maskPort | unmaskShadow | unmaskPort =>
        exact ⟨hSelected, by decide, by decide⟩
  obtain ⟨hReg, -, hAgain⟩ := hBefore
  by_cases hp : p = s.running
  · rw [hp, hSelf]
    cases stmt with
    | selectAgain => exact absurd rfl hAgain
    | unmaskPort => cases guarded <;> rfl
    | maskShadow | maskPort | select | fetch | store | unmaskShadow => rfl
  · rw [show s.goStep = s.next .go from rfl, next_place_of_ne hp]
    exact h.selected hReg p

private theorem guarded_set (h : Line regB s) (hOff : s.goStep.interrupts = false) :
    (s.goStep.place s.goStep.running).guarded = true := by
  have hSelf := place_setting hPlace
  obtain ⟨-, -, hInterrupts, -, -⟩ := effect_frame s freq prevData stmt
  have hBefore : s.interrupts = false := by
    rw [goStep_setting hPlace] at hOff
    exact hInterrupts.symm.trans hOff
  have hGuarded : guarded = true := by
    have hHere := h.guarded hBefore
    rw [hPlace] at hHere
    exact hHere
  rw [running_goStep, hSelf, hGuarded]
  cases stmt <;> rfl

private theorem line_set (h : Line regB s) : Line regB s.goStep where
  shadow := shadow_set hPlace h
  port := port_set hPlace h
  pending := pending_set hPlace h
  guarded := guarded_set hPlace h
  kept := registerB_set hPlace h
  selected := selected_set hPlace h

end Setting

/-- Elsewhere only the handler and the periods of the RTC touch the devices. -/
theorem devices_next (m : Move Pid)
    (hPlace : m = .go → (s.place s.running).inSet (fun _ => true) = false) :
    (s.next m).slaveMask = s.slaveMask ∧ (s.next m).slavePort = s.slavePort ∧
      (s.next m).regB = s.regB ∧ ((s.next m).selected = .b → s.selected = .b) := by
  cases m with
  | call | switch | tick => exact ⟨rfl, rfl, rfl, id⟩
  | interrupt => exact ⟨rfl, rfl, rfl, Reg.noConfusion⟩
  | go =>
      rw [State.next, State.goStep]
      cases hHere : s.place s.running with
      | spinning => cases s.flag <;> exact ⟨rfl, rfl, rfl, id⟩
      | setting guarded stmt freq prevData =>
          have hIn := hPlace rfl
          rw [hHere] at hIn
          cases hIn
      | outside | reading | writing | opening | closing => exact ⟨rfl, rfl, rfl, id⟩

private theorem pending_next (h : Line regB s) (m : Move Pid)
    (hPlace : m = .go → (s.place s.running).inSet (fun _ => true) = false)
    (hBit : (s.next m).regC.getLsbD 7 = true) : (s.next m).requested = true := by
  cases m with
  | call | switch => exact h.pending hBit
  | interrupt => simp [State.next] at hBit
  | tick =>
      show (s.requested || !s.regC.getLsbD 7) = true
      cases hOld : s.regC.getLsbD 7 with
      | false => simp
      | true => simp [h.pending hOld]
  | go =>
      rw [State.next, State.goStep] at hBit ⊢
      cases hHere : s.place s.running with
      | spinning =>
          rw [hHere] at hBit
          cases hFlag : s.flag <;> simp [hFlag, State.goto] at hBit ⊢ <;>
            exact h.pending hBit
      | setting guarded stmt freq prevData =>
          have hIn := hPlace rfl
          rw [hHere] at hIn
          cases hIn
      | outside | reading | writing | opening | closing =>
          rw [hHere] at hBit
          exact h.pending hBit

private theorem guarded_next (h : Line regB s) (hEnabled : s.Enabled m)
    (hPlace : m = .go → (s.place s.running).inSet (fun _ => true) = false)
    (hOff : (s.next m).interrupts = false) :
    ((s.next m).place (s.next m).running).guarded = true := by
  cases m with
  | call c =>
      have hGuarded := h.guarded hOff
      rw [show s.place s.running = .outside from hEnabled] at hGuarded
      cases hGuarded
  | switch p =>
      have hOn : s.interrupts = true := hEnabled
      rw [show (s.next (.switch p)).interrupts = s.interrupts from rfl, hOn] at hOff
      cases hOff
  | tick | interrupt => exact h.guarded hOff
  | go =>
      rw [State.next, State.goStep] at hOff ⊢
      cases hHere : s.place s.running with
      | writing frequency =>
          simp only [State.goto, Function.update_self]
          split <;> rfl
      | closing =>
          rw [hHere] at hOff
          cases hOff
      | setting guarded stmt freq prevData =>
          have hIn := hPlace rfl
          rw [hHere] at hIn
          cases hIn
      | spinning =>
          rw [hHere] at hOff
          have hBefore : s.interrupts = false := by
            cases hFlag : s.flag <;> simpa [hFlag, State.goto] using hOff
          have hGuarded := h.guarded hBefore
          rw [hHere] at hGuarded
          cases hGuarded
      | outside | reading | opening =>
          rw [hHere] at hOff
          have hGuarded := h.guarded hOff
          rw [hHere] at hGuarded
          cases hGuarded

/-- A process enters `rtc_set_frequency` at its first statement. -/
theorem inSet_entered {f : SetStmt → Bool} (hFirst : f .maskShadow = false)
    (hPlace : m = .go → (s.place s.running).inSet (fun _ => true) = false)
    (p : Pid) (hp : ((s.next m).place p).inSet f = true) :
    (s.place p).inSet f = true := by
  by_cases hne : p = s.running
  · subst hne
    cases m with
    | call c =>
        have hIn : c.place.inSet f = true := by
          simpa [State.next, State.goto] using hp
        cases c <;> cases hIn
    | switch | tick | interrupt => exact hp
    | go =>
        rw [State.next, place_goStep, Function.update_self, goPlace] at hp
        have hOut := hPlace rfl
        cases hHere : s.place s.running with
        | setting guarded stmt freq prevData =>
            rw [hHere] at hOut
            cases hOut
        | writing frequency =>
            rw [hHere] at hp
            dsimp only at hp
            split at hp
            · exact absurd hp (by simp [Place.inSet, hFirst])
            · cases hp
            · cases hp
        | opening =>
            rw [hHere] at hp
            exact absurd hp (by simp [Place.inSet, hFirst])
        | spinning =>
            rw [hHere] at hp
            cases hFlag : s.flag <;> simp [hFlag, Place.inSet] at hp
        | outside | reading | closing =>
            rw [hHere] at hp
            cases hp
  · rwa [next_place_of_ne hne] at hp

private theorem line_next (h : Line regB s) (hEnabled : s.Enabled m) :
    Line regB (s.next m) := by
  by_cases hSet : m = .go ∧ (s.place s.running).inSet (fun _ => true) = true
  · obtain ⟨rfl, hIn⟩ := hSet
    cases hHere : s.place s.running with
    | setting guarded stmt freq prevData => exact line_set hHere h
    | outside | reading | spinning | writing | opening | closing =>
        rw [hHere] at hIn
        cases hIn
  · have hPlace : m = .go → (s.place s.running).inSet (fun _ => true) = false := by
      intro hGo
      simpa [hGo] using hSet
    obtain ⟨hMask, hPort, hKept, hSelected⟩ := devices_next m hPlace
    have hStay : ∀ f : SetStmt → Bool, (∃ p, (s.place p).inSet f = true) →
        ∃ p, ((s.next m).place p).inSet f = true := by
      intro f hBefore
      cases hHere : (s.place s.running).inSet f with
      | false => exact inSet_next hHere hBefore m
      | true =>
          have hIn := inSet_mono (g := fun _ => true) (fun _ _ => rfl) hHere
          cases m with
          | call c =>
              rw [show s.place s.running = .outside from hEnabled] at hIn
              cases hIn
          | go =>
              rw [hPlace rfl] at hIn
              cases hIn
          | switch | tick | interrupt => exact hBefore
    exact {
      shadow := fun hBit => hStay _ (h.shadow (by rwa [hMask] at hBit))
      port := fun hBit => hStay _ (h.port (by rwa [hPort] at hBit))
      pending := pending_next h m hPlace
      guarded := guarded_next h hEnabled hPlace
      kept := hKept.trans h.kept
      selected := by
        intro hReg p
        have hBefore := h.selected (hSelected hReg) p
        cases hStore : ((s.next m).place p).inSet (· == .store) with
        | false => rfl
        | true =>
            rw [inSet_entered rfl hPlace p hStore] at hBefore
            cases hBefore }

omit [DecidableEq Pid] in
private theorem line_boot (p : Pid) (rate : BitVec 4) (regB : BitVec 8) :
    Line regB (boot p rate regB) where
  shadow := fun h => absurd (by decide : (0xFE#8) &&& rtcLine = 0#8) h
  port := fun h => absurd (by decide : (0xFE#8) &&& rtcLine = 0#8) h
  pending := fun h => by simp [boot] at h
  guarded := nofun
  kept := rfl
  selected := fun _ _ => rfl

end Line

/-! ## The rate -/

/-- The timer takes the processor from `rtc_set_frequency`: only the call of
`rtc_open` leaves that open. -/
def State.Disturbed (s : State Pid) : Move Pid → Prop
  | .switch _ => (s.place s.running).inSet (fun _ => true) = true
  | .call _ | .go | .tick | .interrupt => False

instance decidableDisturbed (s : State Pid) (m : Move Pid) :
    Decidable (s.Disturbed m) :=
  match m with
  | .switch _ => inferInstanceAs (Decidable (_ = _))
  | .call _ | .go | .tick | .interrupt => inferInstanceAs (Decidable False)

/-- The frequency that was set last. -/
def settings : Acceptor (Option (BitVec 32)) (Event Pid) where
  good := fun _ e =>
    match e with
    | .sets frequency => (rateOf frequency).join.isSome = true
    | .asked _ | .waited _ | .returned _ | .handled => True
  next := fun last e =>
    match e with
    | .sets frequency => some frequency
    | .asked _ | .waited _ | .returned _ | .handled => last

/-- Behind the first `outb` of `disable_irq`. -/
def SetStmt.covered : SetStmt → Bool
  | .maskShadow | .maskPort => false
  | .select | .fetch | .selectAgain | .store | .unmaskShadow | .unmaskPort => true

/-- The rate of the last setting; that of the start if there was none. -/
def AtRate (start : BitVec 4) (s : State Pid) : Option (BitVec 32) → Prop
  | none => s.rate = start
  | some frequency => rateOf frequency = some (some s.rate)

/-- What has been done of a setting. -/
structure InSetting (s : State Pid) (stmt : SetStmt) (freq : BitVec 4)
    (prevData : BitVec 8) (last : Option (BitVec 32)) : Prop where
  set : ∃ frequency, last = some frequency ∧ rateOf frequency = some (some freq)
  shadow : stmt = .maskPort → s.slaveMask &&& rtcLine ≠ 0#8
  port : stmt.covered = true → s.slavePort &&& rtcLine ≠ 0#8
  selected : stmt = .fetch ∨ stmt = .store → s.selected = .a
  fetched : stmt = .selectAgain ∨ stmt = .store →
    prevData.extractLsb' 4 3 = 0b010#3
  stored : stmt = .unmaskShadow ∨ stmt = .unmaskPort → s.rate = freq

/-- Without disturbance one process at a time is in `rtc_set_frequency`. -/
structure Alone (start : BitVec 4) (s : State Pid) (last : Option (BitVec 32)) :
    Prop where
  others : ∀ q, q ≠ s.running → (s.place q).inSet (fun _ => true) = false
  divider : s.divider = 0b010#3
  idle : (s.place s.running).inSet (fun _ => true) = false → AtRate start s last
  busy : ∀ guarded stmt freq prevData,
    s.place s.running = .setting guarded stmt freq prevData →
      InSetting s stmt freq prevData last

private theorem stored_divider (prevData : BitVec 8) (freq : BitVec 4) :
    ((prevData &&& 0xF0#8) ||| freq.setWidth 8).extractLsb' 4 3 =
      prevData.extractLsb' 4 3 := by
  apply BitVec.eq_of_getLsbD_eq
  intro i hi
  have hCases : i = 0 ∨ i = 1 ∨ i = 2 := by
    omega
  rcases hCases with rfl | rfl | rfl <;> simp

private theorem stored_rate (prevData : BitVec 8) (freq : BitVec 4) :
    ((prevData &&& 0xF0#8) ||| freq.setWidth 8).extractLsb' 0 4 = freq := by
  apply BitVec.eq_of_getLsbD_eq
  intro i hi
  have hCases : i = 0 ∨ i = 1 ∨ i = 2 ∨ i = 3 := by
    omega
  rcases hCases with rfl | rfl | rfl | rfl <;> simp

private theorem fetched_divider : ∀ (divider : BitVec 3) (rate : BitVec 4),
    (0#1 ++ divider ++ rate : BitVec 8).extractLsb' 4 3 = divider := by
  decide

private theorem masked_bit (mask : BitVec 8) : (mask ||| rtcLine) &&& rtcLine ≠ 0#8 := by
  intro h
  have hBit := congrArg (BitVec.getLsbD · 0) h
  simp [rtcLine] at hBit

section Alone

variable {s : State Pid} {m : Move Pid} {start : BitVec 4}
  {last : Option (BitVec 32)}

/-- A statement of `rtc_set_frequency`. -/
theorem inSetting_next {stmt : SetStmt} {guarded guarded' : Bool} {freq : BitVec 4}
    {prevData : BitVec 8} (hDivider : s.divider = 0b010#3)
    (h : InSetting s stmt freq prevData last) {stmt' : SetStmt} {freq' : BitVec 4}
    {prevData' : BitVec 8}
    (hAfter : stmt.after s guarded freq prevData =
      .setting guarded' stmt' freq' prevData') (place : Place) :
    InSetting ((stmt.effect s freq prevData).goto place) stmt' freq' prevData'
      last := by
  cases stmt with
  | maskShadow =>
      cases hAfter
      exact ⟨h.set, fun _ => masked_bit s.slaveMask, nofun, nofun, nofun, nofun⟩
  | maskPort =>
      cases hAfter
      exact ⟨h.set, nofun, fun _ => h.shadow rfl, nofun, nofun, nofun⟩
  | select =>
      cases hAfter
      exact ⟨h.set, nofun, fun _ => h.port rfl, fun _ => rfl, nofun, nofun⟩
  | fetch =>
      cases hAfter
      have hReg := h.selected (Or.inl rfl)
      have hData : s.dataPort = 0#1 ++ s.divider ++ s.rate := by
        rw [State.dataPort, hReg]
      have hSame : SetStmt.fetch.effect s freq prevData = s := by
        rw [SetStmt.effect, State.afterInb, hReg]
      rw [hSame]
      refine ⟨h.set, nofun, fun _ => h.port rfl, nofun, ?_, nofun⟩
      intro _
      rw [hData, fetched_divider, hDivider]
  | selectAgain =>
      cases hAfter
      exact ⟨h.set, nofun, fun _ => h.port rfl, fun _ => rfl,
        fun _ => h.fetched (Or.inl rfl), nofun⟩
  | store =>
      cases hAfter
      have hReg := h.selected (Or.inr rfl)
      rw [SetStmt.effect, State.outb, hReg]
      exact ⟨h.set, nofun, fun _ => h.port rfl, nofun, nofun,
        fun _ => stored_rate prevData freq⟩
  | unmaskShadow =>
      cases hAfter
      exact ⟨h.set, nofun, fun _ => h.port rfl, nofun, nofun,
        fun _ => h.stored (Or.inl rfl)⟩
  | unmaskPort => cases guarded <;> cases hAfter

omit [DecidableEq Pid] in
private theorem divider_set {stmt : SetStmt} {freq : BitVec 4} {prevData : BitVec 8}
    (hDivider : s.divider = 0b010#3) (h : InSetting s stmt freq prevData last) :
    (stmt.effect s freq prevData).divider = 0b010#3 := by
  cases stmt with
  | fetch =>
      rw [SetStmt.effect, State.afterInb, h.selected (Or.inl rfl)]
      exact hDivider
  | store =>
      rw [SetStmt.effect, State.outb, h.selected (Or.inr rfl)]
      exact (stored_divider prevData freq).trans (h.fetched (Or.inr rfl))
  | maskShadow | maskPort | select | selectAgain | unmaskShadow | unmaskPort =>
      exact hDivider

/-- Behind the last statement the rate is the one that was to be set. -/
theorem atRate_set {guarded : Bool} {stmt : SetStmt} {freq : BitVec 4}
    {prevData : BitVec 8} (h : InSetting s stmt freq prevData last)
    (hOut : (stmt.after s guarded freq prevData).inSet (fun _ => true) = false)
    (place : Place) :
    AtRate start ((stmt.effect s freq prevData).goto place) last := by
  cases stmt with
  | unmaskPort =>
      obtain ⟨frequency, rfl, hRate⟩ := h.set
      rw [← h.stored (Or.inr rfl)] at hRate
      exact hRate
  | maskShadow | maskPort | select | fetch | selectAgain | store | unmaskShadow =>
      cases hOut

private theorem alone_setting (h : Alone start s last) {guarded : Bool} {stmt : SetStmt}
    {freq : BitVec 4} {prevData : BitVec 8}
    (hPlace : s.place s.running = .setting guarded stmt freq prevData) :
    Alone start s.goStep last := by
  have hHere := h.busy guarded stmt freq prevData hPlace
  have hSelf := place_setting hPlace
  have hRunning := running_goStep s
  refine ⟨?_, ?_, ?_, ?_⟩
  · intro q hq
    rw [hRunning] at hq
    rw [show s.goStep = s.next .go from rfl, next_place_of_ne hq]
    exact h.others q hq
  · rw [goStep_setting hPlace]
    exact divider_set h.divider hHere
  · intro hOut
    rw [hRunning, hSelf] at hOut
    rw [goStep_setting hPlace]
    exact atRate_set hHere hOut _
  · intro guarded' stmt' freq' prevData' hAfter
    rw [hRunning, hSelf] at hAfter
    rw [goStep_setting hPlace]
    exact inSetting_next h.divider hHere hAfter _

omit [DecidableEq Pid] in
theorem AtRate.congr {s' : State Pid} (h : AtRate start s last)
    (hRate : s'.rate = s.rate) : AtRate start s' last := by
  cases last with
  | none => exact hRate.trans h
  | some frequency =>
      rw [AtRate, hRate]
      exact h

omit [DecidableEq Pid] in
/-- The running process goes on outside of `rtc_set_frequency`. -/
theorem alone_moved (h : Alone start s last)
    (hOut : (s.place s.running).inSet (fun _ => true) = false) {s' : State Pid}
    (hDevices : s'.divider = s.divider ∧ s'.rate = s.rate)
    (hRunning : s'.running = s.running)
    (hOthers : ∀ q, q ≠ s.running → s'.place q = s.place q)
    (hSelf : (s'.place s.running).inSet (fun _ => true) = false) :
    Alone start s' last := by
  refine ⟨?_, hDevices.1.trans h.divider, ?_, ?_⟩
  · intro q hq
    rw [hRunning] at hq
    rw [hOthers q hq]
    exact h.others q hq
  · intro _
    exact (h.idle hOut).congr hDevices.2
  · intro guarded stmt freq prevData hPlace
    rw [hRunning] at hPlace
    rw [hPlace] at hSelf
    cases hSelf

omit [DecidableEq Pid] in
/-- A process enters `rtc_set_frequency`. -/
theorem alone_entered (h : Alone start s last) {frequency : BitVec 32}
    {freq : BitVec 4} (hRate : rateOf frequency = some (some freq))
    {guarded : Bool} {s' : State Pid} (hDivider : s'.divider = s.divider)
    (hRunning : s'.running = s.running)
    (hOthers : ∀ q, q ≠ s.running → s'.place q = s.place q)
    (hSelf : s'.place s.running = .setting guarded .maskShadow freq 0#8) :
    Alone start s' (some frequency) := by
  refine ⟨?_, hDivider.trans h.divider, ?_, ?_⟩
  · intro q hq
    rw [hRunning] at hq
    rw [hOthers q hq]
    exact h.others q hq
  · intro hOut
    rw [hRunning, hSelf] at hOut
    cases hOut
  · intro guarded' stmt freq' prevData hPlace
    rw [hRunning, hSelf] at hPlace
    cases hPlace
    exact ⟨⟨frequency, rfl, hRate⟩, nofun, nofun, nofun, nofun, nofun⟩

omit [DecidableEq Pid] in
/-- No process moves; register C may be selected if the line is open. -/
theorem alone_kept (h : Alone start s last) {s' : State Pid}
    (hPlace : s'.place = s.place) (hRunning : s'.running = s.running)
    (hDevices : s'.divider = s.divider ∧ s'.rate = s.rate)
    (hMasks : s'.slaveMask = s.slaveMask ∧ s'.slavePort = s.slavePort)
    (hSelected : s.slavePort &&& rtcLine ≠ 0#8 → s'.selected = s.selected) :
    Alone start s' last := by
  refine ⟨?_, hDevices.1.trans h.divider, ?_, ?_⟩
  · rw [hPlace, hRunning]
    exact h.others
  · intro hOut
    rw [hPlace, hRunning] at hOut
    exact (h.idle hOut).congr hDevices.2
  · intro guarded stmt freq prevData hHere
    rw [hPlace, hRunning] at hHere
    have hBusy := h.busy guarded stmt freq prevData hHere
    refine ⟨hBusy.set, ?_, ?_, ?_, hBusy.fetched, ?_⟩
    · rw [hMasks.1]
      exact hBusy.shadow
    · rw [hMasks.2]
      exact hBusy.port
    · intro hStmt
      have hCovered : stmt.covered = true := by
        rcases hStmt with rfl | rfl <;> rfl
      rw [hSelected (hBusy.port hCovered)]
      exact hBusy.selected hStmt
    · rw [hDevices.2]
      exact hBusy.stored

/-- `rtc_write` enters its section. -/
theorem alone_writing (h : Alone start s last) {frequency : BitVec 32}
    (hPlace : s.place s.running = .writing frequency) :
    settings.Accepts last (s.emit .go) ∧
      Alone start s.goStep (settings.after last (s.emit .go)) := by
  have hOthers : ∀ q, q ≠ s.running → s.goStep.place q = s.place q :=
    fun q hq => next_place_of_ne hq .go
  have hSelf : s.goStep.place s.running = goPlace s := by
    rw [place_goStep, Function.update_self]
  have hOut : (s.place s.running).inSet (fun _ => true) = false := by
    rw [hPlace]
    rfl
  simp only [goPlace, hPlace] at hSelf
  simp only [State.goStep, State.emit, hPlace] at hOthers hSelf ⊢
  cases hRate : (rateOf frequency).join with
  | none =>
      refine ⟨trivial, alone_moved h hOut ⟨rfl, rfl⟩ rfl hOthers ?_⟩
      rw [hSelf]
      split
      · next freq hCase =>
          rw [hCase] at hRate
          cases hRate
      · rfl
      · rfl
  | some freq =>
      have hCase : rateOf frequency = some (some freq) :=
        Option.join_eq_some_iff.1 hRate
      rw [hCase] at hOthers hSelf ⊢
      exact ⟨⟨by simp [settings, hCase], trivial⟩,
        alone_entered h hCase rfl rfl hOthers hSelf⟩

private theorem alone_go (h : Alone start s last) (hEnabled : s.Enabled .go) :
    settings.Accepts last (s.emit .go) ∧
      Alone start s.goStep (settings.after last (s.emit .go)) := by
  have hOthers : ∀ q, q ≠ s.running → s.goStep.place q = s.place q :=
    fun q hq => next_place_of_ne hq .go
  have hSelf : s.goStep.place s.running = goPlace s := by
    rw [place_goStep, Function.update_self]
  rw [goPlace] at hSelf
  cases hPlace : s.place s.running with
  | outside => exact absurd hPlace hEnabled
  | setting guarded stmt freq prevData =>
      rw [State.emit, hPlace]
      exact ⟨trivial, alone_setting h hPlace⟩
  | reading | closing =>
      have hOut : (s.place s.running).inSet (fun _ => true) = false := by
        rw [hPlace]
        rfl
      rw [hPlace] at hSelf
      simp only [State.goStep, State.emit, hPlace] at hOthers hSelf ⊢
      exact ⟨by simp [Acceptor.Accepts, settings],
        alone_moved h hOut ⟨rfl, rfl⟩ rfl hOthers (by rw [hSelf]; rfl)⟩
  | spinning =>
      have hOut : (s.place s.running).inSet (fun _ => true) = false := by
        rw [hPlace]
        rfl
      rw [hPlace] at hSelf
      simp only [State.goStep, State.emit, hPlace] at hOthers hSelf ⊢
      cases hFlag : s.flag with
      | true => exact ⟨⟨trivial, trivial⟩, h⟩
      | false =>
          rw [hFlag] at hOthers hSelf
          exact ⟨⟨trivial, trivial⟩,
            alone_moved h hOut ⟨rfl, rfl⟩ rfl hOthers (by rw [hSelf]; rfl)⟩
  | writing frequency => exact alone_writing h hPlace
  | opening =>
      rw [hPlace] at hSelf
      simp only [State.goStep, State.emit, hPlace] at hOthers hSelf ⊢
      have hTwo : rateOf 2#32 = some (some 0x0F#4) := by
        decide
      exact ⟨⟨by simp [settings, hTwo], trivial⟩,
        alone_entered h hTwo rfl rfl hOthers hSelf⟩

private theorem alone_next (h : Alone start s last) (hEnabled : s.Enabled m)
    (hCalm : ¬ s.Disturbed m) :
    settings.Accepts last (s.emit m) ∧
      Alone start (s.next m) (settings.after last (s.emit m)) := by
  cases m with
  | go => exact alone_go h hEnabled
  | tick =>
      exact ⟨trivial, alone_kept h rfl rfl ⟨rfl, rfl⟩ ⟨rfl, rfl⟩ fun _ => rfl⟩
  | interrupt =>
      obtain ⟨-, -, hOpen⟩ := hEnabled
      exact ⟨⟨trivial, trivial⟩,
        alone_kept h rfl rfl ⟨rfl, rfl⟩ ⟨rfl, rfl⟩ fun hMasked => absurd hOpen hMasked⟩
  | call c =>
      have hOut : (s.place s.running).inSet (fun _ => true) = false := by
        rw [show s.place s.running = .outside from hEnabled]
        rfl
      refine ⟨trivial, alone_moved h hOut ⟨rfl, rfl⟩ rfl
        (fun q hq => next_place_of_ne hq _) ?_⟩
      rw [show (s.next (.call c)).place s.running = c.place from
        Function.update_self ..]
      cases c <;> rfl
  | switch p =>
      have hOut : (s.place s.running).inSet (fun _ => true) = false := by
        simpa [State.Disturbed] using hCalm
      have hNone : ∀ q, (s.place q).inSet (fun _ => true) = false := by
        intro q
        by_cases hq : q = s.running
        · rw [hq]
          exact hOut
        · exact h.others q hq
      refine ⟨trivial, fun q _ => hNone q, h.divider, fun _ => h.idle hOut, ?_⟩
      intro guarded stmt freq prevData hPlace
      have hIn := hNone p
      rw [show s.place p = _ from hPlace] at hIn
      cases hIn

omit [DecidableEq Pid] in
private theorem alone_boot (p : Pid) (rate : BitVec 4) (regB : BitVec 8) :
    Alone rate (boot p rate regB) none where
  others := fun _ _ => rfl
  divider := rfl
  idle := fun _ => rfl
  busy := nofun

private theorem alone_run {p : Pid} {rate : BitVec 4} {regB : BitVec 8}
    {ms : List (Move Pid)} (hLegal : driver.Legal (boot p rate regB) ms)
    (hCalm : driver.Always (fun s m => ¬ s.Disturbed m) (boot p rate regB) ms) :
    settings.Accepts none (driver.events (boot p rate regB) ms) ∧
      Alone rate (driver.run (boot p rate regB) ms)
        (settings.after none (driver.events (boot p rate regB) ms)) := by
  have hAll := (driver.restrict fun s m => ¬ s.Disturbed m).simulates settings
    (fun s last m h hEnabled => alone_next h hEnabled.1 hEnabled.2) ms _ none
    (alone_boot p rate regB) ((driver.restrict_legal _ _ _).2 ⟨hLegal, hCalm⟩)
  rw [driver.restrict_events, driver.restrict_run] at hAll
  exact hAll

/--
**The rate is the one that was set.**  If the timer leaves `rtc_open` alone in
`rtc_set_frequency`, the RTC never stops, and when no process sets the rate it
is that of the last frequency that was set.
-/
theorem rtc_rate_kept (p : Pid) (rate : BitVec 4) (regB : BitVec 8)
    (ms : List (Move Pid)) (hLegal : driver.Legal (boot p rate regB) ms)
    (hCalm : driver.Always (fun s m => ¬ s.Disturbed m) (boot p rate regB) ms) :
    let s := driver.run (boot p rate regB) ms
    s.divider = 0b010#3 ∧
      ((∀ q, (s.place q).inSet (fun _ => true) = false) →
        let last := settings.after none (driver.events (boot p rate regB) ms)
        (last = none → s.rate = rate) ∧
          ∀ frequency, last = some frequency →
            frequency.toNat <<< (s.rate.toNat - 1) = 32768) := by
  intro s
  obtain ⟨-, hAlone⟩ := alone_run hLegal hCalm
  refine ⟨hAlone.divider, ?_⟩
  intro hNone
  have hRate := hAlone.idle (hNone s.running)
  constructor
  · intro hLast
    rw [hLast] at hRate
    exact hRate
  · intro frequency hLast
    rw [hLast] at hRate
    exact rateOf_hertz hRate

/-- `rtc_open` by one process behind the `rtc_write` of another. -/
def opened : List (Move Bool) :=
  [.call (.write 1024#32)] ++ List.replicate 10 .go ++
    [.switch true, .call .openRtc] ++ List.replicate 9 .go

theorem rtc_rate_kept_opened :
    (2#32).toNat <<<
        ((driver.run (boot false 0x06#4 0x42#8) opened).rate.toNat - 1) =
      32768 :=
  ((rtc_rate_kept false 0x06#4 0x42#8 opened (by decide +kernel)
    (by decide +kernel)).2 (by decide +kernel)).2 2#32 (by decide +kernel)

/-- A disturbed run: the line is open while `rtc_open` reads register A, the
handler selects register C, and the RTC stops. -/
example : ∃ ms : List (Move Bool), driver.Legal (boot false 0x06#4 0x42#8) ms ∧
    (driver.run (boot false 0x06#4 0x42#8) ms).divider = 0#3 :=
  ⟨[.call .openRtc, .go, .go, .switch true, .call (.write 1024#32)] ++
    List.replicate 10 .go ++
    [.switch false, .go, .go, .tick, .interrupt, .go, .go, .go], by decide +kernel⟩

/-! From every state of such a run a waiting reader can come out of its loop. -/

/-- What is left of `rtc_set_frequency` and of the section of `rtc_write`. -/
def Place.left : Place → Nat
  | .setting _ .maskShadow _ _ => 9
  | .setting _ .maskPort _ _ => 8
  | .setting _ .select _ _ => 7
  | .setting _ .fetch _ _ => 6
  | .setting _ .selectAgain _ _ => 5
  | .setting _ .store _ _ => 4
  | .setting _ .unmaskShadow _ _ => 3
  | .setting _ .unmaskPort _ _ => 2
  | .closing => 1
  | .outside | .reading | .spinning | .writing _ | .opening => 0

omit [DecidableEq Pid] in
private theorem left_goPlace (h : 0 < (s.place s.running).left) :
    (goPlace s).left < (s.place s.running).left := by
  rw [goPlace]
  cases hPlace : s.place s.running with
  | setting guarded stmt freq prevData =>
      cases stmt <;> cases guarded <;> simp [SetStmt.after, Place.left]
  | closing => exact Nat.zero_lt_one
  | outside | reading | spinning | writing | opening =>
      rw [hPlace] at h
      cases h

/-- The running process leaves its section. -/
theorem settled (p : Pid) {regB : BitVec 8} (n : Nat) : ∀ (s : State Pid)
    (last : Option (BitVec 32)), (s.place s.running).left ≤ n → Line regB s →
    Alone start s last → s.place p = .spinning →
    ∃ ms last', driver.Legal s ms ∧
      driver.Always (fun s m => ¬ s.Disturbed m) s ms ∧
      Line regB (driver.run s ms) ∧ Alone start (driver.run s ms) last' ∧
      (driver.run s ms).place p = .spinning ∧
      ((driver.run s ms).place (driver.run s ms).running).left = 0 := by
  induction n with
  | zero =>
      intro s last hLeft hLine hAlone hWaits
      exact ⟨[], last, trivial, trivial, hLine, hAlone, hWaits, Nat.le_zero.1 hLeft⟩
  | succ n ih =>
      intro s last hLeft hLine hAlone hWaits
      by_cases hZero : (s.place s.running).left = 0
      · exact ⟨[], last, trivial, trivial, hLine, hAlone, hWaits, hZero⟩
      · have hEnabled : s.Enabled .go := by
          intro hOutside
          rw [hOutside] at hZero
          exact hZero rfl
        have hCalm : ¬ s.Disturbed .go := id
        have hne : p ≠ s.running := by
          rintro rfl
          rw [hWaits] at hZero
          exact hZero rfl
        have hRunning : (s.next .go).running = s.running := running_goStep s
        have hLess : ((s.next .go).place (s.next .go).running).left ≤ n := by
          rw [hRunning, show s.next .go = s.goStep from rfl, place_goStep,
            Function.update_self]
          have hDrop := left_goPlace (Nat.pos_of_ne_zero hZero)
          omega
        have hStay : (s.next .go).place p = .spinning := by
          rw [next_place_of_ne hne]
          exact hWaits
        obtain ⟨ms, last', hLegal, hAlways, hEnd⟩ := ih (s.next .go) _ hLess
          (line_next hLine hEnabled) (alone_next hAlone hEnabled hCalm).2 hStay
        exact ⟨.go :: ms, last', ⟨hEnabled, hLegal⟩, ⟨hCalm, hAlways⟩, hEnd⟩

/-- A period of the RTC, its interrupt, and the reader. -/
theorem woken {p : Pid} {regB : BitVec 8} (hLine : Line regB s)
    (hAlone : Alone start s last) (hWaits : s.place p = .spinning)
    (hLeft : (s.place s.running).left = 0) :
    driver.Legal s [.tick, .interrupt, .switch p, .go] ∧
      driver.Always (fun s m => ¬ s.Disturbed m) s
        [.tick, .interrupt, .switch p, .go] ∧
      .returned p ∈ driver.events s [.tick, .interrupt, .switch p, .go] := by
  have hOut : (s.place s.running).inSet (fun _ => true) = false := by
    cases hPlace : s.place s.running with
    | setting guarded stmt freq prevData =>
        rw [hPlace] at hLeft
        cases stmt <;> cases hLeft
    | outside | reading | spinning | writing | opening | closing => rfl
  have hOn : s.interrupts = true := by
    cases hOff : s.interrupts with
    | true => rfl
    | false =>
        have hGuarded := hLine.guarded hOff
        cases hPlace : s.place s.running with
        | closing =>
            rw [hPlace] at hLeft
            cases hLeft
        | setting guarded stmt freq prevData =>
            rw [hPlace] at hOut
            cases hOut
        | outside | reading | spinning | writing | opening =>
            rw [hPlace] at hGuarded
            cases hGuarded
  have hOpen : s.slavePort &&& rtcLine = 0#8 := by
    by_contra hBit
    obtain ⟨q, hq⟩ := hLine.port hBit
    have hIn := inSet_mono (g := fun _ => true) (fun _ _ => rfl) hq
    by_cases hRunning : q = s.running
    · rw [hRunning, hOut] at hIn
      cases hIn
    · rw [hAlone.others q hRunning] at hIn
      cases hIn
  have hRequested : (s.next .tick).requested = true := by
    show (s.requested || !s.regC.getLsbD 7) = true
    cases hBit : s.regC.getLsbD 7 with
    | false => simp
    | true => simp [hLine.pending hBit]
  refine ⟨⟨hAlone.divider, ⟨hOn, hRequested, hOpen⟩, hOn, ?_, trivial⟩,
    ⟨id, id, ?_, id, trivial⟩, ?_⟩
  · intro hOutside
    rw [show s.place p = .outside from hOutside] at hWaits
    cases hWaits
  · intro hIn
    rw [show (s.place s.running).inSet (fun _ => true) = true from hIn] at hOut
    cases hOut
  · simp [Machine.events, driver, State.next, State.emit, hWaits]

/--
**No reader is stuck.**  In every state of a run in which the timer leaves
`rtc_open` alone, a waiting reader can be brought to return.
-/
theorem reader_released (p₀ p : Pid) (rate : BitVec 4) (regB : BitVec 8)
    (ms : List (Move Pid)) (hLegal : driver.Legal (boot p₀ rate regB) ms)
    (hCalm : driver.Always (fun s m => ¬ s.Disturbed m) (boot p₀ rate regB) ms)
    (hWaits : (driver.run (boot p₀ rate regB) ms).place p = .spinning) :
    ∃ more, driver.Legal (boot p₀ rate regB) (ms ++ more) ∧
      driver.Always (fun s m => ¬ s.Disturbed m) (boot p₀ rate regB) (ms ++ more) ∧
      .returned p ∈ driver.events (driver.run (boot p₀ rate regB) ms) more := by
  have hLine : Line regB (driver.run (boot p₀ rate regB) ms) :=
    driver.run_invariant (fun _ _ h hEnabled => line_next h hEnabled) ms _
      (line_boot p₀ rate regB) hLegal
  obtain ⟨-, hAlone⟩ := alone_run hLegal hCalm
  obtain ⟨out, last', hOutLegal, hOutCalm, hOutLine, hOutAlone, hStill, hLeft⟩ :=
    settled p _ _ _ Nat.le.refl hLine hAlone hWaits
  obtain ⟨hWakeLegal, hWakeCalm, hReturned⟩ :=
    woken hOutLine hOutAlone hStill hLeft
  refine ⟨out ++ [.tick, .interrupt, .switch p, .go], ?_, ?_, ?_⟩
  · exact (driver.legal_append _ _ _).2
      ⟨hLegal, (driver.legal_append _ _ _).2 ⟨hOutLegal, hWakeLegal⟩⟩
  · exact (driver.always_append _ _ _ _).2
      ⟨hCalm, (driver.always_append _ _ _ _).2 ⟨hOutCalm, hWakeCalm⟩⟩
  · rw [driver.events_append, List.mem_append]
    exact Or.inr hReturned

/-- A reader, while another process is in `rtc_open`. -/
theorem reader_released_opening :
    ∃ more, driver.Legal (boot false 0x06#4 0x42#8)
        ([.call .read, .go, .switch true, .call .openRtc, .go, .go, .go] ++ more) ∧
      driver.Always (fun s m => ¬ s.Disturbed m) (boot false 0x06#4 0x42#8)
        ([.call .read, .go, .switch true, .call .openRtc, .go, .go, .go] ++ more) ∧
      .returned false ∈ driver.events (driver.run (boot false 0x06#4 0x42#8)
        [.call .read, .go, .switch true, .call .openRtc, .go, .go, .go]) more :=
  reader_released false false 0x06#4 0x42#8
    [.call .read, .go, .switch true, .call .openRtc, .go, .go, .go]
    (by decide +kernel) (by decide +kernel) (by decide +kernel)

end Alone

end CompE.Kernel.Rtc
