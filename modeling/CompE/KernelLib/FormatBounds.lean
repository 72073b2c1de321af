import CompE.KernelLib.Printf

/-!
# `printf` inside its format

A conversion that the format breaks off is taken for an unknown one: the terminator is
stepped over, and the loop goes on behind it.  `printf_iff` says that this is the only
way for `printf` to leave its format.
-/

namespace CompE.KernelLib

/-- Whether a format, or the rest of one inside a conversion, ends with all its
conversions complete. -/
def completeFrom : Bool → List Byte → Bool
  | inConversion, [] => !inConversion
  | false, c :: s => completeFrom (c == chr '%') s
  | true, c :: s => completeFrom (c == chr '#') s

/-- No conversion is broken off at the end. -/
def complete (s : List Byte) : Bool := completeFrom false s

section Format

variable (args : Arguments) (format : CString)

/-- What `format_char_switch` does with a format from index `buf` on: it stays inside,
and stops on the terminator if and only if the conversion is broken off. -/
structure Consumed (buf : Nat) (r : Converted) : Prop where
  onward : buf ≤ r.last
  inside : r.last ≤ format.length ∧ ∀ i ∈ r.reads, i ≤ format.length
  completed : r.last < format.length → completeFrom true (format.text.drop buf) =
    completeFrom false (format.text.drop (r.last + 1))
  brokenOff : r.last = format.length →
    completeFrom true (format.text.drop buf) = false

variable {args format}

private theorem formatCharSwitch_consumed (fuel : Nat) :
    ∀ (alternate : Bool) (buf esp : Nat) (r : Converted), buf ≤ format.length →
      formatCharSwitch args format.bytes fuel alternate buf esp = some r →
      Consumed format buf r := by
  induction fuel with
  | zero =>
      intro alternate buf esp r _ hRun
      rw [formatCharSwitch] at hRun
      contradiction
  | succ fuel ih =>
      intro alternate buf esp r hBuf hRun
      rw [formatCharSwitch] at hRun
      by_cases hHash : format.bytes buf = chr '#'
      · have hLt : buf < format.length :=
          (format.lt_length_iff hBuf).mpr (by rw [hHash]; decide)
        rw [if_pos hHash, Option.map_eq_some_iff] at hRun
        obtain ⟨r', hRun', rfl⟩ := hRun
        have hRest := ih true (buf + 1) esp r' hLt hRun'
        have hHere : completeFrom true (format.text.drop buf) =
            completeFrom true (format.text.drop (buf + 1)) := by
          rw [format.drop_text hLt, completeFrom, hHash, beq_self_eq_true]
        refine ⟨Nat.le_of_succ_le hRest.onward, ⟨hRest.inside.1, ?_⟩, ?_, ?_⟩
        · rw [List.forall_mem_cons]
          exact ⟨hBuf, hRest.inside.2⟩
        · rw [hHere]
          exact hRest.completed
        · rw [hHere]
          exact hRest.brokenOff
      · rw [if_neg hHash, Option.map_eq_some_iff] at hRun
        obtain ⟨conv, _, rfl⟩ := hRun
        refine ⟨Nat.le_refl buf, ⟨hBuf, ?_⟩, ?_, ?_⟩
        · intro i hi
          rw [List.mem_singleton.mp hi]
          exact hBuf
        · intro hLt
          rw [format.drop_text hLt, completeFrom, beq_eq_false_iff_ne.mpr hHash]
        · intro hEnd
          have hLast : buf = format.length := hEnd
          rw [hLast, format.drop_text_end]
          rfl

private theorem formatCharSwitch_total (fuel : Nat) :
    ∀ (alternate : Bool) (buf esp : Nat), buf ≤ format.length →
      format.length < buf + fuel →
      ∃ r, formatCharSwitch args format.bytes fuel alternate buf esp = some r := by
  induction fuel with
  | zero => intro alternate buf esp hBuf hFuel; omega
  | succ fuel ih =>
      intro alternate buf esp hBuf hFuel
      rw [formatCharSwitch]
      by_cases hHash : format.bytes buf = chr '#'
      · have hLt : buf < format.length :=
          (format.lt_length_iff hBuf).mpr (by rw [hHash]; decide)
        obtain ⟨r, hRun⟩ := ih true (buf + 1) esp hLt (by omega)
        rw [if_pos hHash, hRun]
        exact ⟨_, rfl⟩
      · obtain ⟨conv, hConv⟩ :=
          conversion_total args alternate (format.bytes buf) esp
        rw [if_neg hHash, hConv]
        exact ⟨_, rfl⟩

/-! ## The loop -/

/-- How a run that ends begins: with the terminator, with a conversion, or with a
character that is put. -/
theorem printfLoop_cases {bytes : Nat → Byte} {fuel buf esp : Nat} {run : Run}
    (hRun : printfLoop args bytes (fuel + 1) buf esp = some run) :
    (bytes buf = 0 ∧ run = ⟨buf, [], [buf]⟩) ∨
    (bytes buf = chr '%' ∧ ∃ r run',
      formatCharSwitch args bytes fuel false (buf + 1) esp = some r ∧
      printfLoop args bytes fuel (r.last + 1) r.esp = some run' ∧
      run = run'.after r.out (buf :: r.reads)) ∨
    (bytes buf ≠ 0 ∧ bytes buf ≠ chr '%' ∧ ∃ run',
      printfLoop args bytes fuel (buf + 1) esp = some run' ∧
      run = run'.after [bytes buf] [buf]) := by
  rw [printfLoop] at hRun
  by_cases hEnd : bytes buf = 0
  · rw [if_pos hEnd, Option.some.injEq] at hRun
    exact Or.inl ⟨hEnd, hRun.symm⟩
  · rw [if_neg hEnd] at hRun
    by_cases hPercent : bytes buf = chr '%'
    · rw [if_pos hPercent] at hRun
      obtain ⟨r, hSwitch, hRest⟩ := Option.bind_eq_some_iff.mp hRun
      obtain ⟨run', hRun', hAfter⟩ := Option.map_eq_some_iff.mp hRest
      exact Or.inr (Or.inl ⟨hPercent, r, run', hSwitch, hRun', hAfter.symm⟩)
    · rw [if_neg hPercent] at hRun
      obtain ⟨run', hRun', hAfter⟩ := Option.map_eq_some_iff.mp hRun
      exact Or.inr (Or.inr ⟨hEnd, hPercent, run', hRun', hAfter.symm⟩)

/-- The index where a run starts is read. -/
theorem printfLoop_reads_first {bytes : Nat → Byte} {fuel buf esp : Nat} {run : Run}
    (hRun : printfLoop args bytes fuel buf esp = some run) : buf ∈ run.reads := by
  cases fuel with
  | zero =>
      rw [printfLoop] at hRun
      contradiction
  | succ fuel =>
      obtain ⟨_, rfl⟩ | ⟨_, r, run', _, _, rfl⟩ | ⟨_, _, run', _, rfl⟩ :=
        printfLoop_cases hRun
      · exact List.mem_singleton_self buf
      · exact List.mem_append_left _ List.mem_cons_self
      · exact List.mem_append_left _ List.mem_cons_self

/-- The run has stayed inside its format and returned the length. -/
structure Kept (format : CString) (run : Run) : Prop where
  ret : run.ret = format.length
  reads : ∀ i ∈ run.reads, i ≤ format.length

theorem Kept.after {out : List Byte} {reads : List Nat} {run : Run}
    (hReads : ∀ i ∈ reads, i ≤ format.length) :
    Kept format (run.after out reads) ↔ Kept format run := by
  constructor
  · intro h
    exact ⟨h.ret, fun i hi => h.reads i (List.mem_append_right _ hi)⟩
  · intro h
    refine ⟨h.ret, ?_⟩
    intro i hi
    cases List.mem_append.mp hi with
    | inl hFirst => exact hReads i hFirst
    | inr hRest => exact h.reads i hRest

/-- A run that ends has kept to its format exactly when that is complete. -/
theorem printfLoop_kept (fuel : Nat) : ∀ (buf esp : Nat) (run : Run),
    buf ≤ format.length → printfLoop args format.bytes fuel buf esp = some run →
      (Kept format run ↔ completeFrom false (format.text.drop buf) = true) := by
  induction fuel with
  | zero =>
      intro buf esp run _ hRun
      rw [printfLoop] at hRun
      contradiction
  | succ fuel ih =>
      intro buf esp run hBuf hRun
      obtain ⟨hZero, rfl⟩ | ⟨hPercent, r, run', hSwitch, hRun', rfl⟩ |
        ⟨hNotZero, hNotPercent, run', hRun', rfl⟩ := printfLoop_cases hRun
      · have hEnd : buf = format.length := by
          have hNot := mt (format.lt_length_iff hBuf).mp (not_not.mpr hZero)
          omega
        subst hEnd
        have hKept : Kept format ⟨format.length, [], [format.length]⟩ := by
          refine ⟨rfl, ?_⟩
          intro i hi
          rw [List.mem_singleton.mp hi]
        rw [format.drop_text_end]
        exact ⟨fun _ => rfl, fun _ => hKept⟩
      · have hLt : buf < format.length :=
          (format.lt_length_iff hBuf).mpr (by rw [hPercent]; decide)
        have hConsumed := formatCharSwitch_consumed fuel false (buf + 1) esp r hLt hSwitch
        have hReads : ∀ i ∈ buf :: r.reads, i ≤ format.length :=
          List.forall_mem_cons.mpr ⟨hBuf, hConsumed.inside.2⟩
        rw [Kept.after hReads, format.drop_text hLt, completeFrom, hPercent,
          beq_self_eq_true]
        by_cases hBroken : r.last = format.length
        · rw [hConsumed.brokenOff hBroken]
          constructor
          · intro hKept
            have hFirst := hKept.reads _ (printfLoop_reads_first hRun')
            omega
          · intro hNo
            exact absurd hNo Bool.false_ne_true
        · have hInside : r.last < format.length :=
            Nat.lt_of_le_of_ne hConsumed.inside.1 hBroken
          rw [hConsumed.completed hInside]
          exact ih (r.last + 1) r.esp run' hInside hRun'
      · have hLt := (format.lt_length_iff hBuf).mpr hNotZero
        have hHere : ∀ i ∈ [buf], i ≤ format.length := by
          intro i hi
          rw [List.mem_singleton.mp hi]
          exact hBuf
        rw [Kept.after hHere, format.drop_text hLt, completeFrom,
          beq_eq_false_iff_ne.mpr hNotPercent]
        exact ih (buf + 1) esp run' hLt hRun'

/-- On a complete format the loop ends. -/
theorem printfLoop_total (fuel : Nat) : ∀ (buf esp : Nat), buf ≤ format.length →
    completeFrom false (format.text.drop buf) = true → format.length < buf + fuel →
      ∃ run, printfLoop args format.bytes fuel buf esp = some run := by
  induction fuel with
  | zero => intro buf esp hBuf _ hFuel; omega
  | succ fuel ih =>
      intro buf esp hBuf hComplete hFuel
      rw [printfLoop]
      by_cases hEnd : buf = format.length
      · rw [hEnd, if_pos format.terminated]
        exact ⟨_, rfl⟩
      · have hLt : buf < format.length := by omega
        rw [format.drop_text hLt, completeFrom] at hComplete
        rw [if_neg (format.chars buf hLt)]
        by_cases hPercent : format.bytes buf = chr '%'
        · rw [hPercent, beq_self_eq_true] at hComplete
          have hSome : ∃ r, formatCharSwitch args format.bytes fuel false (buf + 1) esp =
              some r := formatCharSwitch_total fuel false (buf + 1) esp hLt (by omega)
          obtain ⟨r, hSwitch⟩ := hSome
          have hConsumed := formatCharSwitch_consumed fuel false (buf + 1) esp r hLt hSwitch
          have hInside : r.last < format.length := by
            apply Nat.lt_of_le_of_ne hConsumed.inside.1
            intro hBroken
            rw [hConsumed.brokenOff hBroken] at hComplete
            exact Bool.false_ne_true hComplete
          rw [hConsumed.completed hInside] at hComplete
          have hOnward := hConsumed.onward
          obtain ⟨run, hRun⟩ := ih (r.last + 1) r.esp hInside hComplete (by omega)
          rw [if_pos hPercent, hSwitch, Option.bind_some, hRun]
          exact ⟨_, rfl⟩
        · rw [beq_eq_false_iff_ne.mpr hPercent] at hComplete
          obtain ⟨run, hRun⟩ := ih (buf + 1) esp hLt hComplete (by omega)
          rw [if_neg hPercent, hRun]
          exact ⟨_, rfl⟩

end Format

/--
**Staying inside the format.**  `printf` ends, reads nothing behind the terminator of
its format and returns the length of the format, exactly when no conversion is broken
off at the end of the format.
-/
theorem printf_iff (format : CString) (args : Arguments) :
    (∃ fuel run, printf fuel format.bytes args = some run ∧
      run.ret = format.length ∧ ∀ i ∈ run.reads, i ≤ format.length) ↔
    complete format.text = true := by
  constructor
  · rintro ⟨fuel, run, hRun, hRet, hReads⟩
    exact (printfLoop_kept fuel 0 0 run (Nat.zero_le _) hRun).mp ⟨hRet, hReads⟩
  · intro hComplete
    have hSome : ∃ run, printfLoop args format.bytes (format.length + 1) 0 0 = some run :=
      printfLoop_total (format.length + 1) 0 0 (Nat.zero_le _) hComplete (by omega)
    obtain ⟨run, hRun⟩ := hSome
    have hKept := (printfLoop_kept _ 0 0 run (Nat.zero_le _) hRun).mpr hComplete
    exact ⟨format.length + 1, run, hRun, hKept.ret, hKept.reads⟩

/-- `"%"`, with zeros behind it. -/
def percentFormat : CString where
  bytes := fun i => if i = 0 then chr '%' else 0
  length := 1
  chars := by
    intro i hi
    rw [if_pos (Nat.lt_one_iff.mp hi)]
    decide
  terminated := rfl

/-- Arguments that are all zero. -/
def zeroArguments : Arguments where
  word := fun _ => 0
  string := fun _ => ⟨fun _ => 0, 0, fun _ hi => absurd hi (Nat.not_lt_zero _), rfl⟩
  garbage := fun _ _ => 0

/-- On `"%"` the loop steps over the terminator; with a zero behind it, 2 is
returned. -/
theorem printf_percent_leaves :
    (¬ ∃ fuel run, printf fuel percentFormat.bytes zeroArguments = some run ∧
      run.ret = percentFormat.length ∧ ∀ i ∈ run.reads, i ≤ percentFormat.length) ∧
    (printf 3 percentFormat.bytes zeroArguments).map Run.ret = some 2 := by
  refine ⟨?_, by decide⟩
  rintro ⟨fuel, run, hRun, hRet, hReads⟩
  have hComplete :=
    (printfLoop_kept fuel 0 0 run (Nat.zero_le _) hRun).mp ⟨hRet, hReads⟩
  exact absurd hComplete (by decide)

end CompE.KernelLib
