import Mathlib.Data.List.DropRight
import CompE.Library.WriteLog
import CompE.Kernel.Lookup
import CompE.Kernel.SchedulerInvariant

/-!
# The command line of `execute`

`parse_exec` fills two arrays of its caller, one with the first word of the
command and one with what follows.  `Kernel.Process` has what it comes to for
strings; here are the loops, with every index that they write to.

The first loop stops at 32 characters wherever it is, and what it leaves of a
longer word goes to the arguments.  The last loop looks one character ahead,
so that it takes away one space at the end and no more.  Behind both loops a
terminator is written at the index reached, which may be the size of the
array.
-/

namespace CompE.Kernel

open CompE.Library

/-! ## The loops -/

/-- The first loop of `parse_exec`: what is left of the string, the index and
`filename`. -/
def copyName : CString → Nat → Logged Byte → CString × Nat × Logged Byte
  | [], i, filename => ([], i, filename)
  | c :: string, i, filename =>
      if c ≠ 0x20#8 ∧ i < maxFnameSize then
        copyName string (i + 1) (filename.set i c)
      else (c :: string, i, filename)

/-- The loop that strips leading spaces. -/
def skipSpaces : CString → CString
  | [] => []
  | c :: string => if c = 0x20#8 then skipSpaces string else c :: string

/-- The last loop: the index and `argstr`.  A final space is written, but the
index stays where it is. -/
def copyArgstr : CString → Nat → Logged Byte → Nat × Logged Byte
  | [], j, argstr => (j, argstr)
  | c :: string, j, argstr =>
      if j < 128 then
        copyArgstr string (if c ≠ 0x20#8 ∨ string ≠ [] then j + 1 else j)
          (argstr.set j c)
      else (j, argstr)

/-- `parse_exec`, with the arrays. -/
def parseExecInto (string : CString) (filename argstr : Logged Byte) :
    Logged Byte × Logged Byte :=
  let name := copyName string 0 filename
  let args := copyArgstr (skipSpaces name.1) 0 argstr
  (name.2.2.set name.2.1 0#8, args.2.set args.1 0#8)

/-- `strcpy` of a string with a terminator among its first `n + 1`
characters. -/
def strcpyFrom (src : Buffer) : Nat → Nat → Logged Byte → Logged Byte
  | 0, i, dest => dest.set i 0#8
  | n + 1, i, dest =>
      if src i ≠ 0#8 then strcpyFrom src n (i + 1) (dest.set i (src i))
      else dest.set i 0#8

/-- A string and its terminator, at the start of an array. -/
structure HoldsString (a : Buffer) (s : CString) : Prop where
  chars : ∀ i (h : i < s.length), a i = s[i]
  terminated : a s.length = 0#8

theorem HoldsString.unique {a : Buffer} {s s' : CString} (h : HoldsString a s)
    (h' : HoldsString a s') (hChars : ∀ c ∈ s, c ≠ 0#8)
    (hChars' : ∀ c ∈ s', c ≠ 0#8) : s = s' := by
  have hLe : ∀ {s s' : CString}, HoldsString a s → HoldsString a s' →
      (∀ c ∈ s', c ≠ 0#8) → s'.length ≤ s.length := by
    intro s s' h h' hChars'
    apply Nat.le_of_not_lt
    intro hLt
    have hEnd := h'.chars s.length hLt
    rw [h.terminated] at hEnd
    exact hChars' _ (List.getElem_mem hLt) hEnd.symm
  have hLength : s.length = s'.length :=
    Nat.le_antisymm (hLe h' h hChars) (hLe h h' hChars')
  apply List.ext_getElem hLength
  intro i hi hi'
  rw [← h.chars i hi, ← h'.chars i hi']

/-- A string that was stored, with its terminator. -/
theorem holdsString_store (a : Logged Byte) (s : CString) :
    HoldsString ((a.store 0 s).set s.length 0#8).cells s where
  chars := by
    intro i h
    rw [Logged.set_cells_of_ne _ _ (Nat.ne_of_lt h)]
    have hCell := a.store_cells s (i := 0) h
    rwa [Nat.zero_add] at hCell
  terminated := Logged.set_cells_self _ _ _

/-- `strcpy` stores the string and its terminator. -/
theorem strcpyFrom_eq {src : Buffer} {s : CString} (hString : HoldsString src s)
    (hChars : ∀ c ∈ s, c ≠ 0#8) :
    ∀ (n i : Nat) (dest : Logged Byte), i ≤ s.length → s.length ≤ i + n →
      strcpyFrom src n i dest = (dest.store i (s.drop i)).set s.length 0#8 := by
  intro n
  induction n with
  | zero =>
      intro i dest hi hn
      have hEnd : i = s.length := by omega
      subst hEnd
      rw [strcpyFrom, List.drop_length]
      rfl
  | succ n ih =>
      intro i dest hi hn
      rw [strcpyFrom]
      by_cases hEnd : i = s.length
      · subst hEnd
        rw [if_neg (by rw [hString.terminated]; simp), List.drop_length]
        rfl
      · have hLt : i < s.length := by omega
        have hChar := hString.chars i hLt
        rw [if_pos (by rw [hChar]; exact hChars _ (List.getElem_mem hLt)),
          ih (i + 1) _ (by omega) (by omega), hChar, List.drop_eq_getElem_cons hLt]
        rfl

/-! ## What the loops store -/

/-- The first word of a command. -/
def firstWord (string : CString) : CString := string.takeWhile (· ≠ 0x20#8)

private theorem copyName_eq (string : CString) : ∀ (i : Nat) (filename : Logged Byte),
    i ≤ maxFnameSize →
    let word := (firstWord string).take (maxFnameSize - i)
    copyName string i filename =
      (string.drop word.length, i + word.length, filename.store i word) := by
  induction string with
  | nil => intro i filename _; simp [firstWord, copyName, Logged.store]
  | cons c string ih =>
      intro i filename hi
      unfold firstWord at ih ⊢
      rw [copyName]
      by_cases hSpace : c = 0x20#8
      · rw [if_neg (by simp [hSpace]), List.takeWhile_cons_of_neg (by simp [hSpace])]
        simp [Logged.store]
      · rw [List.takeWhile_cons_of_pos (by simp [hSpace])]
        by_cases hFull : i < maxFnameSize
        · have hRoom : maxFnameSize - i = maxFnameSize - (i + 1) + 1 := by omega
          rw [if_pos ⟨hSpace, hFull⟩, hRoom, List.take_succ_cons]
          simp only [ih (i + 1) (filename.set i c) hFull, List.length_cons,
            List.drop_succ_cons, Logged.store]
          rw [Nat.add_assoc, Nat.add_comm 1]
        · rw [if_neg (fun h => hFull h.2), show maxFnameSize - i = 0 by omega]
          simp [Logged.store]

private theorem skipSpaces_eq (string : CString) :
    skipSpaces string = string.dropWhile (· = 0x20#8) := by
  induction string with
  | nil => rfl
  | cons c string ih =>
      rw [skipSpaces, List.dropWhile_cons, ih]
      simp

/-- The last loop stores `copyArgs`; a final space is written behind it. -/
theorem copyArgstr_eq (string : CString) : ∀ (j : Nat) (argstr : Logged Byte),
    j ≤ 128 →
    let args := copyArgs (128 - j) string
    (copyArgstr string j argstr).1 = j + args.length ∧
    ((copyArgstr string j argstr).2 = argstr.store j args ∨
      (j + args.length < 128 ∧ (copyArgstr string j argstr).2 =
        (argstr.store j args).set (j + args.length) 0x20#8)) := by
  induction string with
  | nil =>
      intro j argstr _
      cases 128 - j with
      | zero => exact ⟨rfl, Or.inl rfl⟩
      | succ n => exact ⟨rfl, Or.inl rfl⟩
  | cons c string ih =>
      intro j argstr hj
      rw [copyArgstr]
      by_cases hRoom : j < 128
      · rw [if_pos hRoom, show 128 - j = 128 - (j + 1) + 1 by omega, copyArgs]
        by_cases hFinal : c = 0x20#8 ∧ string = []
        · obtain ⟨hSpace, hEnd⟩ := hFinal
          subst hSpace hEnd
          exact ⟨rfl, Or.inr ⟨hRoom, rfl⟩⟩
        · rw [if_neg hFinal, if_pos (by
            by_cases hSpace : c = 0x20#8
            · exact Or.inr fun hEnd => hFinal ⟨hSpace, hEnd⟩
            · exact Or.inl hSpace)]
          obtain ⟨hIndex, hCells⟩ := ih (j + 1) (argstr.set j c) hRoom
          simp only [List.length_cons, Logged.store] at hIndex hCells ⊢
          rw [show j + 1 + (copyArgs (128 - (j + 1)) string).length =
            j + ((copyArgs (128 - (j + 1)) string).length + 1) by omega]
            at hIndex hCells
          exact ⟨hIndex, hCells⟩
      · rw [if_neg hRoom, show 128 - j = 0 by omega]
        exact ⟨rfl, Or.inl rfl⟩

/-- One space less at the end. -/
def dropFinalSpace (s : CString) : CString :=
  if s.getLast? = some 0x20#8 then s.dropLast else s

private theorem dropFinalSpace_cons (c d : Byte) (s : CString) :
    dropFinalSpace (c :: d :: s) = c :: dropFinalSpace (d :: s) := by
  unfold dropFinalSpace
  rw [List.getLast?_cons_cons, List.dropLast_cons_cons]
  split <;> rfl

private theorem copyArgs_eq (s : CString) :
    ∀ n, copyArgs n s = (dropFinalSpace s).take n := by
  induction s with
  | nil => intro n; cases n <;> rfl
  | cons c s ih =>
      intro n
      cases n with
      | zero => rfl
      | succ n =>
          rw [copyArgs, ih n]
          cases s with
          | nil =>
              by_cases hSpace : c = 0x20#8
              · simp [hSpace, dropFinalSpace]
              · simp [hSpace, dropFinalSpace]
          | cons d s =>
              rw [if_neg (fun h => List.cons_ne_nil _ _ h.2), dropFinalSpace_cons,
                List.take_succ_cons]

/-! ### Both arrays -/

/-- What stands behind the file name, without leading spaces. -/
def commandRest (string : CString) : CString :=
  (string.drop ((firstWord string).take maxFnameSize).length).dropWhile
    (· = 0x20#8)

private theorem parseExec_eq (string : CString) :
    parseExec string = ((firstWord string).take maxFnameSize,
      (dropFinalSpace (commandRest string)).take 128) := by
  rw [← copyArgs_eq]
  rfl

/-- The arrays hold the two strings of `parseExec`. -/
theorem parseExecInto_holds (string : CString) (filename argstr : Logged Byte) :
    HoldsString (parseExecInto string filename argstr).1.cells
        (parseExec string).1 ∧
      HoldsString (parseExecInto string filename argstr).2.cells
        (parseExec string).2 := by
  have hName := copyName_eq string 0 filename (Nat.zero_le _)
  have hArgs := copyArgstr_eq (commandRest string) 0 argstr (Nat.zero_le _)
  simp only [Nat.zero_add, Nat.sub_zero] at hName hArgs
  rw [parseExec_eq, ← copyArgs_eq]
  unfold parseExecInto
  simp only [hName, skipSpaces_eq]
  refine ⟨holdsString_store _ _, ?_⟩
  obtain ⟨hIndex, hCells⟩ := hArgs
  unfold commandRest at hIndex hCells ⊢
  rw [hIndex]
  rcases hCells with hCells | ⟨_, hCells⟩
  · rw [hCells]
    exact holdsString_store _ _
  · rw [hCells]
    have hOver : ∀ (a : Logged Byte) (i : Nat) (c d : Byte),
        ((a.set i c).set i d).cells = (a.set i d).cells := by
      intro a i c d
      simp only [Logged.set, Function.update_idem]
    rw [hOver]
    exact holdsString_store _ _

/-- The indices written to. -/
theorem parseExecInto_written (string : CString) (filename argstr : Buffer) :
    ((∀ i ∈ (parseExecInto string (.fresh filename) (.fresh argstr)).1.written,
      i < maxFnameSize) ↔ (parseExec string).1.length < maxFnameSize) ∧
    ((∀ i ∈ (parseExecInto string (.fresh filename) (.fresh argstr)).2.written,
      i < 128) ↔ (parseExec string).2.length < 128) := by
  have hName := copyName_eq string 0 (.fresh filename) (Nat.zero_le _)
  have hArgs := copyArgstr_eq (commandRest string) 0 (.fresh argstr)
    (Nat.zero_le _)
  simp only [Nat.zero_add, Nat.sub_zero] at hName hArgs
  rw [parseExec_eq, ← copyArgs_eq]
  unfold parseExecInto
  simp only [hName, skipSpaces_eq]
  constructor
  · rw [Logged.set_written, Logged.store_written]
    simp only [Logged.fresh_written, List.nil_append, List.mem_append,
      List.mem_range'_1, List.mem_singleton, Nat.zero_add]
    constructor
    · intro h
      exact h _ (Or.inr rfl)
    · rintro h i (hi | hi) <;> omega
  · obtain ⟨hIndex, hCells⟩ := hArgs
    unfold commandRest at hIndex hCells ⊢
    rw [hIndex, Logged.set_written]
    constructor
    · intro h
      exact h _ (by simp)
    · intro h i hi
      rw [List.mem_append, List.mem_singleton] at hi
      rcases hi with hi | hi
      · rcases hCells with hCells | ⟨hLast, hCells⟩
        · rw [hCells, Logged.store_written, Logged.fresh_written, List.nil_append,
            List.mem_range'_1] at hi
          omega
        · rw [hCells, Logged.set_written, Logged.store_written,
            Logged.fresh_written, List.nil_append, List.mem_append,
            List.mem_range'_1, List.mem_singleton] at hi
          omega
      · omega

/-! ## The split -/

/-- What stands behind the first word, without leading spaces. -/
def afterWord (string : CString) : CString :=
  (string.drop (firstWord string).length).dropWhile (· = 0x20#8)

/-- The arguments: without trailing spaces either. -/
def trimmedArgs (string : CString) : CString :=
  (afterWord string).rdropWhile (· = 0x20#8)

/-- The number of spaces at the end of a command that has arguments. -/
def trailingSpaces (string : CString) : Nat :=
  ((afterWord string).rtakeWhile (· = 0x20#8)).length

/-- A command is split as it should be. -/
structure SplitsCommand (string : CString) (filename argstr : Buffer) : Prop where
  name : HoldsString filename (firstWord string)
  args : HoldsString argstr (trimmedArgs string)

/-- `execute` finds no file and fails. -/
structure FindsNoFile (fs : FileSys) (string : CString) (temp : Regs Sp)
    (k : Globals Sp) : Prop where
  noFile : readDentryByName fs (parseExec string).1 = none
  fails : execute fs string temp k = (.failed, k)

section Split

variable {string : CString}

private theorem commandRest_eq (hShort : (firstWord string).length ≤ maxFnameSize) :
    commandRest string = afterWord string := by
  unfold commandRest afterWord
  rw [List.take_of_length_le hShort]

private theorem dropFinalSpace_eq (s : CString) :
    dropFinalSpace s =
      s.rdropWhile (· = 0x20#8) ++ (s.rtakeWhile (· = 0x20#8)).dropLast := by
  have hSplit : s.rdropWhile (· = 0x20#8) ++ s.rtakeWhile (· = 0x20#8) = s :=
    List.rdropWhile_append_rtakeWhile
  have hSpaces : ∀ c ∈ s.rtakeWhile (· = 0x20#8), c = 0x20#8 := by
    intro c hc
    simpa using List.mem_rtakeWhile_imp hc
  unfold dropFinalSpace
  cases hEnd : (s.rtakeWhile (· = 0x20#8)).getLast? with
  | none =>
      have hNone : s.rtakeWhile (· = 0x20#8) = [] := List.getLast?_eq_none_iff.1 hEnd
      rw [hNone, List.append_nil] at hSplit
      rw [hNone, List.dropLast_nil, List.append_nil, hSplit, if_neg]
      intro hLast
      have hNil : s ≠ [] := by
        intro hNil
        rw [hNil] at hLast
        contradiction
      rw [List.getLast?_eq_some_getLast hNil, Option.some.injEq] at hLast
      exact List.rtakeWhile_eq_nil_iff.1 hNone hNil (by simp [hLast])
  | some c =>
      have hNe : s.rtakeWhile (· = 0x20#8) ≠ [] := by
        intro hNil
        rw [hNil] at hEnd
        contradiction
      have hLast : s.getLast? = some 0x20#8 := by
        rw [← hSplit, List.getLast?_append, hEnd,
          hSpaces c (List.mem_of_getLast? hEnd)]
        rfl
      rw [if_pos hLast]
      conv => lhs; rw [← hSplit]
      exact List.dropLast_append_of_ne_nil hNe

/-- The arguments are what they should be. -/
theorem args_eq_iff (hShort : (firstWord string).length ≤ maxFnameSize) :
    (parseExec string).2 = trimmedArgs string ↔
      (trimmedArgs string).length ≤ 128 ∧
        (trailingSpaces string ≤ 1 ∨ (trimmedArgs string).length = 128) := by
  rw [parseExec_eq, commandRest_eq hShort, dropFinalSpace_eq]
  unfold trailingSpaces trimmedArgs
  generalize (afterWord string).rdropWhile (· = 0x20#8) = args
  generalize (afterWord string).rtakeWhile (· = 0x20#8) = spaces
  constructor
  · intro h
    have hLength := congrArg List.length h
    simp only [List.length_take, List.length_append, List.length_dropLast] at hLength
    omega
  · rintro ⟨hRoom, hSpaces | hFull⟩
    · have hNone : spaces.dropLast = [] := by
        rw [← List.length_eq_zero_iff, List.length_dropLast]
        omega
      rw [hNone, List.append_nil, List.take_of_length_le hRoom]
    · exact List.take_left' hFull

/-- No character of a part of a command is a terminator. -/
theorem parseExec_chars (hChars : ∀ c ∈ string, c ≠ 0#8) :
    (∀ c ∈ (parseExec string).1, c ≠ 0#8) ∧
      ∀ c ∈ (parseExec string).2, c ≠ 0#8 := by
  rw [parseExec_eq]
  constructor
  · intro c hc
    exact hChars c ((List.takeWhile_sublist _).subset (List.mem_of_mem_take hc))
  · intro c hc
    have hRest : c ∈ commandRest string := by
      have hDrop := List.mem_of_mem_take hc
      unfold dropFinalSpace at hDrop
      split at hDrop
      · exact (List.dropLast_subset _) hDrop
      · exact hDrop
    exact hChars c (List.mem_of_mem_drop ((List.dropWhile_sublist _).subset hRest))

private theorem trimmedArgs_chars (hChars : ∀ c ∈ string, c ≠ 0#8) :
    ∀ c ∈ trimmedArgs string, c ≠ 0#8 := by
  intro c hc
  have hRest := (List.rdropWhile_prefix (· = 0x20#8) (l := afterWord string)).subset hc
  exact hChars c (List.mem_of_mem_drop ((List.dropWhile_sublist _).subset hRest))

/-- A command is split right exactly when `parseExec` gives its parts. -/
theorem splitsCommand_iff (hChars : ∀ c ∈ string, c ≠ 0#8)
    (filename argstr : Buffer) :
    SplitsCommand string
        (parseExecInto string (.fresh filename) (.fresh argstr)).1.cells
        (parseExecInto string (.fresh filename) (.fresh argstr)).2.cells ↔
      parseExec string = (firstWord string, trimmedArgs string) := by
  obtain ⟨hName, hArgs⟩ := parseExecInto_holds string (.fresh filename)
    (.fresh argstr)
  obtain ⟨hNameChars, hArgsChars⟩ := parseExec_chars hChars
  have hWord : ∀ c ∈ firstWord string, c ≠ 0#8 :=
    fun c hc => hChars c ((List.takeWhile_sublist _).subset hc)
  constructor
  · rintro ⟨hName', hArgs'⟩
    exact Prod.ext (hName.unique hName' hNameChars hWord)
      (hArgs.unique hArgs' hArgsChars (trimmedArgs_chars hChars))
  · intro h
    rw [h] at hName hArgs
    exact ⟨hName, hArgs⟩

/-- What a word that is too long leads to. -/
theorem findsNoFile_iff (fs : FileSys) (hChars : ∀ c ∈ string, c ≠ 0#8)
    (temp : Regs Sp) {k : Globals Sp} (hQueue : k.taskQueue ≠ []) :
    FindsNoFile fs string temp k ↔
      ∀ i, i < getNumDirEntries fs →
        entryName fs i ≠ (firstWord string).take maxFnameSize := by
  have hName : (parseExec string).1 = (firstWord string).take maxFnameSize := by
    rw [parseExec_eq]
  have hFound := readDentryByName_isSome_iff fs (parseExec_chars hChars).1
  constructor
  · intro h i hi hEntry
    have hSome := hFound.2 ⟨i, hi, by rw [hEntry, hName]⟩
    rw [h.noFile] at hSome
    contradiction
  · intro h
    have hNone : readDentryByName fs (parseExec string).1 = none := by
      rw [← Option.not_isSome_iff_eq_none]
      intro hSome
      obtain ⟨i, hi, hEntry⟩ := hFound.1 hSome
      exact h i hi (by rw [hEntry, hName])
    refine ⟨hNone, execute_early temp hQueue ?_⟩
    intro hTakes
    have hCheck := hTakes.1
    unfold checkExecutable at hCheck
    rw [hNone] at hCheck
    contradiction

end Split

/--
**Command parsing.**  For any command, in any state: it is split right exactly
when its first word has at most 32 characters and its arguments, trimmed, at
most 128, with at most one space behind them (or all of them cut off by the
limit).  And when the first word is longer, `execute` finds no file exactly
when no file has the first 32 characters as its name.
-/
theorem command_parsing_iff (fs : FileSys) {string : CString}
    (hChars : ∀ c ∈ string, c ≠ 0#8) (filename argstr : Buffer)
    (temp : Regs Sp) {k : Globals Sp} (hQueue : k.taskQueue ≠ []) :
    (SplitsCommand string
        (parseExecInto string (.fresh filename) (.fresh argstr)).1.cells
        (parseExecInto string (.fresh filename) (.fresh argstr)).2.cells ↔
      (firstWord string).length ≤ maxFnameSize ∧
        (trimmedArgs string).length ≤ 128 ∧
        (trailingSpaces string ≤ 1 ∨ (trimmedArgs string).length = 128)) ∧
    ((maxFnameSize < (firstWord string).length → FindsNoFile fs string temp k) ↔
      (maxFnameSize < (firstWord string).length →
        ∀ i, i < getNumDirEntries fs →
          entryName fs i ≠ (firstWord string).take maxFnameSize)) := by
  constructor
  · rw [splitsCommand_iff hChars]
    have hName : (parseExec string).1 = firstWord string ↔
        (firstWord string).length ≤ maxFnameSize := by
      rw [parseExec_eq]
      constructor
      · intro h
        have hLength := congrArg List.length h
        rw [List.length_take] at hLength
        omega
      · exact List.take_of_length_le
    constructor
    · intro h
      have hShort := hName.1 (congrArg Prod.fst h)
      exact ⟨hShort, (args_eq_iff hShort).1 (congrArg Prod.snd h)⟩
    · rintro ⟨hShort, hArgs⟩
      exact Prod.ext (hName.2 hShort) ((args_eq_iff hShort).2 hArgs)
  · exact forall_congr' fun _ => findsNoFile_iff fs hChars temp hQueue

/-- `"shell"`. -/
theorem command_parsing_shell :
    SplitsCommand shell
      (parseExecInto shell (.fresh fun _ => 0) (.fresh fun _ => 0)).1.cells
      (parseExecInto shell (.fresh fun _ => 0) (.fresh fun _ => 0)).2.cells :=
  (command_parsing_iff programImage (by decide) (fun _ => 0) (fun _ => 0)
    (⟨0, 0⟩ : Regs Nat) (k := initGlobals 0) (by decide)).1.2 (by decide)

/-- An image with one executable, whose name is 32 times the letter a. -/
def longNameImage : FileSys where
  filesysAddr := 0x500000
  memory := fun addr =>
    if 0x500040 ≤ addr ∧ addr < 0x500060 then 0x61
    else
      match addr - 0x500000 with
      | 0 => 1 | 4 => 1 | 8 => 1
      | 96 => 2
      | 0x1000 => 40
      | 0x2000 => 0x7f | 0x2001 => 0x45 | 0x2002 => 0x4c | 0x2003 => 0x46
      | _ => 0

/-- The commands `"a b  "`, and 33 times the letter a. -/
theorem commandParsing_partial :
    ¬ SplitsCommand [0x61#8, 0x20#8, 0x62#8, 0x20#8, 0x20#8]
      (parseExecInto [0x61#8, 0x20#8, 0x62#8, 0x20#8, 0x20#8]
        (.fresh fun _ => 0) (.fresh fun _ => 0)).1.cells
      (parseExecInto [0x61#8, 0x20#8, 0x62#8, 0x20#8, 0x20#8]
        (.fresh fun _ => 0) (.fresh fun _ => 0)).2.cells ∧
    maxFnameSize < (firstWord (List.replicate 33 0x61#8)).length ∧
    (execute longNameImage (List.replicate 33 0x61#8) ⟨0, 0⟩
      (initGlobals (0 : Nat))).1 = .started ∧
    ¬ FindsNoFile longNameImage (List.replicate 33 0x61#8) ⟨0, 0⟩
      (initGlobals (0 : Nat)) := by
  have hStarted : (execute longNameImage (List.replicate 33 0x61#8) ⟨0, 0⟩
      (initGlobals (0 : Nat))).1 = .started := by
    decide +kernel
  refine ⟨?_, by decide, hStarted, ?_⟩
  · rw [splitsCommand_iff (by decide)]
    decide
  · intro h
    rw [h.fails] at hStarted
    contradiction

/-! ## The bounds -/

/-- `parse_exec` and the `strcpy` behind it write inside `fname`, `argstr` and
the `args` of the PCB. -/
structure ParseInside (string : CString) (fname argstr args : Buffer) : Prop where
  inFname : ∀ i ∈ (parseExecInto string (.fresh fname) (.fresh argstr)).1.written,
    i < maxFnameSize
  inArgstr : ∀ i ∈ (parseExecInto string (.fresh fname) (.fresh argstr)).2.written,
    i < 128
  inArgs : ∀ i ∈ (strcpyFrom
      (parseExecInto string (.fresh fname) (.fresh argstr)).2.cells 128 0
      (.fresh args)).written, i < 128

/-- What `strcpy` writes to. -/
theorem strcpyFrom_written {src : Buffer} {s : CString}
    (hString : HoldsString src s) (hChars : ∀ c ∈ s, c ≠ 0#8)
    {n : Nat} (hRoom : s.length ≤ n) (dest : Buffer) (i : Nat) :
    i ∈ (strcpyFrom src n 0 (.fresh dest)).written ↔ i ≤ s.length := by
  rw [strcpyFrom_eq hString hChars n 0 _ (Nat.zero_le _) (by omega),
    List.drop_zero, Logged.set_written, Logged.store_written]
  simp only [Logged.fresh_written, List.nil_append, List.mem_append,
    List.mem_range'_1, List.mem_singleton]
  omega

/--
**Bounds of command parsing.**  For any command, every write is inside its
array exactly when the first word has at most 31 characters and what follows
it, without leading spaces and without one final space, at most 127.
-/
theorem parse_inside_iff {string : CString} (hChars : ∀ c ∈ string, c ≠ 0#8)
    (fname argstr args : Buffer) :
    ParseInside string fname argstr args ↔
      (firstWord string).length < maxFnameSize ∧
        (dropFinalSpace (afterWord string)).length < 128 := by
  obtain ⟨hFname, hArgstr⟩ := parseExecInto_written string fname argstr
  have hHolds := (parseExecInto_holds string (.fresh fname) (.fresh argstr)).2
  have hName : (parseExec string).1.length < maxFnameSize ↔
      (firstWord string).length < maxFnameSize := by
    rw [parseExec_eq]
    simp only [List.length_take]
    omega
  have hArgs : (firstWord string).length < maxFnameSize →
      ((parseExec string).2.length < 128 ↔
        (dropFinalSpace (afterWord string)).length < 128) := by
    intro hShort
    rw [parseExec_eq, commandRest_eq (Nat.le_of_lt hShort)]
    simp only [List.length_take]
    omega
  have hRoom : (parseExec string).2.length ≤ 128 := by
    rw [parseExec_eq]
    exact List.length_take_le _ _
  constructor
  · intro h
    have hShort := hName.1 (hFname.1 h.inFname)
    exact ⟨hShort, (hArgs hShort).1 (hArgstr.1 h.inArgstr)⟩
  · rintro ⟨hShort, hLength⟩
    have hLt := (hArgs hShort).2 hLength
    refine ⟨hFname.2 (hName.2 hShort), hArgstr.2 hLt, ?_⟩
    intro i hi
    have hLe := (strcpyFrom_written hHolds (parseExec_chars hChars).2 hRoom
      args i).1 hi
    omega

/-- `"shell"` again. -/
theorem parse_inside_shell :
    ParseInside shell (fun _ => 0) (fun _ => 0) (fun _ => 0) :=
  (parse_inside_iff (by decide) (fun _ => 0) (fun _ => 0) (fun _ => 0)).2
    (by decide)

/-- A word of 32 characters, which is a name that a file can have: its
terminator goes behind `fname`.  And 128 characters of arguments. -/
theorem parse_writesBehind :
    32 ∈ (parseExecInto (List.replicate 32 0x61#8) (.fresh fun _ => 0)
      (.fresh fun _ => 0)).1.written ∧
    ¬ ParseInside (List.replicate 32 0x61#8) (fun _ => 0) (fun _ => 0)
      (fun _ => 0) ∧
    ¬ ParseInside ([0x61#8, 0x20#8] ++ List.replicate 128 0x62#8) (fun _ => 0)
      (fun _ => 0) (fun _ => 0) := by
  have hWritten : 32 ∈ (parseExecInto (List.replicate 32 0x61#8)
      (.fresh fun _ => 0) (.fresh fun _ => 0)).1.written := by
    decide
  refine ⟨hWritten, ?_, ?_⟩
  · intro h
    exact absurd (h.inFname 32 hWritten) (by decide)
  · intro h
    exact absurd (h.inArgstr 128 (by decide +kernel)) (by decide)

end CompE.Kernel
