import CompE.Userland.Grep
import Mathlib.Data.List.TakeWhile
import Mathlib.Data.Nat.Find

/-!
# The reads of `grep`

The buffer before a read holds the part of a line that the reads so far have
left; it and the bytes to come are the text that is still to be searched.
`searchLines_spec` is the step: what it prints, and what a search of the text
that it leaves prints, is what a search of the text before prints.
-/

namespace CompE.Userland

open CompE.Kernel

/-! ## Strings in the buffer -/

/-- The string in an array that has a terminator at index `n`. -/
theorem cstringOf_terminated (data : Buffer) {n : Nat} (size : Nat) (hEnd : data n = 0#8)
    (hSize : n < size) : cstringOf data size = (bytesOf data n).takeWhile (· ≠ 0#8) := by
  have hSplit : (List.range size).map data =
      bytesOf data n ++ 0#8 :: window data (n + 1) (size - (n + 1)) := by
    have hAll := window_add data 0 n (1 + (size - (n + 1)))
    rw [window_add data (0 + n) 1, show n + (1 + (size - (n + 1))) = size by omega] at hAll
    simp only [window, Nat.zero_add, bytesOf, List.range_one, List.map_cons, List.map_nil,
      Nat.add_zero, hEnd] at hAll ⊢
    exact hAll
  rw [cstringOf, hSplit, List.takeWhile_append, List.takeWhile_cons_of_neg (by simp)]
  split
  · rename_i hAll
    rw [List.append_nil]
    exact (((List.takeWhile_prefix _).eq_of_length hAll)).symm
  · rfl

/-- A string is copied to the front of its array, terminator included. -/
theorem ece391Strcpy_apply (n : Nat) {dst src m : Nat} (data : Buffer) (hDown : dst < src)
    (hm : m < n) (hChars : ∀ i, i < m → data (src + i) ≠ 0#8) (hEnd : data (src + m) = 0#8)
    (i : Nat) : ece391Strcpy n dst src data i =
      if dst ≤ i ∧ i ≤ dst + m then data (src + (i - dst)) else data i := by
  induction n generalizing dst src m data with
  | zero => omega
  | succ n ih =>
      rw [ece391Strcpy]
      cases m with
      | zero =>
          have hHere : data src = 0#8 := by simpa using hEnd
          rw [if_pos hHere, Function.update_apply]
          by_cases hi : i = dst
          · rw [if_pos hi, if_pos (by omega), hi, Nat.sub_self, Nat.add_zero]
          · rw [if_neg hi, if_neg (by omega)]
      | succ m =>
          have hKeep : ∀ j, Function.update data dst (data src) (src + 1 + j) =
              data (src + (1 + j)) := by
            intro j
            rw [Function.update_of_ne (by omega), Nat.add_assoc]
          have hHere : data src ≠ 0#8 := by simpa using hChars 0 (by omega)
          rw [if_neg hHere, ih (m := m) _ (by omega) (by omega)
            (fun j hj => by
              rw [hKeep]
              exact hChars (1 + j) (by omega))
            (by rw [hKeep, Nat.add_comm 1 m]; exact hEnd)]
          by_cases hi : dst + 1 ≤ i ∧ i ≤ dst + 1 + m
          · rw [if_pos hi, if_pos (by omega), hKeep]
            congr 1
            omega
          · rw [if_neg hi, Function.update_apply]
            by_cases hFirst : i = dst
            · rw [if_pos hFirst, if_pos (by omega), hFirst, Nat.sub_self, Nat.add_zero]
            · rw [if_neg hFirst, if_neg (by omega)]

/-! ## Texts -/

/-- Lines below the size of the buffer, and no zero but as the last byte. -/
structure PlainText (content : List Byte) : Prop where
  short : ∀ l, l <:+: content → nl ∉ l → l.length < bufSize
  nonzero : ∀ c ∈ content.dropLast, c ≠ 0#8

theorem PlainText.suffix {content content' : List Byte} (h : PlainText content)
    (hSuffix : content' <:+ content) : PlainText content' where
  short := fun l hl hLine => h.short l (hl.trans hSuffix.isInfix) hLine
  nonzero := by
    intro c hc
    obtain ⟨front, hFront⟩ := hSuffix
    have hSome : content' ≠ [] := by
      intro hNil
      rw [hNil] at hc
      exact absurd hc (by simp)
    apply h.nonzero c
    rw [← hFront, List.dropLast_append_of_ne_nil hSome]
    exact List.mem_append_right _ hc

/-! ## One line -/

section Lines

variable {pattern fname : CString}

private theorem report_prints {s : Session} (hConsole : Console s.files)
    (hName : fname.length ≤ 32) {data : Buffer} {start n : Nat}
    (hEnd : data (start + n) = 0#8) (hSize : start + n ≤ bufSize) :
    report fname data start s = s.print (fname ++ text ":" ++
      (window data start n).takeWhile (· ≠ 0#8) ++ text "\n") := by
  have hString := cstringOf_terminated (fun i => data (start + i)) (n := n)
    (bufSize + 1 - start) hEnd (by omega)
  have hShort : ((window data start n).takeWhile (· ≠ 0#8)).length < 2 ^ 31 := by
    have hSub : ((window data start n).takeWhile (· ≠ 0#8)).length ≤
        (window data start n).length := (List.takeWhile_sublist _).length_le
    rw [window_length] at hSub
    simp only [bufSize] at hSize
    omega
  have hPrint : ∀ (t : CString) (t' : List Byte), t.length < 2 ^ 31 →
      (s.print t').fdputs t = s.print (t' ++ t) := by
    intro t t' ht
    rw [Session.fdputs_console (s := s.print t') hConsole ht, Session.print_print]
  rw [report, hString, ← window, Session.fdputs_console hConsole (by omega),
    hPrint _ _ (by decide), hPrint _ _ hShort, hPrint _ _ (by decide)]

/-- A terminated line is searched and, if it has the pattern, printed. -/
theorem searchLine_prints (hPattern : pattern ≠ []) (hChars : ∀ c ∈ pattern, c ≠ 0#8)
    (hName : fname.length ≤ 32) {s : Session} (hConsole : Console s.files)
    {data : Buffer} {start n : Nat} (hEnd : data (start + n) = 0#8)
    (hSize : start + n ≤ bufSize) :
    (if searchLine pattern data start (start + n) then report fname data start s else s) =
      s.print (grepLine pattern fname (window data start n)) := by
  have hFound := searchLine_iff hPattern hChars hEnd
  rw [grepLine]
  by_cases hMatch : Findable pattern ∧ pattern <:+: window data start n
  · rw [if_pos (hFound.2 hMatch), if_pos hMatch]
    exact report_prints hConsole hName hEnd hSize
  · rw [if_neg fun h => hMatch (hFound.1 h), if_neg hMatch, Session.print_nil]

/-- The line that is not complete goes to the front. -/
theorem carry_window {data : Buffer} {start n : Nat} {rest : List Byte} (hStart : 0 < start)
    (hSize : start + n ≤ bufSize)
    (hText : PlainText (window data start n ++ rest)) :
    window (ece391Strcpy (bufSize + 1 - start) 0 start
        (Function.update data (start + n) 0#8)) 0 n = window data start n ∧
      ∀ i, start + n ≤ i → ece391Strcpy (bufSize + 1 - start) 0 start
        (Function.update data (start + n) 0#8) i =
          Function.update data (start + n) 0#8 i := by
  have hExists : ∃ m, Function.update data (start + n) 0#8 (start + m) = 0#8 :=
    ⟨n, Function.update_self _ _ _⟩
  have hZero := Nat.find_spec hExists
  have hBefore := fun i (hi : i < Nat.find hExists) => Nat.find_min hExists hi
  have hLe : Nat.find hExists ≤ n := Nat.find_min' hExists (Function.update_self _ _ _)
  generalize Nat.find hExists = m at hZero hBefore hLe
  have hLast : n ≤ m + 1 := by
    by_contra hEarly
    rw [Function.update_of_ne (by omega)] at hZero
    refine hText.nonzero _ ?_ hZero
    have hSplit : window data start n = window data start (n - 1) ++
        window data (start + (n - 1)) 1 := by
      rw [← window_add]
      congr 1
      omega
    rw [hSplit, List.append_assoc, List.dropLast_append_of_ne_nil (by simp [window, bytesOf])]
    exact List.mem_append_left _ (mem_window _ (by omega) (by omega))
  have hCopy := ece391Strcpy_apply (bufSize + 1 - start)
    (Function.update data (start + n) 0#8) hStart (m := m) (by omega) hBefore hZero
  constructor
  · apply List.ext_getElem
    · simp
    · intro i h1 h2
      rw [window_length] at h1
      rw [window_getElem, window_getElem, Nat.zero_add, hCopy, if_pos (by omega),
        Nat.sub_zero, Function.update_of_ne (by omega)]
  · intro i hi
    rw [hCopy, if_neg (by omega)]

/-! ## One read -/

/-- What the search of a filled buffer leaves: it has printed `out`, and the
part of a line at the front and `rest` are still to be searched. -/
structure Searched (pattern fname : CString) (rest : List Byte) (cnt : Nat)
    (before : List Byte) (g g' : Search) (out : List Byte) : Prop where
  session : g'.session = g.session.print out
  last : g'.last < bufSize
  sentinel : g'.data bufSize ≠ nl
  drained : cnt = 0 → g'.last = 0
  suffix : window g'.data 0 g'.last ++ rest <:+ before ++ rest
  output : grepText pattern fname (before ++ rest) =
    out ++ grepText pattern fname (window g'.data 0 g'.last ++ rest)

/-- The last line of the buffer, without a newline. -/
theorem searchLines_last (hPattern : pattern ≠ []) (hChars : ∀ c ∈ pattern, c ≠ 0#8)
    (hName : fname.length ≤ 32) {cnt : Nat} {rest : List Byte} (hEnd : cnt = 0 → rest = [])
    {start k : Nat} {g : Search} (hConsole : Console g.session.files)
    (hLast : start + k = g.last) (hSize : g.last ≤ bufSize)
    (hShort : g.last < bufSize → rest = []) (hSentinel : g.data bufSize ≠ nl)
    (hText : PlainText (window g.data start k ++ rest)) (hLine : nl ∉ window g.data start k)
    (hScan : scanLine g.data (g.last - start) start = start + k) (n : Nat) :
    ∃ g' out, searchLines pattern fname cnt (n + 1) start g = some g' ∧
      Searched pattern fname rest cnt (window g.data start k) g g' out := by
  have hStill : Function.update g.data (start + k) 0#8 bufSize ≠ nl := by
    rw [Function.update_apply]
    split
    · decide
    · exact hSentinel
  rw [searchLines, hScan]
  by_cases hCarry : g.data (start + k) ≠ nl ∧ cnt ≠ 0 ∧ start ≠ 0
  · obtain ⟨hWindow, hFrame⟩ := carry_window (by omega) (by omega) hText
    rw [if_pos hCarry]
    refine ⟨_, [], rfl, ?_⟩
    have hKept : g.last - start = k := by omega
    constructor
    · simp
    · show g.last - start < bufSize
      omega
    · show ece391Strcpy _ _ _ _ bufSize ≠ nl
      rw [hFrame bufSize (by omega)]
      exact hStill
    · intro hZero
      exact absurd hZero hCarry.2.1
    · simp only [hKept, hWindow]
      exact List.suffix_refl _
    · simp only [hKept, hWindow, List.nil_append]
  · have hNone : rest = [] := by
      by_cases hFull : g.last < bufSize
      · exact hShort hFull
      · have hWhole : start + k = bufSize := by omega
        rw [hWhole] at hCarry
        by_cases hZero : cnt = 0
        · exact hEnd hZero
        · have hFront : start = 0 := by
            by_contra hStart
            exact hCarry ⟨hSentinel, hZero, hStart⟩
          have hLong := hText.short _ (List.prefix_append _ _).isInfix hLine
          rw [window_length] at hLong
          omega
    subst hNone
    have hSame : window (Function.update g.data (start + k) 0#8) start k =
        window g.data start k :=
      window_congr fun i _ hi => Function.update_of_ne (by omega) _ _
    rw [if_neg hCarry, if_pos (by omega), searchLine_prints hPattern hChars hName hConsole
      (Function.update_self _ _ _) (by omega), hSame]
    refine ⟨_, grepLine pattern fname (window g.data start k), rfl, ?_⟩
    constructor
    · rfl
    · show 0 < bufSize
      decide
    · exact hStill
    · exact fun _ => rfl
    · simp [window, bytesOf]
    · rw [List.append_nil, grepText_last hLine]
      simp [window, bytesOf, grepText_nil hPattern]

/-- The lines of a filled buffer, from `start` on. -/
theorem searchLines_spec (hPattern : pattern ≠ []) (hChars : ∀ c ∈ pattern, c ≠ 0#8)
    (hName : fname.length ≤ 32) {cnt : Nat} {rest : List Byte} (hEnd : cnt = 0 → rest = [])
    (n start : Nat) {g : Search} (hConsole : Console g.session.files)
    (hStart : start ≤ g.last) (hSize : g.last ≤ bufSize)
    (hShort : g.last < bufSize → rest = []) (hSentinel : g.data bufSize ≠ nl)
    (hText : PlainText (window g.data start (g.last - start) ++ rest))
    (hn : g.last - start < n) :
    ∃ g' out, searchLines pattern fname cnt n start g = some g' ∧
      Searched pattern fname rest cnt (window g.data start (g.last - start)) g g' out := by
  induction n generalizing start g with
  | zero => omega
  | succ n ih =>
      obtain ⟨k, hScan, hLe, hLine, hStop⟩ := scanLine_spec g.data (g.last - start) start
      by_cases hComplete : k < g.last - start
      · have hNewline := hStop hComplete
        have hSplit : window g.data start (g.last - start) = window g.data start k ++
            nl :: window g.data (start + k + 1) (g.last - (start + k + 1)) := by
          have hAll := window_add g.data start k (1 + (g.last - (start + k + 1)))
          rw [window_add g.data (start + k) 1,
            show k + (1 + (g.last - (start + k + 1))) = g.last - start by omega] at hAll
          rw [hAll, ← hNewline]
          rfl
        have hSame : window (Function.update g.data (start + k) 0#8) start k =
            window g.data start k :=
          window_congr fun i _ hi => Function.update_of_ne (by omega) _ _
        have hRest : window (Function.update g.data (start + k) 0#8) (start + k + 1)
            (g.last - (start + k + 1)) =
            window g.data (start + k + 1) (g.last - (start + k + 1)) :=
          window_congr fun i hi _ => Function.update_of_ne (by omega) _ _
        have hTail : window g.data (start + k + 1) (g.last - (start + k + 1)) ++ rest <:+
            window g.data start (g.last - start) ++ rest := by
          rw [hSplit]
          exact ⟨window g.data start k ++ [nl], by simp⟩
        have hStill : Function.update g.data (start + k) 0#8 bufSize ≠ nl := by
          rw [Function.update_of_ne (by omega)]
          exact hSentinel
        have hText' : grepText pattern fname
            (window g.data start (g.last - start) ++ rest) =
            grepLine pattern fname (window g.data start k) ++ grepText pattern fname
              (window g.data (start + k + 1) (g.last - (start + k + 1)) ++ rest) := by
          rw [hSplit, List.append_assoc, List.cons_append, grepText_line _ hLine]
        rw [searchLines, hScan, if_neg (by simp [hNewline]),
          searchLine_prints hPattern hChars hName hConsole (Function.update_self _ _ _)
            (by omega), hSame]
        by_cases hOver : start + k + 1 ≥ g.last
        · rw [if_pos hOver]
          have hEmpty : g.last - (start + k + 1) = 0 := by omega
          rw [hEmpty] at hTail hText'
          refine ⟨_, grepLine pattern fname (window g.data start k), rfl, ?_⟩
          exact
            { session := rfl
              last := show 0 < bufSize by decide
              sentinel := hStill
              drained := fun _ => rfl
              suffix := hTail
              output := hText' }
        · rw [if_neg hOver]
          obtain ⟨g', out, hRun, hSearched⟩ := ih (start + k + 1)
            (g := ⟨Function.update g.data (start + k) 0#8, g.last,
              g.session.print (grepLine pattern fname (window g.data start k))⟩)
            hConsole (show start + k + 1 ≤ g.last by omega) hSize
            hShort hStill (by rw [hRest]; exact hText.suffix hTail)
            (show g.last - (start + k + 1) < n by omega)
          refine ⟨g', grepLine pattern fname (window g.data start k) ++ out, hRun, ?_⟩
          have hSuffix := hSearched.suffix
          have hOutput := hSearched.output
          simp only [hRest] at hSuffix hOutput
          exact
            { session := by rw [hSearched.session, Session.print_print]
              last := hSearched.last
              sentinel := hSearched.sentinel
              drained := hSearched.drained
              suffix := hSuffix.trans hTail
              output := by rw [hText', hOutput, List.append_assoc] }
      · have hk : k = g.last - start := by omega
        subst hk
        exact searchLines_last hPattern hChars hName hEnd hConsole (by omega) hSize hShort
          hSentinel hText hLine hScan n

/-! ## All reads of a file -/

variable {fs : FileSys} {fd : Nat}

/-- The buffer after a read. -/
theorem window_filled (g : Search) (bytes : List Byte) :
    window (fun i => if i < g.last then g.data i else
        overwrite (fun i => g.data (g.last + i)) bytes (i - g.last)) 0
      (g.last + bytes.length) = window g.data 0 g.last ++ bytes := by
  rw [window_add]
  congr 1
  · exact window_congr fun i _ hi => if_pos (by omega)
  · have hBytes : window (fun i => if i < g.last then g.data i else
        overwrite (fun i => g.data (g.last + i)) bytes (i - g.last)) (0 + g.last)
        bytes.length = bytesOf (overwrite (fun i => g.data (g.last + i)) bytes)
          bytes.length := by
      refine bytesOf_congr fun i _ => ?_
      simp only
      rw [if_neg (by omega), show 0 + g.last + i - g.last = i by omega]
    rw [hBytes, bytesOf_overwrite]

/-- What the search of a file does to the session. -/
structure FileSearched (s s' : Session) (fd : Nat) (out : List Byte) : Prop where
  printed : s'.printed = s.printed ++ out
  others : ∀ j, j ≠ fd → s'.files j = s.files j
  inUse : (s'.files fd).inUse = true
  optbl : (s'.files fd).optbl = (s.files fd).optbl

/-- A read moves the descriptor on, and its bytes are searched. -/
private theorem fileSearched_read {s s' : Session} {pos : Nat} {out : List Byte}
    (hFiles : s'.files = Function.update s.files fd { s.files fd with pos := pos })
    (hPrinted : s'.printed = s.printed ++ out) (hUse : (s.files fd).inUse = true) :
    FileSearched s s' fd out where
  printed := hPrinted
  others := fun j hj => by rw [hFiles, Function.update_of_ne hj]
  inUse := by simp [hFiles, hUse]
  optbl := by simp [hFiles]

theorem FileSearched.trans {s s' s'' : Session} {out out' : List Byte}
    (h : FileSearched s s' fd out) (h' : FileSearched s' s'' fd out') :
    FileSearched s s'' fd (out ++ out') where
  printed := by rw [h'.printed, h.printed, List.append_assoc]
  others := fun j hj => (h'.others j hj).trans (h.others j hj)
  inUse := h'.inUse
  optbl := h'.optbl.trans h.optbl

/-- A read, and the search of what the buffer then holds. -/
theorem searchFile_prints (hPattern : pattern ≠ []) (hChars : ∀ c ∈ pattern, c ≠ 0#8)
    (hName : fname.length ≤ 32) (hFd : fd ≠ 1) (n : Nat) (rest : List Byte) {g : Search}
    (hReading : Reading fs g.session.files fd rest)
    (hOpen : ¬ EndGuarded fs (g.session.files fd).inode)
    (hConsole : Console g.session.files) (hLast : g.last < bufSize)
    (hSentinel : g.data bufSize ≠ nl)
    (hText : PlainText (window g.data 0 g.last ++ rest)) (hn : rest.length < n) :
    ∃ s', searchFile fs pattern fname fd n g = some (true, s') ∧
      FileSearched g.session s' fd
        (grepText pattern fname (window g.data 0 g.last ++ rest)) := by
  induction n generalizing rest g with
  | zero => omega
  | succ n ih =>
      obtain ⟨pos, hRead, hNext⟩ := hReading.read (fun i => g.data (g.last + i))
        (n := bufSize - g.last) (by simp only [bufSize]; omega)
        fun hGuard => absurd hGuard hOpen
      have hStill : Console (Function.update g.session.files fd
          { g.session.files fd with pos := pos }) := hConsole.update hFd _
      have hCut : window g.data 0 g.last ++ rest =
          (window g.data 0 g.last ++ rest.take (bufSize - g.last)) ++
            rest.drop (bufSize - g.last) := by
        rw [List.append_assoc, List.take_append_drop]
      have hFilled := window_filled g (rest.take (bufSize - g.last))
      generalize hData : (fun i => if i < g.last then g.data i else
        overwrite (fun i => g.data (g.last + i)) (rest.take (bufSize - g.last))
          (i - g.last)) = data at hFilled
      have hCount : (rest.take (bufSize - g.last)).length =
          min (bufSize - g.last) rest.length := List.length_take
      have hLastByte : data bufSize ≠ nl := by
        rw [← hData]
        simp only
        rw [if_neg (by omega), overwrite, if_neg (by omega),
          show g.last + (bufSize - g.last) = bufSize by omega]
        exact hSentinel
      have hDone : (rest.take (bufSize - g.last)).length = 0 →
          rest.drop (bufSize - g.last) = [] := by
        intro hZero
        apply List.drop_eq_nil_of_le
        omega
      obtain ⟨g', out, hSearch, hSearched⟩ := searchLines_spec hPattern hChars hName hDone
        (bufSize + 1) 0
        (g := ⟨data, g.last + (rest.take (bufSize - g.last)).length, { g.session with
          files := Function.update g.session.files fd
            { g.session.files fd with pos := pos } }⟩)
        hStill (Nat.zero_le _)
        (show g.last + (rest.take (bufSize - g.last)).length ≤ bufSize by omega)
        (fun hShort => List.drop_eq_nil_of_le (by
          change g.last + (rest.take (bufSize - g.last)).length < bufSize at hShort
          omega))
        hLastByte
        (by
          simp only [Nat.sub_zero, hFilled]
          rw [← hCut]
          exact hText)
        (show g.last + (rest.take (bufSize - g.last)).length - 0 < bufSize + 1 by omega)
      simp only [Nat.sub_zero, hFilled] at hSearched
      have hOutput := hSearched.output
      rw [← hCut] at hOutput
      have hFiles : g'.session.files = Function.update g.session.files fd
          { g.session.files fd with pos := pos } := by
        rw [hSearched.session]
        rfl
      have hHere : FileSearched g.session g'.session fd out :=
        fileSearched_read hFiles (by rw [hSearched.session]; rfl) hReading.inUse
      rw [searchFile, hRead]
      simp only [hData, hSearch]
      by_cases hZero : (rest.take (bufSize - g.last)).length = 0
      · rw [if_pos hZero]
        have hNil : grepText pattern fname (window g'.data 0 0 ++ []) = [] :=
          grepText_nil hPattern
        rw [hSearched.drained hZero, hDone hZero, hNil, List.append_nil] at hOutput
        rw [hOutput]
        exact ⟨_, rfl, hHere⟩
      · rw [if_neg hZero]
        obtain ⟨s', hRun, hRest⟩ := ih (rest.drop (bufSize - g.last)) (g := g')
          (by rw [hFiles]; exact hNext) (by simpa [hFiles] using hOpen)
          (by rw [hFiles]; exact hStill) hSearched.last hSearched.sentinel
          (hText.suffix (by rw [hCut]; exact hSearched.suffix))
          (by rw [List.length_drop]; omega)
        rw [hOutput]
        exact ⟨s', hRun, hHere.trans hRest⟩

/-- The RTC has nothing to search. -/
theorem searchFile_rtc (hPattern : pattern ≠ []) (hChars : ∀ c ∈ pattern, c ≠ 0#8)
    (hName : fname.length ≤ 32) (n : Nat) {data : Buffer} {s : Session}
    (hConsole : Console s.files) (hUse : (s.files fd).inUse = true)
    (hRtc : (s.files fd).optbl = .rtc) (hSentinel : data bufSize ≠ nl) :
    ∃ s', searchFile fs pattern fname fd (n + 1) ⟨data, 0, s⟩ = some (true, s') ∧
      FileSearched s s' fd [] := by
  have hRead : s.read fs fd (fun i => data (0 + i)) (bufSize - 0) =
      some (0, fun i => data (0 + i), s) := by
    rw [Session.read, sysRead, if_neg (by simp [hUse]), hRtc]
    rfl
  obtain ⟨g', out, hSearch, hSearched⟩ := searchLines_spec hPattern hChars hName
    (show 0 = 0 → [] = [] from fun _ => rfl) (bufSize + 1) 0
    (g := ⟨fun i => if i < 0 then data i else data (0 + (i - 0)), 0, s⟩)
    hConsole (Nat.zero_le _) (Nat.zero_le _) (fun _ => rfl)
    (by simpa using hSentinel)
    (by
      constructor
      · intro l hl _
        have hNil : l = [] := by simpa [window, bytesOf] using hl
        rw [hNil]
        decide
      · simp [window, bytesOf])
    (show 0 - 0 < bufSize + 1 by decide)
  have hOut : out = [] := by
    have hOutput := hSearched.output
    rw [hSearched.drained rfl] at hOutput
    simpa [window, bytesOf, grepText_nil hPattern] using hOutput.symm
  subst hOut
  have hSame : g'.session = s := by
    rw [hSearched.session, Session.print_nil]
  rw [searchFile, hRead]
  simp only [Nat.add_zero, hSearch, if_pos]
  refine ⟨_, rfl, ?_⟩
  rw [hSame]
  exact ⟨by simp, fun _ _ => rfl, hUse, rfl⟩

/-! ## Files -/

/-- A file that `grep` can go through: the RTC, or a text. -/
structure Searchable (fs : FileSys) (name : CString) (d : Dentry) : Prop where
  found : readDentryByName fs name = some d
  type : d.ftype = 0 ∨ d.ftype = 2
  file : d.ftype = 2 → RegularFile fs d.inodeNum
  unguarded : d.ftype = 2 → ¬ EndGuarded fs d.inodeNum
  plain : d.ftype = 2 → PlainText (delivered fs d.inodeNum)

/-- What is printed for a name of the directory. -/
def grepFile (fs : FileSys) (pattern name : CString) : List Byte :=
  match readDentryByName fs name with
  | some d => if d.ftype = 2 then grepText pattern name (delivered fs d.inodeNum) else []
  | none => []

private theorem grepFile_eq {name : CString} {d : Dentry} (h : Searchable fs name d) :
    grepFile fs pattern name =
      if d.ftype = 2 then grepText pattern name (delivered fs d.inodeNum) else [] := by
  rw [grepFile, h.found]

/-- One file is searched, and its descriptor is free again. -/
theorem doOneFile_prints (hPattern : pattern ≠ []) (hChars : ∀ c ∈ pattern, c ≠ 0#8)
    (hName : fname.length ≤ 32) {d : Dentry} (hFile : Searchable fs fname d)
    {data : Buffer} (hSentinel : data bufSize ≠ nl) {s : Session}
    (hConsole : Console s.files) (hFree : getFreeFd s.files = some fd) {n : Nat}
    (hn : 2 ^ 22 ≤ n) :
    ∃ s', doOneFile fs pattern fname data n s = some (true, s') ∧
      s'.printed = s.printed ++ grepFile fs pattern fname ∧
      (∀ j, j ≠ fd → s'.files j = s.files j) ∧ (s'.files fd).inUse = false := by
  obtain ⟨hLow, hHigh, hUnused, -⟩ := getFreeFd_some hFree
  have hFd := free_ne_console hFree
  obtain ⟨ops, hOps⟩ : ∃ ops, fileOpsOf d.ftype = some ops := by
    rcases hFile.type with h | h
    · exact ⟨.rtc, by rw [h]; rfl⟩
    · exact ⟨.regfile, by rw [h]; rfl⟩
  have hOpen := Session.openFile_some hFile.found hOps hFree
  have hStill : Console (Function.update s.files fd (openedDesc d ops (s.files fd))) :=
    hConsole.update hFd _
  have hSearch : ∃ s', searchFile fs pattern fname fd n ⟨data, 0, { s with
        files := Function.update s.files fd (openedDesc d ops (s.files fd)) }⟩ =
        some (true, s') ∧
      FileSearched { s with
        files := Function.update s.files fd (openedDesc d ops (s.files fd)) } s' fd
        (grepFile fs pattern fname) := by
    rw [grepFile_eq hFile]
    rcases hFile.type with h | h
    · rw [h] at hOps
      obtain rfl : FileOps.rtc = ops := Option.some.inj hOps
      rw [if_neg (by omega)]
      obtain ⟨m, rfl⟩ : ∃ m, n = m + 1 := ⟨n - 1, by omega⟩
      exact searchFile_rtc hPattern hChars hName m hStill
        (by simp [openedDesc]) (by simp [openedDesc]) hSentinel
    · have hRegular := hFile.file h
      have hType := hOps
      rw [h] at hType
      obtain rfl : FileOps.regfile = ops := Option.some.inj hType
      rw [if_pos h]
      have hLength : (delivered fs d.inodeNum).length < n := by
        have hMost := hRegular.length_le
        simp only [blockSize] at hMost
        rw [delivered_length, deliveredLength]
        split <;> omega
      obtain ⟨s', hRun, hResult⟩ := searchFile_prints hPattern hChars hName hFd n _
        (g := ⟨data, 0, { s with
          files := Function.update s.files fd (openedDesc d .regfile (s.files fd)) }⟩)
        (reading_opened hRegular s.files) (by simpa [openedDesc] using hFile.unguarded h)
        hStill (show 0 < bufSize by decide) hSentinel
        (by simpa [window, bytesOf] using hFile.plain h) hLength
      exact ⟨s', hRun, by simpa [window, bytesOf] using hResult⟩
  obtain ⟨s', hRun, hResult⟩ := hSearch
  have hTable : fileOpsOf d.ftype = some (s'.files fd).optbl := by
    rw [hResult.optbl, hOps]
    simp [openedDesc_optbl]
  have hClose := sysClose_opened hLow hHigh hResult.inUse hTable
  have hClosed : s'.close fd = some { s' with
      files := Function.update s'.files fd { s'.files fd with inUse := false } } := by
    rw [Session.close, hClose]
    rfl
  have hAll : doOneFile fs pattern fname data n s = some (true, { s' with
      files := Function.update s'.files fd { s'.files fd with inUse := false } }) := by
    rw [doOneFile, hOpen]
    simp only [hRun]
    rw [hClosed]
  refine ⟨_, hAll, ?_, ?_, ?_⟩
  · exact hResult.printed
  · intro j hj
    have hOther := hResult.others j hj
    simpa [hj] using hOther
  · simp

/-! ## The directory -/

/-- A name that `grep` looks at. -/
def visible (name : CString) : Bool := name.head? != some 0x2E#8

/-- Some descriptor is free. -/
def HasFree (files : FileArray) : Prop := ∃ j, 2 ≤ j ∧ j < numFds ∧ (files j).inUse = false

theorem HasFree.getFreeFd {files : FileArray} (h : HasFree files) :
    ∃ fd, getFreeFd files = some fd := by
  obtain ⟨j, hLow, hHigh, hFree⟩ := h
  cases hFound : CompE.Kernel.getFreeFd files with
  | some fd => exact ⟨fd, rfl⟩
  | none =>
      have hUsed := getFreeFd_none.1 hFound j hLow hHigh
      rw [hFree] at hUsed
      contradiction

/-- The descriptor of the directory moves on and stays in use. -/
private theorem hasFree_read {files : FileArray} (h : HasFree files)
    (hUse : (files fd).inUse = true) (d : FileDesc) : HasFree (Function.update files fd d) := by
  obtain ⟨j, hLow, hHigh, hFree⟩ := h
  have hj : j ≠ fd := by
    rintro rfl
    rw [hUse] at hFree
    contradiction
  exact ⟨j, hLow, hHigh, by rw [Function.update_of_ne hj]; exact hFree⟩

/-- The name that was read, with the terminator behind it. -/
private theorem cstringOf_shown {pos : Nat} {buf : Buffer}
    (hName : bytesOf buf (shown fs pos).length = shown fs pos) :
    cstringOf (Function.update buf (shown fs pos).length 0#8) 33 = shown fs pos := by
  have hShort := shown_length fs pos
  rw [cstringOf_terminated _ _ (Function.update_self _ _ _) (by omega),
    bytesOf_congr fun i hi => Function.update_of_ne (Nat.ne_of_lt hi) _ _, hName]
  have hAll : ∀ c ∈ shown fs pos, decide (c ≠ 0#8) = true := by
    intro c hc
    rw [shown] at hc
    split at hc
    · simpa using entryName_chars fs _ c hc
    · cases hc
  exact List.takeWhile_eq_self_iff.2 hAll

/-- The names from the position on are searched. -/
theorem grepLoop_prints (hPattern : pattern ≠ []) (hChars : ∀ c ∈ pattern, c ≠ 0#8)
    {stack : Nat → Buffer} (hStack : ∀ k, stack k bufSize ≠ nl)
    (hEntries : getNumDirEntries fs < 2 ^ 32 - 1) {n : Nat} (hn : 2 ^ 22 ≤ n) (m : Nat)
    (k : Nat) (buf : Buffer) {s : Session} (hListing : Listing s.files fd)
    (hFd : fd ≠ 1) (hConsole : Console s.files) (hFree : HasFree s.files)
    (hFiles : ∀ name ∈ listing fs (s.files fd).pos, visible name = true →
      ∃ d, Searchable fs name d)
    (hm : (listing fs (s.files fd).pos).length < m) :
    ∃ s', grepLoop fs pattern stack n fd m k buf s = some (0, s') ∧
      s'.printed = s.printed ++
        ((listing fs (s.files fd).pos).filter visible).flatMap (grepFile fs pattern) := by
  induction m generalizing k buf s with
  | zero => omega
  | succ m ih =>
      obtain ⟨buf', hRead, hName⟩ := hListing.read fs buf
      rw [grepLoop, hRead]
      by_cases hEmpty : shown fs (s.files fd).pos = []
      · simp only [hEmpty, List.length_nil, if_pos]
        exact ⟨_, rfl, by simp [listing_of_empty hEmpty]⟩
      · have hIndex : (s.files fd).pos ≤ getNumDirEntries fs := by
          by_contra hPast
          exact hEmpty (if_neg hPast)
        have hShort := shown_length fs (s.files fd).pos
        have hPos : 0 < (shown fs (s.files fd).pos).length := List.length_pos_iff.2 hEmpty
        have hNames := listing_of_shown hEmpty
        simp only [if_neg (Nat.ne_of_gt hPos), if_pos hIndex, u32_of_lt
          (show (s.files fd).pos + 1 < 2 ^ 32 by omega)]
        rw [hNames] at hFiles hm ⊢
        have hFirst : (shown fs (s.files fd).pos).head? = some (buf' 0) := by
          rw [← hName, List.head?_eq_getElem?]
          simp [bytesOf, hPos]
        have hNext : Console (Function.update s.files fd
            { s.files fd with pos := (s.files fd).pos + 1 }) := hConsole.update hFd _
        have hFreeNext : HasFree (Function.update s.files fd
            { s.files fd with pos := (s.files fd).pos + 1 }) :=
          hasFree_read hFree hListing.inUse _
        by_cases hDot : buf' 0 = 0x2E#8
        · rw [if_pos hDot]
          have hHidden : visible (shown fs (s.files fd).pos) = false := by
            simp [visible, hFirst, hDot]
          obtain ⟨s', hRun, hPrinted⟩ := ih (k + 1) buf'
            (s := { s with
              files := Function.update s.files fd
                { s.files fd with pos := (s.files fd).pos + 1 } })
            ⟨by simp [hListing.inUse], by simp [hListing.dir]⟩ hNext hFreeNext
            (fun name hMem => hFiles name (by simpa using Or.inr hMem))
            (by simpa using hm)
          exact ⟨s', hRun, by simpa [hHidden] using hPrinted⟩
        · rw [if_neg hDot]
          have hVisible : visible (shown fs (s.files fd).pos) = true := by
            simp [visible, hFirst, hDot]
          obtain ⟨d, hFile⟩ := hFiles _ (List.mem_cons_self ..) hVisible
          obtain ⟨fd', hGet⟩ := hFreeNext.getFreeFd
          obtain ⟨s1, hOne, hOut, hOthers, hUnused⟩ := doOneFile_prints hPattern hChars
            hShort hFile (hStack k) (s := { s with
              files := Function.update s.files fd
                { s.files fd with pos := (s.files fd).pos + 1 } }) hNext hGet hn
          have hOther : fd ≠ fd' := by
            rintro rfl
            have hInUse := (getFreeFd_some hGet).2.2.1
            simp [hListing.inUse] at hInUse
          have hDir : s1.files fd = { s.files fd with pos := (s.files fd).pos + 1 } := by
            rw [hOthers fd hOther]
            simp
          rw [cstringOf_shown hName, hOne]
          obtain ⟨s', hRun, hPrinted⟩ := ih (k + 1)
            (Function.update buf' (shown fs (s.files fd).pos).length 0#8) (s := s1)
            ⟨by rw [hDir]; exact hListing.inUse, by rw [hDir]; exact hListing.dir⟩
            (by
              rw [Console, hOthers 1 (free_ne_console hGet).symm]
              exact hNext)
            ⟨fd', (getFreeFd_some hGet).1, (getFreeFd_some hGet).2.1, hUnused⟩
            (fun name hMem => hFiles name (by
              rw [hDir] at hMem
              exact List.mem_cons_of_mem _ hMem))
            (by rw [hDir]; simpa using hm)
          refine ⟨s', hRun, ?_⟩
          rw [hPrinted, hOut, hDir, List.filter_cons_of_pos hVisible, List.flatMap_cons]
          simp

/--
**What `grep` prints.**  For every pattern that is not empty: with two free
descriptors, on a console, and when every name that does not start with a dot
is the RTC or a file of lines below 1024 bytes without a zero, `grep` ends with
status 0 and has printed, for these names in the order of the directory, every
line that contains the pattern, or none if its first byte is 0x80 or more.  The
lines are those of what reading the file delivers, and the last byte of the
array of `do_one_file`, which is not initialised, is taken not to be a newline.
-/
theorem grep_prints (hPattern : pattern ≠ []) (hChars : ∀ c ∈ pattern, c ≠ 0#8)
    (stack : Nat → Buffer) (hStack : ∀ k, stack k bufSize ≠ nl)
    (hEntries : getNumDirEntries fs < 2 ^ 22) {d : Dentry}
    (hFound : readDentryByName fs (text ".") = some d) (hType : d.ftype = 1)
    {s : Session} (hConsole : Console s.files) (hFirst : getFreeFd s.files = some fd)
    (hSecond : ∃ j, fd < j ∧ j < numFds ∧ (s.files j).inUse = false)
    (hFiles : ∀ name ∈ listing fs (s.files fd).pos, visible name = true →
      ∃ d, Searchable fs name d)
    (buf : Buffer) {n : Nat} (hn : 2 ^ 22 < n) :
    ∃ s', grep fs (some pattern) stack n buf s = some (0, s') ∧
      s'.printed = s.printed ++
        ((listing fs (s.files fd).pos).filter visible).flatMap (grepFile fs pattern) := by
  have hOps : fileOpsOf d.ftype = some .dir := by rw [hType]; rfl
  have hFd := free_ne_console hFirst
  have hPos : (openedDesc d .dir (s.files fd)).pos = (s.files fd).pos := by
    simp [openedDesc]
  have hFree : HasFree (Function.update s.files fd (openedDesc d .dir (s.files fd))) := by
    obtain ⟨j, hAbove, hHigh, hUnused⟩ := hSecond
    have hLow := (getFreeFd_some hFirst).1
    exact ⟨j, by omega, hHigh, by
      rw [Function.update_of_ne (by omega)]
      exact hUnused⟩
  have hGrep : grep fs (some pattern) stack n buf s =
      grepLoop fs pattern stack n fd n 0 buf { s with
        files := Function.update s.files fd (openedDesc d .dir (s.files fd)) } := by
    rw [grep]
    simp only [Session.openFile_some hFound hOps hFirst]
  have hCount : getNumDirEntries fs < 2 ^ 32 - 1 := by omega
  have hLoop := grepLoop_prints hPattern hChars hStack hCount (n := n) (by omega) n
    0 buf (s := { s with
      files := Function.update s.files fd (openedDesc d .dir (s.files fd)) })
    (listing_opened d s.files) hFd (hConsole.update hFd _) hFree
    (by simpa [hPos] using hFiles)
    (by
      have hLength := listing_length fs (s.files fd).pos
      simp only [Function.update_self, hPos]
      omega)
  simp only [Function.update_self, hPos] at hLoop
  rw [hGrep]
  exact hLoop

/-- A line in front of a text. -/
theorem PlainText.line {l rest : List Byte} (hRest : PlainText rest) (hSome : rest ≠ [])
    (hShort : l.length < bufSize) (hChars : ∀ c ∈ l, c ≠ 0#8) :
    PlainText (l ++ nl :: rest) where
  short := by
    rintro l' ⟨before, after, hCut⟩ hNone
    rw [List.append_assoc, List.append_eq_append_iff] at hCut
    rcases hCut with ⟨a, hFront, hBack⟩ | ⟨b, hFront, hBack⟩
    · rw [List.append_eq_append_iff] at hBack
      rcases hBack with ⟨c, hInside, -⟩ | ⟨c, hOver, hTail⟩
      · have hLength := congrArg List.length hFront
        rw [hInside] at hLength
        simp only [List.length_append] at hLength
        omega
      · cases c with
        | nil =>
            have hLength := congrArg List.length hFront
            rw [List.append_nil] at hOver
            simp only [List.length_append, ← hOver] at hLength
            omega
        | cons c cs =>
            rw [List.cons_append, List.cons.injEq] at hTail
            refine absurd ?_ hNone
            rw [hOver, hTail.1]
            simp
    · cases b with
      | nil =>
          rw [List.nil_append] at hBack
          cases l' with
          | nil => decide
          | cons c cs =>
              rw [List.cons_append, List.cons.injEq] at hBack
              exact absurd (by rw [← hBack.1]; exact List.mem_cons_self) hNone
      | cons c cs =>
          rw [List.cons_append, List.cons.injEq] at hBack
          exact hRest.short l' ⟨cs, after, by rw [List.append_assoc]; exact hBack.2.symm⟩ hNone
  nonzero := by
    intro c hc
    rw [List.dropLast_append_of_ne_nil (by simp), List.dropLast_cons_of_ne_nil hSome,
      List.mem_append, List.mem_cons] at hc
    rcases hc with hHere | rfl | hThere
    · exact hChars c hHere
    · decide
    · exact hRest.nonzero c hThere

/-- An image with a directory `"."` and a file `"a"`. -/
def textImage (content : List Byte) : FileSys where
  filesysAddr := 0x500000
  memory := fun addr =>
    if 0x502000 ≤ addr then content.getD (addr - 0x502000) 0
    else
      match addr - 0x500000 with
      | 0 => 2
      | 4 => 1
      | 8 => 1
      | 64 => 0x2e
      | 96 => 1
      | 128 => 0x61
      | 160 => 2
      | 4096 => BitVec.ofNat 8 content.length
      | 4097 => BitVec.ofNat 8 (content.length / 256)
      | _ => 0

/-- A line of 699 bytes with `xyz` in it. -/
def cutLine : List Byte :=
  List.replicate 322 0x61 ++ [0x78, 0x79, 0x7a] ++ List.replicate 374 0x61

private theorem cutLine_chars : ∀ c ∈ cutLine, c ≠ 0#8 := by
  have hAll : cutLine.all (fun c => c != 0#8) = true := by decide +kernel
  intro c hc
  simpa using List.all_eq_true.1 hAll c hc

/-- A file of 1500 bytes; `xyz` stands at byte 1023. -/
def cutText : List Byte :=
  List.replicate 700 0x61 ++ nl :: (cutLine ++ nl :: List.replicate 99 0x61)

private theorem textImage_byte {p : Nat} (hp : p < blockSize) :
    tableByte (textImage cutText) (inodePtr (textImage cutText) 0) p = cutText.getD p 0 := by
  have hBlock : getDataBlock (textImage cutText) 0 (inodePtr (textImage cutText) 0) =
      0x502000 := by
    decide +kernel
  simp only [blockSize] at hp
  rw [tableByte, blockSize, Nat.div_eq_of_lt hp, Nat.mod_eq_of_lt hp, hBlock,
    FileSys.byteAt, u32_of_lt (by omega)]
  simp only [textImage]
  rw [if_pos (by omega), Nat.add_sub_cancel_left]

private theorem textImage_delivered : delivered (textImage cutText) 0 =
    List.replicate 700 0x61 ++ nl :: (cutLine ++ nl :: (List.replicate 99 0x61 ++ [0])) := by
  have hCount : deliveredLength (textImage cutText) 0 = 1501 := by decide +kernel
  have hLength : cutText.length = 1500 := by decide +kernel
  have hText : delivered (textImage cutText) 0 = cutText ++ [0] := by
    apply List.ext_getElem
    · rw [delivered_length, hCount, List.length_append, hLength]
      rfl
    · intro p h1 h2
      have hp : p < 1501 := by
        rw [delivered_length, hCount] at h1
        exact h1
      simp only [delivered, List.getElem_map, List.getElem_range]
      rw [textImage_byte (Nat.lt_trans hp (by decide)), List.getElem_append]
      split
      · rename_i hIn
        rw [List.getD_eq_getElem?_getD, List.getElem?_eq_getElem hIn, Option.getD_some]
      · rename_i hOut
        rw [List.getD_eq_getElem?_getD, List.getElem?_eq_none (by omega),
          Option.getD_none, List.getElem_singleton]
  rw [hText, cutText]
  simp only [List.append_assoc, List.cons_append]

private theorem textImage_plain : PlainText (delivered (textImage cutText) 0) := by
  have hChars : ∀ n, ∀ c ∈ List.replicate n (0x61 : Byte), c ≠ 0#8 := by
    intro n c hc
    rw [List.eq_of_mem_replicate hc]
    decide
  have hLast : PlainText (List.replicate 99 0x61 ++ [0]) := by
    constructor
    · intro l hl _
      have hMost := hl.length_le
      simp only [List.length_append, List.length_replicate, List.length_singleton,
        bufSize] at hMost ⊢
      omega
    · intro c hc
      rw [List.dropLast_concat] at hc
      exact hChars 99 c hc
  rw [textImage_delivered]
  exact (hLast.line (by simp) (by decide +kernel) cutLine_chars).line (by simp)
    (by decide +kernel) (hChars 700)

/-- The first read ends inside the pattern. -/
theorem grep_prints_cutText :
    ∃ s', grep (textImage cutText) (some [0x78, 0x79, 0x7a]) (fun _ _ => 0) (2 ^ 22 + 1)
        (fun _ => 0) ⟨freshFiles, []⟩ = some (0, s') ∧
      s'.printed = text "a:" ++ cutLine ++ text "\n" := by
  have hFound : readDentryByName (textImage cutText) (text ".") =
      some { fname := [0x2e], ftype := 1, inodeNum := 0 } := by
    rw [show text "." = [0x2e] by decide]
    decide +kernel
  have hLength : getInodeLen (textImage cutText) 0 = 1500 := by decide +kernel
  have hFile : Searchable (textImage cutText) [0x61] ⟨[0x61], 2, 0⟩ := by
    constructor
    · decide +kernel
    · exact Or.inr rfl
    · intro _
      refine ⟨by decide +kernel, by decide +kernel, by decide +kernel, by decide +kernel, ?_⟩
      intro k hk
      rw [hLength] at hk
      simp only [blockSize] at hk
      obtain rfl : k = 0 := by omega
      decide +kernel
    · intro _
      decide +kernel
    · intro _
      exact textImage_plain
  have hNames : listing (textImage cutText) (freshFiles 2).pos = [[0x2e], [0x61]] := by
    decide +kernel
  obtain ⟨s', hRun, hPrinted⟩ := grep_prints (show [0x78, 0x79, 0x7a] ≠ [] by decide)
    (by decide) (fun _ _ => 0) (fun _ => by decide) (by decide +kernel) hFound rfl
    (s := ⟨freshFiles, []⟩) (by decide) (show getFreeFd freshFiles = some 2 by decide)
    ⟨3, by decide⟩
    (by
      intro name hMem hVisible
      rw [hNames] at hMem
      rcases List.mem_cons.1 hMem with h | h
      · rw [h] at hVisible
        exact absurd hVisible (by decide)
      · rw [List.mem_singleton.1 h]
        exact ⟨_, hFile⟩)
    (fun _ => 0) (n := 2 ^ 22 + 1) (by decide)
  refine ⟨s', hRun, hPrinted.trans ?_⟩
  have hVisible : [[0x2e], [0x61]].filter visible = [[0x61]] := by decide
  have hBeside : ∀ l : List Byte, 0x78 ∉ l →
      ¬ (Findable [0x78, 0x79, 0x7a] ∧ [0x78, 0x79, 0x7a] <:+: l) :=
    fun l hNone hFound => hNone (hFound.2.subset List.mem_cons_self)
  have hThere : Findable [0x78, 0x79, 0x7a] ∧ [0x78, 0x79, 0x7a] <:+: cutLine :=
    ⟨by decide, List.replicate 322 0x61, List.replicate 374 0x61, rfl⟩
  have hWhole : cutLine.takeWhile (· ≠ 0#8) = cutLine :=
    List.takeWhile_eq_self_iff.2 fun c hc => decide_eq_true (cutLine_chars c hc)
  rw [hNames, hVisible, List.flatMap_singleton, grepFile_eq hFile, if_pos rfl,
    textImage_delivered, grepText_line _ (by decide +kernel),
    grepText_line _ (by decide +kernel), grepText_last (by decide +kernel), grepLine,
    grepLine, grepLine, if_neg (hBeside _ (by decide +kernel)), if_pos hThere,
    if_neg (hBeside _ (by decide +kernel)), hWhole]
  simp [text]

end Lines

end CompE.Userland
