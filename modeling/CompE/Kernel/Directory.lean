import CompE.Library.Unwinding
import CompE.Kernel.Descriptors

/-!
# Reading a directory

A descriptor of a directory keeps the index of the next entry in `pos`.
`dir_open` does not set it: it is what the last user of the descriptor has
left.  `dir_read` and `read_dentry_by_index` both compare the index with the
number of entries by `>`, so the 64 bytes behind the last entry are read as
one more.

`shown` is what a read finds at an index; a run of reads shows `pos`,
`pos + 1`, and so on, and the enumeration is right exactly when this happens
to be the entries in order (`directory_enumeration`).
-/

namespace CompE.Kernel

open CompE.Library

/-! ## Names -/

/-- The name of directory entry `i`: 32 characters, or up to a zero. -/
def entryName (fs : FileSys) (i : Nat) : CString :=
  cstringOf (fun k => fs.byteAt (dentryAddr fs i + k)) maxFnameSize

theorem cstringOf_length (s : Nat → Byte) (n : Nat) :
    (cstringOf s n).length ≤ n := by
  have hSub := (List.takeWhile_sublist (· ≠ 0#8)
    (l := (List.range n).map s)).length_le
  simpa [cstringOf] using hSub

/-- A name in an entry has no zero in it. -/
theorem entryName_chars (fs : FileSys) (i : Nat) :
    ∀ c ∈ entryName fs i, c ≠ 0#8 := by
  intro c hc
  have hAll : ∀ c ∈ entryName fs i, decide (c ≠ 0#8) = true :=
    List.all_eq_true.1 List.all_takeWhile
  exact of_decide_eq_true (hAll c hc)

theorem cstringOf_congr {s s' : Nat → Byte} {n : Nat}
    (h : ∀ i, i < n → s i = s' i) : cstringOf s n = cstringOf s' n := by
  unfold cstringOf
  congr 1
  apply List.map_congr_left
  intro i hi
  exact h i (List.mem_range.1 hi)

/-- The first `n` characters of a short string are the string and zeros. -/
theorem map_charAt {s : CString} {n : Nat} (h : s.length ≤ n) :
    (List.range n).map (charAt s) = s ++ List.replicate (n - s.length) 0#8 := by
  apply List.ext_getElem
  · simp
    omega
  · intro i h1 h2
    simp only [List.getElem_map, List.getElem_range, charAt,
      List.getElem_append, List.getElem_replicate]
    split
    · rename_i hi
      simp [hi]
    · rename_i hi
      simp [Nat.le_of_not_lt hi]

/-- Reading a string back gives the same string. -/
theorem cstringOf_of_string {s : CString} {n : Nat} (hLength : s.length ≤ n)
    (hChars : ∀ c ∈ s, (decide (c ≠ 0#8)) = true) :
    cstringOf (charAt s) n = s := by
  unfold cstringOf
  rw [map_charAt hLength, List.takeWhile_append_of_pos hChars]
  simp

private theorem cstringOf_charAt (f : Nat → Byte) (n : Nat) :
    cstringOf (charAt (cstringOf f n)) n = cstringOf f n :=
  cstringOf_of_string (cstringOf_length f n)
    (List.all_eq_true.1 List.all_takeWhile)

/-- The entry at an index that the lookup takes. -/
theorem readDentryByIndex_eq {fs : FileSys} {i : Nat}
    (h : i ≤ getNumDirEntries fs) :
    readDentryByIndex fs i =
      some { fname := entryName fs i
             ftype := fs.wordAt (dentryAddr fs i + 32)
             inodeNum := fs.wordAt (dentryAddr fs i + 36) } := by
  unfold readDentryByIndex
  rw [if_neg (Nat.not_lt.2 h)]
  rfl

/-- A copy of the name field has the characters of the name. -/
theorem strncpy_entryName (fs : FileSys) (i : Nat) (buf : Buffer) {j : Nat}
    (hj : j < 32) :
    strncpy buf (charAt (entryName fs i)) 32 j = charAt (entryName fs i) j := by
  unfold strncpy
  rw [if_pos hj]
  exact congrArg (charAt · j) (cstringOf_charAt _ _)

/-- The length of a name that is read back from its field. -/
theorem strlen_entryName {fs : FileSys} {i : Nat} {test : Nat → Byte}
    (h : ∀ j, j < 32 → test j = charAt (entryName fs i) j) :
    strlen test 32 = (entryName fs i).length := by
  unfold strlen
  rw [cstringOf_congr h]
  exact congrArg List.length (cstringOf_charAt _ _)

/-! ## One read -/

/-- What a read finds at an index. -/
def shown (fs : FileSys) (i : Nat) : CString :=
  if i ≤ getNumDirEntries fs then entryName fs i else []

/-- A read of 32 bytes gives the name at the descriptor's position, which
moves on as long as there is an entry. -/
theorem dirRead_spec (fs : FileSys) (files : FileArray) (fd : Nat)
    (buf : Buffer) :
    (dirRead fs files fd buf 32).1 = (shown fs (files fd).pos).length ∧
    (List.range (dirRead fs files fd buf 32).1).map
      (dirRead fs files fd buf 32).2.1 = shown fs (files fd).pos ∧
    (dirRead fs files fd buf 32).2.2 = Function.update files fd
      { files fd with
        pos :=
          if (files fd).pos ≤ getNumDirEntries fs then u32 ((files fd).pos + 1)
          else (files fd).pos } := by
  by_cases hIndex : (files fd).pos ≤ getNumDirEntries fs
  · have hEntry := readDentryByIndex_eq hIndex
    have hShown : shown fs (files fd).pos = entryName fs (files fd).pos :=
      if_pos hIndex
    have hLength : (entryName fs (files fd).pos).length ≤ 32 :=
      cstringOf_length _ _
    unfold dirRead
    simp only [if_neg (Nat.not_lt.2 hIndex), hEntry, if_pos hIndex, hShown]
    generalize hTest : (if strncpy buf (charAt (entryName fs (files fd).pos)) 32
        32 ≠ 0#8 then
          Function.update (strncpy buf (charAt (entryName fs (files fd).pos)) 32)
            32 0#8
        else strncpy buf (charAt (entryName fs (files fd).pos)) 32) = test
    have hChars : ∀ i, i < 32 → test i = charAt (entryName fs (files fd).pos) i := by
      intro i hi
      have hCopied := strncpy_entryName fs (files fd).pos buf hi
      rw [← hTest]
      split
      · rw [Function.update_of_ne (Nat.ne_of_lt hi), hCopied]
      · exact hCopied
    have hStrlen := strlen_entryName hChars
    refine ⟨hStrlen, ?_, trivial⟩
    rw [hStrlen]
    apply List.ext_getElem
    · simp
    · intro i h1 h2
      simp only [List.getElem_map, List.getElem_range]
      rw [hChars i (by omega)]
      simp [charAt, h2]
  · have hEnd : dirRead fs files fd buf 32 = (0, buf, files) := by
      unfold dirRead
      rw [if_pos (Nat.lt_of_not_le hIndex)]
    have hShown : shown fs (files fd).pos = [] := if_neg hIndex
    rw [hEnd, hShown, if_neg hIndex]
    exact ⟨rfl, rfl, (Function.update_eq_self fd files).symm⟩

/-! ## A run of reads -/

/-- A read gave back a name. -/
structure Returns (r : CallResult) (name : CString) : Prop where
  ret : r.ret = name.length
  bytes : ∃ buf, r.buf = some buf ∧ (List.range name.length).map buf = name

theorem Returns.unique {r : CallResult} {name name' : CString}
    (h : Returns r name) (h' : Returns r name') : name = name' := by
  obtain ⟨buf, hBuf, hBytes⟩ := h.bytes
  obtain ⟨buf', hBuf', hBytes'⟩ := h'.bytes
  have hLength : name.length = name'.length := by
    have hRet := h.ret.symm.trans h'.ret
    omega
  have hSame : buf = buf' := Option.some.inj (hBuf.symm.trans hBuf')
  rw [← hBytes, ← hBytes', hLength, hSame]

/-- A read of descriptor `fd`. -/
def readOf (fd : Nat) (c : FileCall) : Option FileCall :=
  match c with
  | .read fd' _ _ _ => if fd'.val = fd then some c else none
  | _ => none

/-- The results of the reads of descriptor `fd` in a run. -/
def resultsOf (fs : FileSys) (fd : Nat) (s : Table) (calls : List FileCall) :
    List CallResult :=
  (descriptorMachine fs).viewEvents (fun _ => readOf fd) s calls

/-- A call that does not close `fd`, and reads 32 bytes if it reads `fd`. -/
def ReadsDirectory (fd : Nat) : FileCall → Prop
  | .close fd' => fd'.val ≠ fd
  | .read fd' _ nbytes _ => fd'.val = fd → nbytes = 32
  | _ => True

/-- A descriptor of a directory. -/
structure IsDirectory (s : Table) (fd : Nat) : Prop where
  inUse : (s.files fd).inUse = true
  optbl : (s.files fd).optbl = .dir

section Reads

variable {fs : FileSys} {s : Table} {fd : Nat}

/-- A read of the directory. -/
theorem IsDirectory.read (fs : FileSys) (h : IsDirectory s fd) {fd' : Fin 8}
    (hFd : fd'.val = fd) (buf : Buffer) (line : Line) :
    (∃ r, (descriptorMachine fs).emit s (.read fd' buf 32 line) = [r] ∧
      Returns r (shown fs (s.files fd).pos)) ∧
    ((descriptorMachine fs).step s (.read fd' buf 32 line)).files fd =
      { s.files fd with
        pos :=
          if (s.files fd).pos ≤ getNumDirEntries fs then
            u32 ((s.files fd).pos + 1)
          else (s.files fd).pos } := by
  subst hFd
  obtain ⟨hCount, hBytes, hFiles⟩ := dirRead_spec fs s.files fd' buf
  have hRun : FileCall.run fs (.read fd' buf 32 line) s.files =
      some (⟨(dirRead fs s.files fd' buf 32).1,
        some (dirRead fs s.files fd' buf 32).2.1⟩,
        (dirRead fs s.files fd' buf 32).2.2) := by
    simp only [FileCall.run, sysRead, h.inUse, h.optbl, FileOps.read]
    rfl
  constructor
  · refine ⟨⟨(dirRead fs s.files fd' buf 32).1,
      some (dirRead fs s.files fd' buf 32).2.1⟩, ?_, ?_⟩
    · show ((FileCall.run fs _ s.files).map Prod.fst).toList = _
      rw [hRun]
      rfl
    · exact
        { ret := congrArg Nat.cast hCount
          bytes := ⟨_, rfl, by rw [← hCount]; exact hBytes⟩ }
  · show (Table.step fs s _).files fd' = _
    unfold Table.step
    rw [hRun]
    simp only [hFiles, Function.update_self]

/-- Any other call but a `close`. -/
theorem IsDirectory.other (fs : FileSys) (h : IsDirectory s fd) {c : FileCall}
    (hOk : ReadsDirectory fd c) (hOther : readOf fd c = none) :
    ((descriptorMachine fs).step s c).files fd = s.files fd := by
  show (Table.step fs s c).files fd = _
  unfold Table.step
  cases hRun : c.run fs s.files with
  | none => rfl
  | some r =>
      cases c with
      | openFile filename =>
          refine FileCall.run_other hRun ?_
          rcases sysOpen_spec fs filename s.files with
            ⟨_, hSame⟩ | ⟨d, ops, fd', hOpens, hOpen⟩
          · simp [FileCall.target, hSame]
          · have hFree := (getFreeFd_some hOpens.free).2.2.1
            simp only [FileCall.target, hOpen, Int.toNat_natCast]
            rw [if_neg (by omega)]
            intro hEq
            rw [Option.some.inj hEq, h.inUse] at hFree
            contradiction
      | close fd' =>
          refine FileCall.run_other hRun ?_
          exact fun hEq => hOk (Option.some.inj hEq)
      | read fd' buf nbytes line =>
          refine FileCall.run_other hRun ?_
          intro hEq
          simp only [readOf, if_pos (Option.some.inj hEq)] at hOther
          contradiction
      | write fd' buf nbytes =>
          obtain ⟨ret, _, hPair⟩ := Option.map_eq_some_iff.1 hRun
          rw [← hPair]

/-- The reads show one entry after the other, from the position on. -/
theorem IsDirectory.resultsOf_shown (hEntries : getNumDirEntries fs ≤ 63) :
    ∀ (calls : List FileCall) (s : Table), IsDirectory s fd →
      (∀ c ∈ calls, ReadsDirectory fd c) →
      ∀ k r, (resultsOf fs fd s calls)[k]? = some r →
        Returns r (shown fs ((s.files fd).pos + k)) := by
  intro calls
  induction calls with
  | nil => intro s _ _ k r hr; simp [resultsOf, Machine.viewEvents] at hr
  | cons c calls ih =>
      intro s h hCalls k r hr
      have hRest := fun c hc => hCalls c (List.mem_cons_of_mem _ hc)
      have hOk := hCalls c (List.mem_cons_self ..)
      unfold resultsOf Machine.viewEvents at hr
      cases hView : readOf fd c with
      | none =>
          simp only [hView] at hr
          have hSame := h.other fs hOk hView
          have hNext := ih ((descriptorMachine fs).step s c)
            ⟨by rw [hSame]; exact h.inUse, by rw [hSame]; exact h.optbl⟩ hRest k r hr
          rwa [hSame] at hNext
      | some c' =>
          simp only [hView] at hr
          cases c with
          | openFile | close | write => simp [readOf] at hView
          | read fd' buf nbytes line =>
              have hFd : fd'.val = fd := by
                simp only [readOf] at hView
                split at hView
                · assumption
                · contradiction
              have h32 : nbytes = 32 := hOk hFd
              subst h32
              obtain ⟨⟨r0, hEmit, hFirst⟩, hStep⟩ := h.read fs hFd buf line
              rw [hEmit] at hr
              cases k with
              | zero =>
                  rw [List.singleton_append, List.getElem?_cons_zero] at hr
                  rw [← Option.some.inj hr]
                  exact hFirst
              | succ k =>
                  rw [List.singleton_append, List.getElem?_cons_succ] at hr
                  have hNext := ih _
                    ⟨by rw [hStep]; exact h.inUse, by rw [hStep]; exact h.optbl⟩
                    hRest k r hr
                  rw [hStep] at hNext
                  by_cases hIndex : (s.files fd).pos ≤ getNumDirEntries fs
                  · simp only [if_pos hIndex] at hNext
                    rw [u32_of_lt (by omega)] at hNext
                    rwa [Nat.add_assoc, Nat.add_comm 1 k] at hNext
                  · simp only [if_neg hIndex] at hNext
                    have hEmpty : ∀ j, shown fs ((s.files fd).pos + j) = [] :=
                      fun j => if_neg (by omega)
                    rw [hEmpty] at hNext ⊢
                    exact hNext

/-- As many results as reads. -/
theorem IsDirectory.resultsOf_length (fs : FileSys) (fd' : Fin 8)
    (hFd : fd'.val = fd)
    (buf : Buffer) (line : Line) :
    ∀ (m : Nat) (s : Table), IsDirectory s fd →
      (resultsOf fs fd s
        (List.replicate m (.read fd' buf 32 line))).length = m := by
  intro m
  induction m with
  | zero => intro s _; rfl
  | succ m ih =>
      intro s h
      obtain ⟨⟨r, hEmit, _⟩, hStep⟩ := h.read fs hFd buf line
      have hNext := ih ((descriptorMachine fs).step s (.read fd' buf 32 line))
        ⟨by rw [hStep]; exact h.inUse, by rw [hStep]; exact h.optbl⟩
      unfold resultsOf at hNext ⊢
      simp only [List.replicate_succ, Machine.viewEvents, readOf, if_pos hFd,
        hEmit, List.singleton_append, List.length_cons]
      rw [hNext]

end Reads

/-! ## Enumeration -/

/-- A directory of `n` entries, none of which is without a name. -/
structure DirectoryImage (fs : FileSys) (n : Nat) : Prop where
  count : getNumDirEntries fs = n
  pos : 0 < n
  le : n ≤ 63
  named : ∀ i, i < n → entryName fs i ≠ []

/-- The first `n` reads give the names in order, the others nothing. -/
def Enumerates (fs : FileSys) (n : Nat) (results : List CallResult) : Prop :=
  ∀ k r, results[k]? = some r →
    Returns r (if k < n then entryName fs k else [])

/-- From position `pos` on the entries are shown in order, then nothing. -/
def InOrder (fs : FileSys) (n pos : Nat) : Prop :=
  (pos = 0 ∧ entryName fs n = []) ∨
    (pos = 1 ∧ ∀ i, i < n → entryName fs (i + 1) = entryName fs i)

theorem DirectoryImage.inOrder_iff {fs : FileSys} {n : Nat}
    (hImage : DirectoryImage fs n) (pos : Nat) :
    (∀ k, shown fs (pos + k) = if k < n then entryName fs k else []) ↔
      InOrder fs n pos := by
  have hCount := hImage.count
  have hPos := hImage.pos
  unfold shown InOrder
  rw [hCount]
  constructor
  · intro h
    have hLast := h (n - 1)
    rw [if_pos (show n - 1 < n by omega)] at hLast
    have hNamed := hImage.named (n - 1) (by omega)
    have hSmall : pos + (n - 1) ≤ n := by
      cases Nat.lt_or_ge n (pos + (n - 1)) with
      | inl hPast =>
          rw [if_neg (by omega)] at hLast
          exact absurd hLast.symm hNamed
      | inr hIn => exact hIn
    have hCases : pos = 0 ∨ pos = 1 := by omega
    rcases hCases with hZero | hOne
    · have hBehind := h n
      rw [hZero, if_pos (by omega), if_neg (by omega), Nat.zero_add] at hBehind
      exact Or.inl ⟨hZero, hBehind⟩
    · refine Or.inr ⟨hOne, ?_⟩
      intro i hi
      have hEntry := h i
      rwa [hOne, if_pos (by omega), if_pos hi, Nat.add_comm 1 i] at hEntry
  · rintro (⟨hZero, hBehind⟩ | ⟨hOne, hSame⟩) k
    · subst hZero
      rw [Nat.zero_add]
      by_cases hk : k < n
      · rw [if_pos (by omega), if_pos hk]
      · rw [if_neg hk]
        split
        · rw [show k = n by omega]
          exact hBehind
        · rfl
    · subst hOne
      by_cases hk : k < n
      · rw [if_pos (by omega), if_pos hk, Nat.add_comm 1 k]
        exact hSame k hk
      · rw [if_neg (by omega), if_neg hk]

/-- What a descriptor that `open` gives for a directory enumerates. -/
theorem DirectoryImage.enumerates_iff {fs : FileSys} {n : Nat}
    (hImage : DirectoryImage fs n) {dirname : CString} {d : Dentry}
    (hFound : readDentryByName fs dirname = some d) (hDir : d.ftype = 1)
    (s : Table) {fd : Nat}
    (hOpen : (sysOpen fs (some dirname) s.files).1 = fd) :
    (∀ calls, (∀ c ∈ calls, ReadsDirectory fd c) →
      Enumerates fs n (resultsOf fs fd
        ((descriptorMachine fs).step s (.openFile (some dirname))) calls)) ↔
    InOrder fs n (s.files fd).pos := by
  rcases sysOpen_spec fs (some dirname) s.files with
    ⟨_, hSame⟩ | ⟨d', ops, fd', hOpens, hOpened⟩
  · rw [hSame] at hOpen
    simp only at hOpen
    omega
  have hFd : fd' = fd := by
    rw [hOpened] at hOpen
    exact Int.ofNat.inj hOpen
  subst hFd
  have hEntry : d' = d := by
    have hFound' := hOpens.found
    rw [Option.bind_some, hFound] at hFound'
    exact (Option.some.inj hFound').symm
  subst hEntry
  have hOps : ops = .dir := by
    have hType := hOpens.type
    rw [hDir] at hType
    exact (Option.some.inj hType).symm
  subst hOps
  have hAfter : ((descriptorMachine fs).step s
      (.openFile (some dirname))).files fd' =
        { optbl := .dir, inode := (s.files fd').inode, pos := (s.files fd').pos
          inUse := true } := by
    show (Table.step fs s (.openFile (some dirname))).files fd' = _
    simp only [Table.step, FileCall.run, hOpened, Function.update_self]
    rfl
  have hIs : IsDirectory ((descriptorMachine fs).step s
      (.openFile (some dirname))) fd' :=
    ⟨by rw [hAfter], by rw [hAfter]⟩
  have hEntries : getNumDirEntries fs ≤ 63 := hImage.count ▸ hImage.le
  have hShown := fun calls hCalls =>
    IsDirectory.resultsOf_shown hEntries calls _ hIs hCalls
  rw [hAfter] at hShown
  rw [← hImage.inOrder_iff]
  constructor
  · intro hAll k
    have hFd := getFreeFd_some hOpens.free
    have hReads : ∀ c ∈ List.replicate (k + 1)
        (FileCall.read ⟨fd', hFd.2.1⟩ (fun _ => 0#8) 32 ⟨fun _ => 0#8, 0⟩),
        ReadsDirectory fd' c := by
      intro c hc
      rw [List.eq_of_mem_replicate hc]
      exact fun _ => rfl
    have hLength := IsDirectory.resultsOf_length fs
      ⟨fd', hFd.2.1⟩ rfl (fun _ => 0#8) ⟨fun _ => 0#8, 0⟩ (k + 1) _ hIs
    have hIn := Nat.lt_add_one k
    rw [← hLength] at hIn
    have hSome := List.getElem?_eq_getElem hIn
    exact (hShown _ hReads k _ hSome).unique (hAll _ hReads k _ hSome)
  · intro hSame calls hCalls k r hr
    rw [← hSame k]
    exact hShown calls hCalls k r hr

/--
**Directory enumeration.**  After any history of calls, a descriptor that
`open` gives for a directory enumerates it, in any run of 32-byte reads
between any other calls, exactly when the descriptor's last user left the
position 0 and what is behind the last entry does not have a name (or when the
position is 1 and all names are the same).
-/
theorem directory_enumeration {fs : FileSys} {n : Nat}
    (hImage : DirectoryImage fs n) (files : FileArray)
    (history : List FileCall) {dirname : CString} {d : Dentry}
    (hFound : readDentryByName fs dirname = some d) (hDir : d.ftype = 1)
    {fd : Nat}
    (hOpen : (sysOpen fs (some dirname) ((descriptorMachine fs).run
      ⟨files, fun _ => none⟩ history).files).1 = fd) :
    (∀ calls, (∀ c ∈ calls, ReadsDirectory fd c) →
      Enumerates fs n (resultsOf fs fd
        ((descriptorMachine fs).step
          ((descriptorMachine fs).run ⟨files, fun _ => none⟩ history)
          (.openFile (some dirname))) calls)) ↔
    InOrder fs n (((descriptorMachine fs).run
      ⟨files, fun _ => none⟩ history).files fd).pos :=
  hImage.enumerates_iff hFound hDir _ hOpen

/-! ### Two histories -/

/-- An image with a directory `"."` and a file `"a"`, inode 0, of one byte. -/
def dotImage : FileSys where
  filesysAddr := 0x500000
  memory := fun addr =>
    match addr - 0x500000 with
    | 0 => 2
    | 4 => 1
    | 8 => 1
    | 64 => 0x2e
    | 96 => 1
    | 128 => 0x61
    | 160 => 2
    | 4096 => 1
    | 8192 => 0x78
    | _ => 0

theorem dotImage_directory : DirectoryImage dotImage 2 where
  count := by decide +kernel
  pos := by decide
  le := by decide
  named := by
    intro i hi
    have hCases : i = 0 ∨ i = 1 := by omega
    rcases hCases with h | h
    · subst h; decide +kernel
    · subst h; decide +kernel

theorem dotImage_found : readDentryByName dotImage [0x2e#8] =
    some { fname := [0x2e#8], ftype := 1, inodeNum := 0 } := by
  decide +kernel

/-- In a new process the directory is enumerated. -/
theorem directory_enumeration_fresh :
    Enumerates dotImage 2 (resultsOf dotImage 2
      ((descriptorMachine dotImage).step ⟨freshFiles, fun _ => none⟩
        (.openFile (some [0x2e#8])))
      (List.replicate 3
        (.read 2 (fun _ => 0#8) 32 ⟨fun _ => 0#8, 0⟩))) := by
  refine (directory_enumeration dotImage_directory freshFiles []
    dotImage_found rfl (by decide +kernel)).2 ?_ _ ?_
  · exact Or.inl ⟨rfl, by decide +kernel⟩
  · intro c hc
    rw [List.eq_of_mem_replicate hc]
    exact fun _ => rfl

/-- The descriptors after one byte of the file was read, the file closed, and
the directory opened. -/
def reusedTable : Table :=
  (descriptorMachine dotImage).run ⟨freshFiles, fun _ => none⟩
    [.openFile (some [0x61#8]), .read 2 (fun _ => 0#8) 1 ⟨fun _ => 0#8, 0⟩,
      .close 2, .openFile (some [0x2e#8])]

/-- The first read of the directory gives its second entry. -/
theorem staleDirectory_skips :
    DirectoryImage dotImage 2 ∧ entryName dotImage 0 = [0x2e#8] ∧
    (∃ r, (resultsOf dotImage 2 reusedTable (List.replicate 3
        (.read 2 (fun _ => 0#8) 32 ⟨fun _ => 0#8, 0⟩)))[0]? = some r ∧
      Returns r [0x61#8]) ∧
    ¬ Enumerates dotImage 2 (resultsOf dotImage 2 reusedTable (List.replicate 3
      (.read 2 (fun _ => 0#8) 32 ⟨fun _ => 0#8, 0⟩))) := by
  have hIs : IsDirectory reusedTable 2 := ⟨by decide +kernel, by decide +kernel⟩
  have hPos : (reusedTable.files 2).pos = 1 := by decide +kernel
  obtain ⟨⟨r, hEmit, hFirst⟩, _⟩ := hIs.read dotImage
    (show ((2 : Fin 8) : Nat) = 2 from rfl) (fun _ => 0#8) ⟨fun _ => 0#8, 0⟩
  rw [hPos, show shown dotImage 1 = [0x61#8] by decide +kernel] at hFirst
  have hHead : (resultsOf dotImage 2 reusedTable (List.replicate 3
      (.read 2 (fun _ => 0#8) 32 ⟨fun _ => 0#8, 0⟩)))[0]? = some r := by
    unfold resultsOf
    simp only [List.replicate_succ, Machine.viewEvents, hEmit]
    rfl
  have hName : entryName dotImage 0 = [0x2e#8] := by decide +kernel
  refine ⟨dotImage_directory, hName, ⟨r, hHead, hFirst⟩, ?_⟩
  intro hAll
  have hZero := hAll 0 r hHead
  rw [if_pos (by decide), hName] at hZero
  exact absurd (hFirst.unique hZero) (by decide)

end CompE.Kernel
