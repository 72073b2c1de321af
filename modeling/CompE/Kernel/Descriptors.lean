import CompE.Library.Machine
import CompE.Kernel.FileRead

/-!
# The descriptor table under `open`, `close`, `read` and `write`

`open` dispatches on the type of the directory entry, the other three on the
operation table that the descriptor points to.  The three kinds of open write
different fields of a free descriptor, and only `file_open` writes all of
them: the inode and the position that a directory or the RTC gets are those of
the last user of the descriptor.

What a call does to the table is said once, in `sysOpen_spec` and
`FileCall.run_entry`; the invariant over whole runs is proved from these.
-/

namespace CompE.Kernel

open CompE.Library

/-! ## Strings -/

/-- The C string in the first `n` characters of an array. -/
def cstringOf (s : Nat → Byte) (n : Nat) : CString :=
  ((List.range n).map s).takeWhile (· ≠ 0#8)

/-- `strncpy`: what is left of the `n` characters is filled with zeros. -/
def strncpy (dest : Buffer) (src : Nat → Byte) (n : Nat) : Buffer := fun i =>
  if i < n then charAt (cstringOf src n) i else dest i

/-- `strlen` of a string with a zero at index `n`. -/
def strlen (s : Buffer) (n : Nat) : Nat := (cstringOf s n).length

/-! ## `open` -/

/-- `rtc_open`. -/
def rtcOpen (files : FileArray) : Option (Nat × FileArray) :=
  match getFreeFd files with
  | none => none
  | some fdnum =>
      some (fdnum, Function.update files fdnum
        { files fdnum with inUse := true, optbl := .rtc })

/-- `dir_open`.  Neither the inode nor the position is written. -/
def dirOpen (fs : FileSys) (files : FileArray) (dirname : CString) :
    Option (Nat × FileArray) :=
  match readDentryByName fs dirname with
  | none => none
  | some _ =>
      match getFreeFd files with
      | none => none
      | some fdnum =>
          some (fdnum, Function.update files fdnum
            { files fdnum with inUse := true, optbl := .dir })

/-- The `switch` of `open`; -1 for a type that it does not know. -/
def openByType (fs : FileSys) (ftype : Nat) (filename : CString)
    (files : FileArray) : Option (Nat × FileArray) :=
  match ftype with
  | 0 => rtcOpen files
  | 1 => dirOpen fs files filename
  | 2 => fileOpen fs files filename
  | _ => none

/-- `open`; `none` for the NULL pointer. -/
def sysOpen (fs : FileSys) (filename : Option CString) (files : FileArray) :
    Int × FileArray :=
  match filename with
  | none => (-1, files)
  | some filename =>
      match readDentryByName fs filename with
      | none => (-1, files)
      | some curDentry =>
          match openByType fs curDentry.ftype filename files with
          | none => (-1, files)
          | some (fd, files) => (fd, files)

/-! ## `close` -/

/-- `file_close`. -/
def fileClose (fd : Nat) (files : FileArray) : Int × FileArray :=
  if fd = 0 ∨ fd = 1 ∨ fd > 7 then (-1, files)
  else (0, Function.update files fd { files fd with inUse := false })

/-- `dir_close`. -/
def dirClose (fd : Nat) : Int := if fd = 0 ∨ fd = 1 ∨ fd > 7 then -1 else 0

/-- `rtc_close`. -/
def rtcClose (_fd : Nat) : Int := 0

/-- `console_close`. -/
def consoleClose (_fd : Nat) : Int := -1

/-- `(optbl->close)(fd)`; `none` for a call through NULL. -/
def FileOps.close (optbl : FileOps) (fd : Nat) (files : FileArray) :
    Option (Int × FileArray) :=
  match optbl with
  | .null => none
  | .stdio => some (consoleClose fd, files)
  | .regfile => some (fileClose fd files)
  | .dir => some (dirClose fd, files)
  | .rtc => some (rtcClose fd, files)

/-- `close`. -/
def sysClose (fd : Nat) (files : FileArray) : Option (Int × FileArray) :=
  if (files fd).inUse = false then some (-1, files)
  else
    match (files fd).optbl.close fd files with
    | none => none
    | some (retval, files) =>
        if retval = -1 then some (-1, files)
        else some (0, Function.update files fd { files fd with inUse := false })

/-! ## `read` -/

/-- `read_dentry_by_index`; `none` for the return value -1.  The index is
compared with `>`: the entry behind the last one passes. -/
def readDentryByIndex (fs : FileSys) (idx : Nat) : Option Dentry :=
  if idx > getNumDirEntries fs then none
  else
    let temp := dentryAddr fs idx
    some { fname := cstringOf (fun k => fs.byteAt (temp + k)) maxFnameSize
           ftype := fs.wordAt (temp + 32)
           inodeNum := fs.wordAt (temp + 36) }

/-- `dir_read`: the return value, the buffer and the descriptors. -/
def dirRead (fs : FileSys) (files : FileArray) (fd : Nat) (buf : Buffer)
    (nbytes : Nat) : Nat × Buffer × FileArray :=
  let fdptr := files fd
  if getNumDirEntries fs < fdptr.pos then (0, buf, files)
  else
    match readDentryByIndex fs fdptr.pos with
    | none => (0, buf, files)
    | some garbage =>
        let copied := strncpy buf (charAt garbage.fname) 32
        let test :=
          if copied nbytes ≠ 0#8 then Function.update copied nbytes 0#8
          else copied
        (strlen test nbytes, test,
          Function.update files fd { fdptr with pos := u32 (fdptr.pos + 1) })

/-- What the keyboard leaves when `console_readline` waits for a line: `kbuf`
and the return value. -/
structure Line where
  kbuf : Buffer
  next : Nat

/-- `console_readline_w`.  A read of no bytes does not wait. -/
def consoleReadlineW (fd : Nat) (buf : Buffer) (nbytes : BitVec 32)
    (line : Line) : Int × Buffer :=
  if fd ≠ 0 then (-1, buf)
  else
    let line : Line := if nbytes = 0 then ⟨fun _ => 0#8, 0⟩ else line
    (line.next + 1, strncpy buf line.kbuf (line.next + 1))

/-- What a call gives back: `eax`, and the buffer if it is one for reading. -/
structure CallResult where
  ret : Int
  buf : Option Buffer

/-- `(optbl->read)(fd, buf, nbytes)`; `none` for a call through NULL. -/
def FileOps.read (fs : FileSys) (optbl : FileOps) (fd : Nat) (buf : Buffer)
    (nbytes : BitVec 32) (line : Line) (files : FileArray) :
    Option (CallResult × FileArray) :=
  match optbl with
  | .null => none
  | .stdio =>
      let r := consoleReadlineW fd buf nbytes line
      some (⟨r.1, some r.2⟩, files)
  | .regfile =>
      let r := fileRead fs files fd buf nbytes.toNat
      some (⟨r.1, some r.2.1⟩, r.2.2)
  | .dir =>
      let r := dirRead fs files fd buf nbytes.toNat
      some (⟨r.1, some r.2.1⟩, r.2.2)
  | .rtc => some (⟨0, some buf⟩, files)

/-- `read`. -/
def sysRead (fs : FileSys) (fd : Nat) (buf : Buffer) (nbytes : BitVec 32)
    (line : Line) (files : FileArray) : Option (CallResult × FileArray) :=
  if (files fd).inUse = false then some (⟨-1, some buf⟩, files)
  else (files fd).optbl.read fs fd buf nbytes line files

/-! ## `write` -/

/-- The frequencies that `rtc_set_frequency` accepts. -/
def rtcFrequencies : List (BitVec 32) :=
  [8192, 4096, 2048, 1024, 512, 256, 128, 64, 32, 16, 8, 4, 2]

/-- `*(int32_t*) buf`. -/
def targetFrequency (buf : Buffer) : BitVec 32 :=
  buf 3 ++ buf 2 ++ buf 1 ++ buf 0

/-- `rtc_write`; `none` for the NULL pointer. -/
def rtcWrite (buf : Option Buffer) (nbytes : BitVec 32) : Int :=
  match buf with
  | none => -1
  | some buf =>
      if nbytes ≠ 4 then -1
      else if targetFrequency buf ∈ rtcFrequencies then 4
      else -1

/-- `console_write_w`; `none` for the page fault that a NULL buffer gives. -/
def consoleWriteW (fd : Nat) (buf : Option Buffer) (nbytes : BitVec 32) :
    Option Int :=
  if fd ≠ 1 then some (-1)
  else if nbytes ≠ 0 ∧ buf.isNone then none
  else some nbytes.toInt

/-- `(optbl->write)(fd, buf, nbytes)`. -/
def FileOps.write (optbl : FileOps) (fd : Nat) (buf : Option Buffer)
    (nbytes : BitVec 32) : Option Int :=
  match optbl with
  | .null => none
  | .stdio => consoleWriteW fd buf nbytes
  | .regfile => some (-1)
  | .dir => some (-1)
  | .rtc => some (rtcWrite buf nbytes)

/-- `write`.  No kind of file writes to the table. -/
def sysWrite (fd : Nat) (buf : Option Buffer) (nbytes : BitVec 32)
    (files : FileArray) : Option Int :=
  if (files fd).inUse = false then some (-1)
  else (files fd).optbl.write fd buf nbytes

/-! ## Calls -/

/-- The descriptors of a process are numbered from zero. -/
scoped instance descriptors_neZero : NeZero 8 := ⟨by decide⟩

/-- A system call on files. -/
inductive FileCall where
  | openFile (filename : Option CString)
  | close (fd : Fin 8)
  | read (fd : Fin 8) (buf : Buffer) (nbytes : BitVec 32) (line : Line)
  | write (fd : Fin 8) (buf : Option Buffer) (nbytes : BitVec 32)

/-- The result and the descriptors; `none` when the call does not return. -/
def FileCall.run (fs : FileSys) : FileCall → FileArray →
    Option (CallResult × FileArray)
  | .openFile filename, files =>
      let r := sysOpen fs filename files
      some (⟨r.1, none⟩, r.2)
  | .close fd, files =>
      (sysClose fd files).map fun r => (⟨r.1, none⟩, r.2)
  | .read fd buf nbytes line, files => sysRead fs fd buf nbytes line files
  | .write fd buf nbytes, files =>
      (sysWrite fd buf nbytes files).map fun ret => (⟨ret, none⟩, files)

/-! ### The free descriptor -/

theorem getFreeFd_some {files : FileArray} {fd : Nat}
    (h : getFreeFd files = some fd) :
    2 ≤ fd ∧ fd < numFds ∧ (files fd).inUse = false ∧
      ∀ j, 2 ≤ j → j < fd → (files j).inUse = true := by
  unfold getFreeFd at h
  rw [List.find?_range'_eq_some] at h
  obtain ⟨hFree, hRange, hBelow⟩ := h
  rw [List.mem_range'_1] at hRange
  refine ⟨hRange.1, ?_, by simpa using hFree, ?_⟩
  · simp only [numFds] at hRange ⊢
    omega
  · intro j hLow hj
    simpa using hBelow j hLow hj

theorem getFreeFd_none {files : FileArray} :
    getFreeFd files = none ↔
      ∀ fd, 2 ≤ fd → fd < numFds → (files fd).inUse = true := by
  unfold getFreeFd
  rw [List.find?_range'_eq_none]
  constructor
  · intro h fd hLow hHigh
    have hUsed := h fd hLow (by simp only [numFds] at hHigh ⊢; omega)
    simpa using hUsed
  · intro h fd hLow hHigh
    have hUsed := h fd hLow (by simp only [numFds] at hHigh ⊢; omega)
    simpa using hUsed

/-! ### What an `open` does -/

/-- The operation table of a type of directory entry. -/
def fileOpsOf : Nat → Option FileOps
  | 0 => some .rtc
  | 1 => some .dir
  | 2 => some .regfile
  | _ => none

/-- A descriptor after an `open` on entry `d`, from what it was before. -/
def openedDesc (d : Dentry) (ops : FileOps) (old : FileDesc) : FileDesc :=
  if ops = .regfile then
    { optbl := ops, inode := d.inodeNum, pos := 0, inUse := true }
  else { old with optbl := ops, inUse := true }

private theorem openedDesc_inUse (d : Dentry) (ops : FileOps) (old : FileDesc) :
    (openedDesc d ops old).inUse = true := by
  unfold openedDesc
  split <;> rfl

theorem openedDesc_optbl (d : Dentry) (ops : FileOps) (old : FileDesc) :
    (openedDesc d ops old).optbl = ops := by
  unfold openedDesc
  split <;> rfl

/-- An `open` of an entry of a known type, when descriptor `fd` is free. -/
structure Opens (fs : FileSys) (filename : Option CString) (files : FileArray)
    (d : Dentry) (ops : FileOps) (fd : Nat) : Prop where
  found : filename.bind (readDentryByName fs) = some d
  type : fileOpsOf d.ftype = some ops
  free : getFreeFd files = some fd

/-- The three reasons why an `open` is refused. -/
structure Refused (fs : FileSys) (filename : Option CString)
    (files : FileArray) : Prop where
  reason : filename.bind (readDentryByName fs) = none ∨
    (∃ d, filename.bind (readDentryByName fs) = some d ∧
      fileOpsOf d.ftype = none) ∨
    ∀ fd, 2 ≤ fd → fd < numFds → (files fd).inUse = true

/-- The three kinds of open are one, but for the fields they write. -/
theorem openByType_eq {fs : FileSys} {fname : CString} {d : Dentry}
    (hFound : readDentryByName fs fname = some d) (files : FileArray) :
    openByType fs d.ftype fname files =
      (fileOpsOf d.ftype).bind fun ops =>
        (getFreeFd files).map fun fd =>
          (fd, Function.update files fd (openedDesc d ops (files fd))) := by
  unfold openByType
  split
  · rename_i hType
    rw [hType]
    unfold rtcOpen
    cases getFreeFd files <;> rfl
  · rename_i hType
    rw [hType]
    unfold dirOpen
    rw [hFound]
    cases getFreeFd files <;> rfl
  · rename_i hType
    rw [hType]
    unfold fileOpen
    rw [hFound]
    cases getFreeFd files <;> rfl
  · rename_i h0 h1 h2
    have hNone : fileOpsOf d.ftype = none := by
      unfold fileOpsOf
      split
      · exact absurd ‹_› h0
      · exact absurd ‹_› h1
      · exact absurd ‹_› h2
      · rfl
    rw [hNone]
    rfl

/-- `open` is refused and changes nothing, or takes the first free
descriptor. -/
theorem sysOpen_spec (fs : FileSys) (filename : Option CString)
    (files : FileArray) :
    (Refused fs filename files ∧ sysOpen fs filename files = (-1, files)) ∨
    ∃ (d : Dentry) (ops : FileOps) (fd : Nat),
      Opens fs filename files d ops fd ∧
      sysOpen fs filename files =
        ((fd : Int),
          Function.update files fd (openedDesc d ops (files fd))) := by
  unfold sysOpen
  cases filename with
  | none => exact Or.inl ⟨⟨Or.inl rfl⟩, rfl⟩
  | some fname =>
      cases hFound : readDentryByName fs fname with
      | none =>
          simp only [hFound]
          exact Or.inl ⟨⟨Or.inl hFound⟩, trivial⟩
      | some d =>
          simp only [hFound, openByType_eq hFound]
          cases hType : fileOpsOf d.ftype with
          | none => exact Or.inl ⟨⟨Or.inr (Or.inl ⟨d, hFound, hType⟩)⟩, rfl⟩
          | some ops =>
              cases hFree : getFreeFd files with
              | none =>
                  exact Or.inl ⟨⟨Or.inr (Or.inr (getFreeFd_none.1 hFree))⟩, rfl⟩
              | some fd =>
                  exact Or.inr ⟨d, ops, fd, ⟨hFound, hType, hFree⟩, rfl⟩

theorem Opens.not_refused {fs : FileSys} {filename : Option CString}
    {files : FileArray} {d : Dentry} {ops : FileOps} {fd : Nat}
    (h : Opens fs filename files d ops fd) : ¬ Refused fs filename files := by
  rintro ⟨hMissing | ⟨d', hFound, hType⟩ | hFull⟩
  · rw [h.found] at hMissing
    contradiction
  · rw [h.found] at hFound
    rw [← Option.some.inj hFound, h.type] at hType
    contradiction
  · have hNone := getFreeFd_none.2 hFull
    rw [h.free] at hNone
    contradiction

/-! ### What the other calls do -/

/-- An operation table that `open` can give. -/
theorem fileOpsOf_cases {ftype : Nat} {ops : FileOps}
    (h : fileOpsOf ftype = some ops) :
    ops = .rtc ∨ ops = .dir ∨ ops = .regfile := by
  unfold fileOpsOf at h
  split at h
  · exact Or.inl (Option.some.inj h).symm
  · exact Or.inr (Or.inl (Option.some.inj h).symm)
  · exact Or.inr (Or.inr (Option.some.inj h).symm)
  · contradiction

private theorem sysClose_not_inUse {files : FileArray} {fd : Nat}
    (hFree : (files fd).inUse = false) : sysClose fd files = some (-1, files) := by
  unfold sysClose
  rw [if_pos hFree]

private theorem sysClose_stdio {files : FileArray} {fd : Nat}
    (hOps : (files fd).optbl = .stdio) : sysClose fd files = some (-1, files) := by
  unfold sysClose
  split
  · rfl
  · rw [hOps]
    rfl

/-- Whatever `open` opened is closed by freeing its entry. -/
theorem sysClose_opened {files : FileArray} {fd ftype : Nat}
    (hLow : 2 ≤ fd) (hHigh : fd < numFds) (hUse : (files fd).inUse = true)
    (hOps : fileOpsOf ftype = some (files fd).optbl) :
    sysClose fd files =
      some (0, Function.update files fd { files fd with inUse := false }) := by
  have hRange : ¬ (fd = 0 ∨ fd = 1 ∨ fd > 7) := by
    simp only [numFds] at hHigh
    omega
  unfold sysClose
  rw [if_neg (by rw [hUse]; exact Bool.noConfusion)]
  rcases fileOpsOf_cases hOps with h | h | h
  · rw [h]
    rfl
  · rw [h]
    simp only [FileOps.close, dirClose, if_neg hRange]
    rfl
  · rw [h]
    simp only [FileOps.close, fileClose, if_neg hRange]
    simp

theorem FileOps.close_other {optbl : FileOps} {fd j : Nat}
    {files files' : FileArray} {ret : Int}
    (h : optbl.close fd files = some (ret, files')) (hNe : j ≠ fd) :
    files' j = files j := by
  cases optbl with
  | null => contradiction
  | regfile =>
      injection h with h
      unfold fileClose at h
      split at h
      · injection h with _ hFiles
        rw [← hFiles]
      · injection h with _ hFiles
        rw [← hFiles, Function.update_of_ne hNe]
  | stdio | dir | rtc =>
      injection h with h
      injection h with _ hFiles
      rw [← hFiles]

private theorem sysClose_other {fd j : Nat} {files : FileArray} {r : Int × FileArray}
    (h : sysClose fd files = some r) (hNe : j ≠ fd) : r.2 j = files j := by
  unfold sysClose at h
  split at h
  · rw [← Option.some.inj h]
  · split at h
    · contradiction
    · rename_i hClose
      have hKept := FileOps.close_other hClose hNe
      split at h
      · rw [← Option.some.inj h]
        exact hKept
      · rw [← Option.some.inj h]
        simp only [Function.update_of_ne hNe]
        exact hKept

/-- A read writes nothing but the position. -/
theorem sysRead_entry {fs : FileSys} {fd : Nat} {buf : Buffer}
    {nbytes : BitVec 32} {line : Line} {files files' : FileArray}
    {r : CallResult} (h : sysRead fs fd buf nbytes line files = some (r, files')) :
    ∃ pos, files' = Function.update files fd { files fd with pos := pos } := by
  have hSame : files = Function.update files fd
      { files fd with pos := (files fd).pos } :=
    (Function.update_eq_self fd files).symm
  unfold sysRead at h
  split at h
  · injection h with h
    injection h with _ hFiles
    exact ⟨_, hFiles.symm.trans hSame⟩
  · cases hOps : (files fd).optbl with
    | null =>
        rw [hOps] at h
        contradiction
    | stdio =>
        rw [hOps] at h
        injection h with h
        injection h with _ hFiles
        exact ⟨_, hFiles.symm.trans hSame⟩
    | rtc =>
        rw [hOps] at h
        injection h with h
        injection h with _ hFiles
        exact ⟨_, hFiles.symm.trans hSame⟩
    | regfile =>
        rw [hOps] at h
        injection h with h
        injection h with _ hFiles
        exact ⟨_, hFiles.symm⟩
    | dir =>
        rw [hOps] at h
        injection h with h
        injection h with _ hFiles
        simp only [dirRead] at hFiles
        split at hFiles
        · exact ⟨_, hFiles.symm.trans hSame⟩
        · split at hFiles
          · exact ⟨_, hFiles.symm.trans hSame⟩
          · exact ⟨_, hFiles.symm⟩

/-- The descriptor that a call is about; an `open` is about the one it
returns. -/
def FileCall.target (fs : FileSys) : FileCall → FileArray → Option Nat
  | .openFile filename, files =>
      let r := sysOpen fs filename files
      if r.1 = -1 then none else some r.1.toNat
  | .close fd, _ => some fd
  | .read fd _ _ _, _ => some fd
  | .write fd _ _, _ => some fd

/-- No call touches another descriptor than its own. -/
theorem FileCall.run_other {fs : FileSys} {c : FileCall}
    {files files' : FileArray} {r : CallResult} {j : Nat}
    (hRun : c.run fs files = some (r, files'))
    (hOther : c.target fs files ≠ some j) : files' j = files j := by
  cases c with
  | openFile filename =>
      injection hRun with hRun
      injection hRun with _ hFiles
      subst hFiles
      rcases sysOpen_spec fs filename files with
        ⟨_, hSame⟩ | ⟨d, ops, fd, _, hOpen⟩
      · rw [hSame]
      · have hNe : j ≠ fd := by
          intro hEq
          apply hOther
          simp only [FileCall.target, hOpen, hEq]
          rw [if_neg (by omega), Int.toNat_natCast]
        rw [hOpen]
        exact Function.update_of_ne hNe _ _
  | close fd =>
      have hNe : j ≠ fd.val := fun hEq => hOther (congrArg some hEq.symm)
      unfold FileCall.run at hRun
      obtain ⟨r', hClose, hPair⟩ := Option.map_eq_some_iff.1 hRun
      injection hPair with _ hFiles
      subst hFiles
      exact sysClose_other hClose hNe
  | read fd buf nbytes line =>
      have hNe : j ≠ fd.val := fun hEq => hOther (congrArg some hEq.symm)
      obtain ⟨pos, hFiles⟩ := sysRead_entry hRun
      rw [hFiles]
      exact Function.update_of_ne hNe _ _
  | write fd buf nbytes =>
      unfold FileCall.run at hRun
      obtain ⟨ret, _, hPair⟩ := Option.map_eq_some_iff.1 hRun
      injection hPair with _ hFiles
      rw [hFiles]

/-! ## The invariant over runs -/

/-- The descriptors of a process, and the directory entry that each of them
was last opened on. -/
structure Table where
  files : FileArray
  openedOn : Nat → Option Dentry

/-- The entry that a successful `open` was about. -/
def Table.note (fs : FileSys) (s : Table) (c : FileCall) (r : CallResult) :
    Nat → Option Dentry :=
  match c with
  | .openFile filename =>
      if r.ret = -1 then s.openedOn
      else
        Function.update s.openedOn r.ret.toNat
          (filename.bind (readDentryByName fs))
  | _ => s.openedOn

/-- One call.  A call that does not return leaves the table alone. -/
def Table.step (fs : FileSys) (s : Table) (c : FileCall) : Table :=
  match c.run fs s.files with
  | none => s
  | some (r, files) => { files := files, openedOn := s.note fs c r }

/-- The calls of one process. -/
def descriptorMachine (fs : FileSys) : Machine Table FileCall CallResult where
  step := Table.step fs
  emit := fun s c => ((c.run fs s.files).map Prod.fst).toList
  legal := fun _ _ => True

/-- The table of a process that has just been started. -/
structure StartTable (files : FileArray) : Prop where
  terminal : ∀ fd, fd < 2 →
    (files fd).inUse = true ∧ (files fd).optbl = .stdio
  free : ∀ fd, 2 ≤ fd → fd < numFds → (files fd).inUse = false

/-- The terminal's two descriptors stand, and every other one in use goes with
the entry it was opened on. -/
structure TableInv (s : Table) : Prop where
  terminal : ∀ fd, fd < 2 →
    (s.files fd).inUse = true ∧ (s.files fd).optbl = .stdio
  opened : ∀ fd, 2 ≤ fd → fd < numFds → (s.files fd).inUse = true →
    ∃ d, s.openedOn fd = some d ∧
      fileOpsOf d.ftype = some (s.files fd).optbl ∧
      (d.ftype = 2 → (s.files fd).inode = d.inodeNum)

theorem StartTable.tableInv {files : FileArray} (h : StartTable files)
    (openedOn : Nat → Option Dentry) : TableInv ⟨files, openedOn⟩ where
  terminal := h.terminal
  opened := by
    intro fd hLow hHigh hUse
    have hFree := h.free fd hLow hHigh
    rw [hFree] at hUse
    contradiction

/-- An entry that differs in its position only is as good. -/
theorem TableInv.setPos {s : Table} (h : TableInv s) (fd pos : Nat) :
    TableInv { s with
      files := Function.update s.files fd { s.files fd with pos := pos } } where
  terminal := by
    intro j hj
    by_cases hEq : j = fd
    · subst hEq
      simpa using h.terminal j hj
    · simpa [hEq] using h.terminal j hj
  opened := by
    intro j hLow hHigh hUse
    by_cases hEq : j = fd
    · subst hEq
      simpa using h.opened j hLow hHigh (by simpa using hUse)
    · simpa [hEq] using h.opened j hLow hHigh (by simpa [hEq] using hUse)

/-- A freed entry no longer matters. -/
theorem TableInv.free {s : Table} (h : TableInv s) {fd : Nat} (hLow : 2 ≤ fd) :
    TableInv { s with
      files := Function.update s.files fd
        { s.files fd with inUse := false } } where
  terminal := by
    intro j hj
    have hNe : j ≠ fd := by omega
    simpa [hNe] using h.terminal j hj
  opened := by
    intro j hj hHigh hUse
    by_cases hEq : j = fd
    · subst hEq
      simp at hUse
    · simpa [hEq] using h.opened j hj hHigh (by simpa [hEq] using hUse)

/-- A descriptor that was just opened. -/
theorem TableInv.opens {s : Table} (h : TableInv s) {d : Dentry}
    {ops : FileOps} {fd : Nat} (hLow : 2 ≤ fd)
    (hType : fileOpsOf d.ftype = some ops) :
    TableInv
      { files := Function.update s.files fd (openedDesc d ops (s.files fd))
        openedOn := Function.update s.openedOn fd (some d) } where
  terminal := by
    intro j hj
    have hNe : j ≠ fd := by omega
    simpa [hNe] using h.terminal j hj
  opened := by
    intro j hj hHigh hUse
    by_cases hEq : j = fd
    · subst hEq
      refine ⟨d, by simp, by simp [openedDesc_optbl, hType], ?_⟩
      intro hRegular
      have hOps : ops = .regfile := by
        rw [hRegular] at hType
        exact (Option.some.inj hType).symm
      simp [openedDesc, hOps]
    · simpa [hEq] using h.opened j hj hHigh (by simpa [hEq] using hUse)

theorem TableInv.step {fs : FileSys} {s : Table} (h : TableInv s)
    (c : FileCall) : TableInv (s.step fs c) := by
  unfold Table.step
  cases c with
  | openFile filename =>
      rcases sysOpen_spec fs filename s.files with
        ⟨_, hSame⟩ | ⟨d, ops, fd, hOpens, hOpen⟩
      · simp only [FileCall.run, hSame, Table.note, if_true]
        exact h
      · have hFd := getFreeFd_some hOpens.free
        have hNotFailed : ¬ (fd : Int) = -1 := by omega
        simp only [FileCall.run, hOpen, Table.note, if_neg hNotFailed,
          Int.toNat_natCast, hOpens.found]
        exact h.opens hFd.1 hOpens.type
  | close fd =>
      by_cases hUse : (s.files fd).inUse = false
      · simp only [FileCall.run, sysClose_not_inUse hUse, Option.map_some,
          Table.note]
        exact h
      · have hUse : (s.files fd).inUse = true := by simpa using hUse
        cases Nat.lt_or_ge fd.val 2 with
        | inl hTerminal =>
            have hStdio := (h.terminal fd hTerminal).2
            simp only [FileCall.run, sysClose_stdio hStdio, Option.map_some,
              Table.note]
            exact h
        | inr hLow =>
            obtain ⟨d, _, hOps, _⟩ := h.opened fd hLow fd.isLt hUse
            simp only [FileCall.run, Option.map_some, Table.note,
              sysClose_opened hLow fd.isLt hUse hOps]
            exact h.free hLow
  | read fd buf nbytes line =>
      cases hRead : FileCall.run fs (.read fd buf nbytes line) s.files with
      | none => exact h
      | some r =>
          obtain ⟨pos, hFiles⟩ := sysRead_entry hRead
          simp only [Table.note, hFiles]
          exact h.setPos fd pos
  | write fd buf nbytes =>
      cases hWrite : sysWrite fd buf nbytes s.files with
      | none =>
          simp only [FileCall.run, hWrite, Option.map_none]
          exact h
      | some ret =>
          simp only [FileCall.run, hWrite, Option.map_some, Table.note]
          exact h

/-! ### The contracts of `open` and `close` -/

/-- What `open` does to a table. -/
structure OpenContract (fs : FileSys) (filename : Option CString)
    (files : FileArray) : Prop where
  refuses : sysOpen fs filename files = (-1, files) ↔
    Refused fs filename files
  fails : (sysOpen fs filename files).1 = -1 ↔ Refused fs filename files
  opens : ¬ Refused fs filename files → ∃ fd : Nat, 2 ≤ fd ∧ fd < numFds ∧
    (files fd).inUse = false ∧
    (∀ j, 2 ≤ j → j < fd → (files j).inUse = true) ∧
    (sysOpen fs filename files).1 = fd ∧
    ((sysOpen fs filename files).2 fd).inUse = true ∧
    ∀ j, j ≠ fd → (sysOpen fs filename files).2 j = files j

/-- What `close` does to a table. -/
structure CloseContract (fd : Nat) (files : FileArray) : Prop where
  refuses : fd < 2 ∨ (files fd).inUse = false →
    sysClose fd files = some (-1, files)
  frees : 2 ≤ fd → (files fd).inUse = true →
    sysClose fd files =
      some (0, Function.update files fd { files fd with inUse := false })

private theorem openContract (fs : FileSys) (filename : Option CString)
    (files : FileArray) : OpenContract fs filename files := by
  rcases sysOpen_spec fs filename files with
    ⟨hRefused, hSame⟩ | ⟨d, ops, fd, hOpens, hOpen⟩
  · exact
      { refuses := ⟨fun _ => hRefused, fun _ => hSame⟩
        fails := ⟨fun _ => hRefused, fun _ => by rw [hSame]⟩
        opens := fun hNot => absurd hRefused hNot }
  · have hNot := hOpens.not_refused
    obtain ⟨hLow, hHigh, hFree, hBelow⟩ := getFreeFd_some hOpens.free
    have hReturned : (sysOpen fs filename files).1 ≠ -1 := by
      rw [hOpen]
      simp only [ne_eq]
      omega
    exact
      { refuses := ⟨fun h => absurd (congrArg Prod.fst h) hReturned,
          fun h => absurd h hNot⟩
        fails := ⟨fun h => absurd h hReturned, fun h => absurd h hNot⟩
        opens := by
          intro _
          refine ⟨fd, hLow, hHigh, hFree, hBelow, by rw [hOpen], ?_, ?_⟩
          · rw [hOpen]
            simp [openedDesc_inUse]
          · intro j hj
            rw [hOpen]
            exact Function.update_of_ne hj _ _ }

theorem TableInv.closeContract {s : Table} (h : TableInv s) (fd : Fin 8) :
    CloseContract fd s.files where
  refuses := by
    rintro (hTerminal | hFree)
    · exact sysClose_stdio (h.terminal fd hTerminal).2
    · exact sysClose_not_inUse hFree
  frees := by
    intro hLow hUse
    obtain ⟨d, _, hOps, _⟩ := h.opened fd hLow fd.isLt hUse
    exact sysClose_opened hLow fd.isLt hUse hOps

/--
**The descriptor table.**  After any run of calls of `open`, `close`, `read`
and `write` from the table of a new process, the invariant holds, and whatever
`open` and `close` are called with next, they keep their contracts.
-/
theorem descriptor_table (fs : FileSys) {files : FileArray}
    (hStart : StartTable files) (calls : List FileCall) :
    TableInv ((descriptorMachine fs).run ⟨files, fun _ => none⟩ calls) ∧
    (∀ filename, OpenContract fs filename
      ((descriptorMachine fs).run ⟨files, fun _ => none⟩ calls).files) ∧
    ∀ fd : Fin 8, CloseContract fd
      ((descriptorMachine fs).run ⟨files, fun _ => none⟩ calls).files := by
  have hInv : TableInv
      ((descriptorMachine fs).run ⟨files, fun _ => none⟩ calls) :=
    (descriptorMachine fs).run_invariant (fun s c h _ => h.step c) calls
      ⟨files, fun _ => none⟩ (hStart.tableInv _)
      ((descriptorMachine fs).always_of_forall (fun _ _ => trivial) _ _)
  exact ⟨hInv, fun filename => openContract fs filename _, hInv.closeContract⟩

private theorem freshFiles_start : StartTable freshFiles where
  terminal := by
    intro fd hfd
    simp [freshFiles, hfd]
  free := by
    intro fd hLow _
    simp only [freshFiles, decide_eq_false_iff_not]
    omega

/-- A file is opened, closed and opened again. -/
theorem descriptor_table_reopened :
    TableInv ((descriptorMachine tinyImage).run ⟨freshFiles, fun _ => none⟩
      [.openFile (some [0x61#8]), .close 2, .openFile (some [0x61#8])]) ∧
    ((descriptorMachine tinyImage).run ⟨freshFiles, fun _ => none⟩
      [.openFile (some [0x61#8]), .close 2,
        .openFile (some [0x61#8])]).openedOn 2 =
      some { fname := [0x61#8], ftype := 2, inodeNum := 0 } :=
  ⟨(descriptor_table tinyImage freshFiles_start _).1, by decide +kernel⟩

end CompE.Kernel
