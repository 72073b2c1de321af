import CompE.Kernel.Descriptors

/-!
# Descriptor numbers out of range

`syscall_getfdptr` computes the address of an entry of `file_array` from any
32-bit number.  Its description and the callers' tests for NULL speak of an
error value, but there is none: `read`, `write` and `close` look at whatever
lies at the address, and go on to call through it.

Here the entries are cells of the 32-bit address space, and every index into
`file_array` and every call through a table is recorded.  `bounds_iff` says
for which numbers the calls keep inside the table; for those, the calls are the
ones on the table (`DescCall.run_inside`).
-/

namespace CompE.Kernel

/-! ## Entries by address -/

/-- What lies at an address, read as a `filedesc_t`.  The table pointer of a
`wild` cell points to none of the kernel's tables. -/
structure Cell where
  desc : FileDesc
  wild : Bool
  deriving DecidableEq

/-- The cells by address; `none` where nothing is mapped. -/
abbrev DescMem := BitVec 32 → Option Cell

/-- A use of the descriptor table. -/
inductive Touch where
  | index (i : Nat)
  | dispatch (i : Nat) (inUse : Bool)
  deriving DecidableEq, Repr

/-- The uses made of the table, and what comes back: `none` after a page fault
or a call into the void. -/
abbrev Traced (α : Type) := List Touch × Option α

/-- `syscall_getfdptr`, for an entry of 16 bytes. -/
def syscallGetfdptr (fileArray fd : BitVec 32) : BitVec 32 := fileArray + fd * 16

section Calls

variable {α : Type} (fs : FileSys) (fileArray fd : BitVec 32) (mem : DescMem)

/-- An access to `file_array[fd]`, and what follows it. -/
def withEntry (next : Cell → Traced α) : Traced α :=
  match mem (syscallGetfdptr fileArray fd) with
  | none => ([.index fd.toNat], none)
  | some cell => (.index fd.toNat :: (next cell).1, (next cell).2)

/-- A call through the table of an entry. -/
def dispatch (cell : Cell) (call : FileOps → Traced α) : Traced α :=
  let r : Traced α := if cell.wild then ([], none) else call cell.desc.optbl
  (.dispatch fd.toNat cell.desc.inUse :: r.1, r.2)

/-- The memory with a new descriptor in a cell. -/
def setDesc (cell : Cell) (desc : FileDesc) : DescMem :=
  Function.update mem (syscallGetfdptr fileArray fd)
    (some { cell with desc := desc })

/-! ## The functions of each type -/

/-- `file_read`. -/
def fileReadAt (buf : Buffer) (nbytes : BitVec 32) :
    Traced (CallResult × DescMem) :=
  withEntry fileArray fd mem fun cell =>
    let r := fileRead fs (fun _ => cell.desc) fd.toNat buf nbytes.toNat
    ([], some (⟨r.1, some r.2.1⟩, setDesc fileArray fd mem cell (r.2.2 fd.toNat)))

/-- `dir_read`. -/
def dirReadAt (buf : Buffer) (nbytes : BitVec 32) :
    Traced (CallResult × DescMem) :=
  withEntry fileArray fd mem fun cell =>
    let r := dirRead fs (fun _ => cell.desc) fd.toNat buf nbytes.toNat
    ([], some (⟨r.1, some r.2.1⟩, setDesc fileArray fd mem cell (r.2.2 fd.toNat)))

/-- `file_close`: the check comes before the access, and after the address. -/
def fileCloseAt : Traced (Int × DescMem) :=
  if fd.toNat = 0 ∨ fd.toNat = 1 ∨ fd.toNat > 7 then ([], some (-1, mem))
  else
    withEntry fileArray fd mem fun cell =>
      ([], some (0, setDesc fileArray fd mem cell
        { cell.desc with inUse := false }))

def FileOps.readAt (optbl : FileOps) (buf : Buffer) (nbytes : BitVec 32)
    (line : Line) : Traced (CallResult × DescMem) :=
  match optbl with
  | .null => ([], none)
  | .stdio =>
      let r := consoleReadlineW fd.toNat buf nbytes line
      ([], some (⟨r.1, some r.2⟩, mem))
  | .regfile => fileReadAt fs fileArray fd mem buf nbytes
  | .dir => dirReadAt fs fileArray fd mem buf nbytes
  | .rtc => ([], some (⟨0, some buf⟩, mem))

def FileOps.closeAt (optbl : FileOps) : Traced (Int × DescMem) :=
  match optbl with
  | .null => ([], none)
  | .stdio => ([], some (consoleClose fd.toNat, mem))
  | .regfile => fileCloseAt fileArray fd mem
  | .dir => ([], some (dirClose fd.toNat, mem))
  | .rtc => ([], some (rtcClose fd.toNat, mem))

/-! ## The system calls -/

/-- `read`. -/
def sysReadAt (buf : Buffer) (nbytes : BitVec 32) (line : Line) :
    Traced (CallResult × DescMem) :=
  withEntry fileArray fd mem fun cell =>
    if cell.desc.inUse = false then ([], some (⟨-1, some buf⟩, mem))
    else dispatch fd cell fun optbl =>
      optbl.readAt fs fileArray fd mem buf nbytes line

/-- `write`. -/
def sysWriteAt (buf : Option Buffer) (nbytes : BitVec 32) :
    Traced (CallResult × DescMem) :=
  withEntry fileArray fd mem fun cell =>
    if cell.desc.inUse = false then ([], some (⟨-1, none⟩, mem))
    else dispatch fd cell fun optbl =>
      ([], (optbl.write fd.toNat buf nbytes).map fun ret => (⟨ret, none⟩, mem))

/-- `close`: the flag is cleared through the pointer of the first look. -/
def sysCloseAt : Traced (CallResult × DescMem) :=
  withEntry fileArray fd mem fun cell =>
    if cell.desc.inUse = false then ([], some (⟨-1, none⟩, mem))
    else
      let r := dispatch fd cell fun optbl => optbl.closeAt fileArray fd mem
      match r.2 with
      | none => (r.1, none)
      | some (retval, mem) =>
          if retval = -1 then (r.1, some (⟨-1, none⟩, mem))
          else
            let last := withEntry fileArray fd mem fun cell =>
              ([], some (⟨0, none⟩, setDesc fileArray fd mem cell
                { cell.desc with inUse := false }))
            (r.1 ++ last.1, last.2)

end Calls

/-- One of the three calls, without its descriptor. -/
inductive DescCall where
  | read (buf : Buffer) (nbytes : BitVec 32) (line : Line)
  | write (buf : Option Buffer) (nbytes : BitVec 32)
  | close

namespace DescCall

def run (fs : FileSys) (fileArray : BitVec 32) (c : DescCall) (fd : BitVec 32)
    (mem : DescMem) : Traced (CallResult × DescMem) :=
  match c with
  | .read buf nbytes line => sysReadAt fs fileArray fd mem buf nbytes line
  | .write buf nbytes => sysWriteAt fileArray fd mem buf nbytes
  | .close => sysCloseAt fileArray fd mem

/-- The call on the table. -/
def onTable (c : DescCall) (fd : Fin 8) : FileCall :=
  match c with
  | .read buf nbytes line => .read fd buf nbytes line
  | .write buf nbytes => .write fd buf nbytes
  | .close => .close fd

end DescCall

/-! ## Keeping inside -/

/-- An index of the table, or a call through an entry in use. -/
def Touch.Inside : Touch → Prop
  | .index i => i < numFds
  | .dispatch i inUse => i < numFds ∧ inUse = true

/-- A call keeps inside the table, and refuses numbers that are outside. -/
structure KeepsBounds (fs : FileSys) (fileArray : BitVec 32) (c : DescCall)
    (fd : BitVec 32) (mem : DescMem) : Prop where
  inside : ∀ t ∈ (c.run fs fileArray fd mem).1, t.Inside
  refuses : ¬ (0 ≤ fd.toInt ∧ fd.toInt ≤ 7) →
    ∃ buf, (c.run fs fileArray fd mem).2 = some (⟨-1, buf⟩, mem)

section Inside

variable {α : Type} {fs : FileSys} {fileArray fd : BitVec 32} {mem : DescMem}

private theorem toInt_range_iff (fd : BitVec 32) :
    (0 ≤ fd.toInt ∧ fd.toInt ≤ 7) ↔ fd.toNat < numFds := by
  rw [BitVec.toInt_eq_toNat_cond, numFds]
  split <;> omega

/-- The first use of the table is the entry's index, unchecked. -/
theorem index_mem_withEntry (next : Cell → Traced α) :
    .index fd.toNat ∈ (withEntry fileArray fd mem next).1 := by
  unfold withEntry
  split <;> simp

private theorem withEntry_inside {next : Cell → Traced α} (hFd : fd.toNat < numFds)
    (hNext : ∀ cell, ∀ t ∈ (next cell).1, t.Inside) :
    ∀ t ∈ (withEntry fileArray fd mem next).1, t.Inside := by
  intro t ht
  unfold withEntry at ht
  split at ht
  · rw [List.mem_singleton] at ht
    subst ht
    exact hFd
  · rw [List.mem_cons] at ht
    cases ht with
    | inl hHere => subst hHere; exact hFd
    | inr hRest => exact hNext _ t hRest

private theorem dispatch_inside {cell : Cell} {call : FileOps → Traced α}
    (hFd : fd.toNat < numFds) (hUse : cell.desc.inUse = true)
    (hCall : ∀ optbl, ∀ t ∈ (call optbl).1, t.Inside) :
    ∀ t ∈ (dispatch fd cell call).1, t.Inside := by
  intro t ht
  simp only [dispatch, List.mem_cons] at ht
  cases ht with
  | inl hHere => subst hHere; exact ⟨hFd, hUse⟩
  | inr hRest =>
      split at hRest
      · cases hRest
      · exact hCall _ t hRest

private theorem readAt_inside (hFd : fd.toNat < numFds) (optbl : FileOps)
    (buf : Buffer) (nbytes : BitVec 32) (line : Line) :
    ∀ t ∈ (optbl.readAt fs fileArray fd mem buf nbytes line).1, t.Inside := by
  cases optbl with
  | null => intro t ht; cases ht
  | stdio => intro t ht; cases ht
  | rtc => intro t ht; cases ht
  | regfile => exact withEntry_inside hFd fun cell t ht => by cases ht
  | dir => exact withEntry_inside hFd fun cell t ht => by cases ht

private theorem closeAt_inside (hFd : fd.toNat < numFds) (optbl : FileOps) :
    ∀ t ∈ (optbl.closeAt fileArray fd mem).1, t.Inside := by
  cases optbl with
  | null => intro t ht; cases ht
  | stdio => intro t ht; cases ht
  | rtc => intro t ht; cases ht
  | dir => intro t ht; cases ht
  | regfile =>
      intro t ht
      simp only [FileOps.closeAt, fileCloseAt] at ht
      split at ht
      · cases ht
      · exact withEntry_inside hFd (fun cell t ht => by cases ht) t ht

private theorem sysCloseAt_inside (hFd : fd.toNat < numFds) :
    ∀ t ∈ (sysCloseAt fileArray fd mem).1, t.Inside := by
  apply withEntry_inside hFd
  intro cell t ht
  by_cases hUse : cell.desc.inUse = false
  · rw [if_pos hUse] at ht
    cases ht
  · have hCall : ∀ t ∈ (dispatch fd cell fun optbl =>
        optbl.closeAt fileArray fd mem).1, t.Inside :=
      dispatch_inside hFd (by simpa using hUse) (closeAt_inside hFd)
    rw [if_neg hUse] at ht
    simp only at ht
    split at ht
    · exact hCall t ht
    · split at ht
      · exact hCall t ht
      · rw [List.mem_append] at ht
        cases ht with
        | inl hFirst => exact hCall t hFirst
        | inr hLast =>
            exact withEntry_inside hFd (fun cell t ht => by cases ht) t hLast

private theorem run_inside (c : DescCall) (hFd : fd.toNat < numFds) :
    ∀ t ∈ (c.run fs fileArray fd mem).1, t.Inside := by
  cases c with
  | read buf nbytes line =>
      apply withEntry_inside hFd
      intro cell t ht
      by_cases hUse : cell.desc.inUse = false
      · rw [if_pos hUse] at ht
        cases ht
      · rw [if_neg hUse] at ht
        exact dispatch_inside hFd (by simpa using hUse)
          (fun optbl => readAt_inside hFd optbl buf nbytes line) t ht
  | write buf nbytes =>
      apply withEntry_inside hFd
      intro cell t ht
      by_cases hUse : cell.desc.inUse = false
      · rw [if_pos hUse] at ht
        cases ht
      · rw [if_neg hUse] at ht
        exact dispatch_inside hFd (by simpa using hUse)
          (fun optbl t ht => by cases ht) t ht
  | close => exact sysCloseAt_inside hFd

private theorem index_mem_run (c : DescCall) :
    .index fd.toNat ∈ (c.run fs fileArray fd mem).1 := by
  cases c with
  | read buf nbytes line => exact index_mem_withEntry _
  | write buf nbytes => exact index_mem_withEntry _
  | close => exact index_mem_withEntry _

end Inside

/-! ## Numbers in range -/

/-- The memory holds the table of a process. -/
def HoldsTable (fileArray : BitVec 32) (files : FileArray) (mem : DescMem) :
    Prop :=
  ∀ i : Fin 8,
    mem (syscallGetfdptr fileArray (BitVec.ofNat 32 i)) = some ⟨files i, false⟩

section Table

variable {α : Type} {fs : FileSys} {fileArray : BitVec 32} {files : FileArray}
  {mem : DescMem} {fd : Fin 8}

private theorem syscallGetfdptr_inj (fileArray : BitVec 32) {i j : Fin 8}
    (h : syscallGetfdptr fileArray (BitVec.ofNat 32 i) =
      syscallGetfdptr fileArray (BitVec.ofNat 32 j)) : i = j := by
  have hOffset : BitVec.ofNat 32 i * 16 = BitVec.ofNat 32 j * 16 :=
    (BitVec.add_right_inj fileArray).1 h
  clear h
  revert i j
  decide

private theorem toNat_ofNat_fin (fd : Fin 8) : (BitVec.ofNat 32 fd).toNat = fd := by
  rw [BitVec.toNat_ofNat, Nat.mod_eq_of_lt (by omega)]

theorem HoldsTable.withEntry (h : HoldsTable fileArray files mem)
    (next : Cell → Traced α) :
    (withEntry fileArray (BitVec.ofNat 32 fd) mem next).2 =
      (next ⟨files fd, false⟩).2 := by
  simp only [Kernel.withEntry, h fd]

theorem HoldsTable.setDesc (h : HoldsTable fileArray files mem)
    (desc : FileDesc) :
    HoldsTable fileArray (Function.update files fd desc)
      (setDesc fileArray (BitVec.ofNat 32 fd) mem ⟨files fd, false⟩ desc) := by
  intro i
  by_cases hi : i = fd
  · rw [hi, Kernel.setDesc, Function.update_self, Function.update_self]
  · have hAddr : syscallGetfdptr fileArray (BitVec.ofNat 32 i) ≠
        syscallGetfdptr fileArray (BitVec.ofNat 32 fd) :=
      fun hEq => hi (syscallGetfdptr_inj fileArray hEq)
    have hNe : i.val ≠ fd.val := fun hEq => hi (Fin.ext hEq)
    rw [Kernel.setDesc, Function.update_of_ne hAddr, Function.update_of_ne hNe,
      h i]

/-- `dir_read` looks at its own entry and writes no other. -/
theorem dirRead_entry (fs : FileSys) (files : FileArray) (fd : Nat)
    (buf : Buffer) (nbytes : Nat) :
    (dirRead fs files fd buf nbytes) =
      ((dirRead fs (fun _ => files fd) fd buf nbytes).1,
        (dirRead fs (fun _ => files fd) fd buf nbytes).2.1,
        Function.update files fd
          ((dirRead fs (fun _ => files fd) fd buf nbytes).2.2 fd)) := by
  simp only [dirRead]
  by_cases hPast : getNumDirEntries fs < (files fd).pos
  · simp [hPast]
  · cases hEntry : readDentryByIndex fs (files fd).pos with
    | none => simp [hPast]
    | some garbage => simp [hPast]

/-- The outcomes agree, and so do the descriptors afterwards. -/
def Agrees (fileArray : BitVec 32) :
    Option (α × DescMem) → Option (α × FileArray) → Prop :=
  Option.Rel fun r r' => r.1 = r'.1 ∧ HoldsTable fileArray r'.2 r.2

theorem HoldsTable.readAt (h : HoldsTable fileArray files mem)
    (optbl : FileOps) (buf : Buffer) (nbytes : BitVec 32) (line : Line) :
    Agrees fileArray
      (optbl.readAt fs fileArray (BitVec.ofNat 32 fd) mem buf nbytes line).2
      (optbl.read fs fd buf nbytes line files) := by
  cases optbl with
  | null => exact Option.Rel.none
  | stdio =>
      rw [FileOps.readAt, toNat_ofNat_fin]
      exact Option.Rel.some ⟨rfl, h⟩
  | rtc => exact Option.Rel.some ⟨rfl, h⟩
  | regfile =>
      rw [FileOps.readAt, fileReadAt, h.withEntry, toNat_ofNat_fin,
        FileOps.read, fileRead]
      refine Option.Rel.some ⟨rfl, ?_⟩
      simp only [fileRead, Function.update_self]
      exact h.setDesc _
  | dir =>
      rw [FileOps.readAt, dirReadAt, h.withEntry, toNat_ofNat_fin,
        FileOps.read, dirRead_entry fs files]
      exact Option.Rel.some ⟨rfl, h.setDesc _⟩

theorem HoldsTable.closeAt (h : HoldsTable fileArray files mem)
    (optbl : FileOps) :
    Agrees fileArray
      (optbl.closeAt fileArray (BitVec.ofNat 32 fd) mem).2
      (optbl.close fd files) := by
  cases optbl with
  | null => exact Option.Rel.none
  | stdio => exact Option.Rel.some ⟨rfl, h⟩
  | dir =>
      rw [FileOps.closeAt, toNat_ofNat_fin]
      exact Option.Rel.some ⟨rfl, h⟩
  | rtc => exact Option.Rel.some ⟨rfl, h⟩
  | regfile =>
      rw [FileOps.closeAt, fileCloseAt, toNat_ofNat_fin, FileOps.close,
        fileClose]
      split
      · exact Option.Rel.some ⟨rfl, h⟩
      · rw [h.withEntry]
        exact Option.Rel.some ⟨rfl, h.setDesc _⟩

private theorem dispatch_snd (fd : BitVec 32) (desc : FileDesc)
    (call : FileOps → Traced α) :
    (dispatch fd ⟨desc, false⟩ call).2 = (call desc.optbl).2 := rfl

theorem HoldsTable.sysCloseAt (h : HoldsTable fileArray files mem) :
    Agrees fileArray (sysCloseAt fileArray (BitVec.ofNat 32 fd) mem).2
      ((FileCall.close fd).run fs files) := by
  rw [Kernel.sysCloseAt, h.withEntry, FileCall.run, sysClose]
  by_cases hUse : (files fd).inUse = false
  · rw [if_pos hUse, if_pos hUse]
    exact Option.Rel.some ⟨rfl, h⟩
  · have hCall : Agrees fileArray
        ((files fd).optbl.closeAt fileArray (BitVec.ofNat 32 fd) mem).2
        ((files fd).optbl.close fd files) := h.closeAt _
    rw [if_neg hUse, if_neg hUse]
    simp only [dispatch_snd]
    generalize hAt : ((files fd).optbl.closeAt fileArray
      (BitVec.ofNat 32 fd) mem).2 = r at hCall
    generalize (files fd).optbl.close fd files = r' at hCall
    cases hCall with
    | none => exact Option.Rel.none
    | some hRel =>
        rename_i at' table
        obtain ⟨retval, mem'⟩ := at'
        obtain ⟨retval', files'⟩ := table
        obtain ⟨rfl, hTable⟩ := hRel
        by_cases hFail : retval = -1
        · simp only [hFail, if_true]
          exact Option.Rel.some ⟨rfl, hTable⟩
        · simp only [hFail, if_false, hTable.withEntry]
          exact Option.Rel.some ⟨rfl, hTable.setDesc _⟩

/-- In range, the calls are those on the table. -/
theorem DescCall.run_onTable (h : HoldsTable fileArray files mem)
    (c : DescCall) :
    Agrees fileArray (c.run fs fileArray (BitVec.ofNat 32 fd) mem).2
      ((c.onTable fd).run fs files) := by
  cases c with
  | close => exact h.sysCloseAt
  | read buf nbytes line =>
      rw [DescCall.run, sysReadAt, h.withEntry, DescCall.onTable, FileCall.run,
        sysRead]
      by_cases hUse : (files fd).inUse = false
      · rw [if_pos hUse, if_pos hUse]
        exact Option.Rel.some ⟨rfl, h⟩
      · rw [if_neg hUse, if_neg hUse, dispatch_snd]
        exact h.readAt _ buf nbytes line
  | write buf nbytes =>
      rw [DescCall.run, sysWriteAt, h.withEntry, DescCall.onTable,
        FileCall.run, sysWrite]
      by_cases hUse : (files fd).inUse = false
      · rw [if_pos hUse, if_pos hUse]
        exact Option.Rel.some ⟨rfl, h⟩
      · rw [if_neg hUse, if_neg hUse, dispatch_snd, toNat_ofNat_fin]
        cases (files fd).optbl.write fd buf nbytes with
        | none => exact Option.Rel.none
        | some ret => exact Option.Rel.some ⟨rfl, h⟩

end Table

/--
**The bounds of the descriptor table.**  Whatever lies in the table and around
it, `read`, `write` and `close` keep inside it and refuse what is outside if
and only if the number is one of the table's.
-/
theorem bounds_iff (fs : FileSys) (fileArray : BitVec 32) (c : DescCall)
    (fd : BitVec 32) (mem : DescMem) :
    KeepsBounds fs fileArray c fd mem ↔ 0 ≤ fd.toInt ∧ fd.toInt ≤ 7 := by
  constructor
  · intro hKeeps
    rw [toInt_range_iff]
    exact hKeeps.inside _ (index_mem_run c)
  · intro hFd
    exact
      { inside := run_inside c ((toInt_range_iff fd).1 hFd)
        refuses := fun hNot => absurd hFd hNot }

/-- With the RTC open as descriptor 2, the number `0x10000002` closes it. -/
theorem bounds_alias :
    ¬ ∀ (fs : FileSys) (fileArray : BitVec 32) (c : DescCall) (fd : BitVec 32)
      (mem : DescMem), KeepsBounds fs fileArray c fd mem := by
  intro h
  let mem : DescMem := Function.update (fun _ => none) 0x7FE020
    (some ⟨⟨.rtc, 0, 0, true⟩, false⟩)
  obtain ⟨buf, hBuf⟩ :=
    (h tinyImage 0x7FE000 .close 0x10000002 mem).refuses (by decide)
  have hRet : (DescCall.close.run tinyImage 0x7FE000 0x10000002 mem).2.map
      (fun r => r.1.ret) = some (-1) := by
    rw [hBuf]
    rfl
  revert hRet
  decide

end CompE.Kernel
