import CompE.Kernel.BlockStepping

/-!
# Reading a regular file through its descriptor

`file_open` puts an inode number and position 0 into a free descriptor;
`file_read` hands both to `read_data` and advances the position by what came
back.  What a sequence of reads should return is `ReadContract`, a statement
about byte lists that knows nothing of blocks.

The end-of-file test of `read_data` lets one byte too many through.  The loop
follows the contract as long as it is not asked for more than is left; asked
for more it returns one byte beyond the end, unless it starts exactly at the
end of the last block and the block table happens to hold an impossible number
there.  `StaysInside` is that condition, and `read_contract` shows that it is
the exact one.
-/

namespace CompE.Kernel

/-! ## Descriptors -/

/-- The operation tables a descriptor can point to. -/
inductive FileOps where
  | null
  | stdio
  | regfile
  | dir
  | rtc
  deriving DecidableEq, Repr

/-- `filedesc_t`. -/
structure FileDesc where
  optbl : FileOps
  inode : Nat
  pos : Nat
  inUse : Bool
  deriving DecidableEq, Repr

/-- `file_array` of a process, by descriptor number. -/
abbrev FileArray := Nat → FileDesc

def numFds : Nat := 8

/-- `get_free_fd`: descriptors 0 and 1 are the terminal's. -/
def getFreeFd (files : FileArray) : Option Nat :=
  (List.range' 2 (numFds - 2)).find? fun fd => !(files fd).inUse

/-- `file_open`; `none` for the return value -1. -/
def fileOpen (fs : FileSys) (files : FileArray) (fname : CString) :
    Option (Nat × FileArray) :=
  match readDentryByName fs fname with
  | none => none
  | some curDentry =>
      match getFreeFd files with
      | none => none
      | some fdnum =>
          let fd : FileDesc :=
            { optbl := .regfile, inode := curDentry.inodeNum, pos := 0
              inUse := true }
          some (fdnum, Function.update files fdnum fd)

/-- `file_read`: the return value, the buffer and the descriptors. -/
def fileRead (fs : FileSys) (files : FileArray) (fd : Nat) (buf : Buffer)
    (nbytes : Nat) : Nat × Buffer × FileArray :=
  let fdptr := files fd
  let result := readData fs fdptr.inode fdptr.pos buf nbytes
  (result.1, result.2,
    Function.update files fd { fdptr with pos := u32 (fdptr.pos + result.1) })

private theorem fileOpen_spec {fs : FileSys} {files files' : FileArray}
    {fname : CString} {fd : Nat} {dentry : Dentry}
    (hFound : readDentryByName fs fname = some dentry)
    (hOpen : fileOpen fs files fname = some (fd, files')) :
    (files' fd).inode = dentry.inodeNum ∧ (files' fd).pos = 0 := by
  unfold fileOpen at hOpen
  rw [hFound] at hOpen
  cases hFree : getFreeFd files with
  | none => rw [hFree] at hOpen; contradiction
  | some fdnum =>
      rw [hFree] at hOpen
      injection hOpen with hOpen
      injection hOpen with hFd hFiles
      subst hFd hFiles
      simp

/-! ## The contract of a sequence of reads -/

/-- One read call: the buffer it is given and the size it asks for. -/
structure ReadRequest where
  buf : Buffer
  nbytes : Nat

/-- What a read call leaves behind. -/
structure ReadResult where
  count : Nat
  buf : Buffer

/-- The bytes a read call returned. -/
def ReadResult.bytes (r : ReadResult) : List Byte := (List.range r.count).map r.buf

@[simp] theorem ReadResult.bytes_length (r : ReadResult) :
    r.bytes.length = r.count := by
  simp [ReadResult.bytes]

/-- The sum of the first `k` results. -/
def position (results : List ReadResult) (k : Nat) : Nat :=
  ((results.take k).map ReadResult.count).sum

/-- Reading `content` from position `start` on. -/
structure ReadContract (content : List Byte) (start : Nat)
    (reqs : List ReadRequest) (results : List ReadResult) : Prop where
  length : results.length = reqs.length
  count : ∀ (k : Nat) (req : ReadRequest) (res : ReadResult),
    reqs[k]? = some req → results[k]? = some res →
      res.count =
        min req.nbytes (content.length - (start + position results k))
  bytes : results.flatMap ReadResult.bytes <+: content.drop start
  atEnd : ∀ (k : Nat) (req : ReadRequest) (res : ReadResult),
    reqs[k]? = some req → results[k]? = some res →
      content.length ≤ start + position results k →
        res.count = 0 ∧ res.buf = req.buf

private theorem position_cons (res : ReadResult) (results : List ReadResult) (k : Nat) :
    position (res :: results) (k + 1) = res.count + position results k := by
  simp [position]

/-- Nothing is read from an empty list of calls. -/
theorem ReadContract.nil (content : List Byte) (start : Nat) :
    ReadContract content start [] [] where
  length := rfl
  count := by intro k req res hReq; simp at hReq
  bytes := List.nil_prefix
  atEnd := by intro k req res hReq; simp at hReq

/-- One good read, and the rest from where it ended. -/
theorem ReadContract.cons {content : List Byte} {start : Nat}
    {req : ReadRequest} {res : ReadResult} {reqs : List ReadRequest}
    {results : List ReadResult}
    (hCount : res.count = min req.nbytes (content.length - start))
    (hBytes : res.bytes = (content.drop start).take res.count)
    (hAtEnd : res.count = 0 → res.buf = req.buf)
    (hRest : ReadContract content (start + res.count) reqs results) :
    ReadContract content start (req :: reqs) (res :: results) where
  length := by simp [hRest.length]
  count := by
    intro k r x hReq hRes
    cases k with
    | zero =>
        simp only [List.getElem?_cons_zero, Option.some.injEq] at hReq hRes
        subst hReq hRes
        simpa [position] using hCount
    | succ k =>
        simp only [List.getElem?_cons_succ] at hReq hRes
        rw [position_cons, ← Nat.add_assoc]
        exact hRest.count k r x hReq hRes
  bytes := by
    obtain ⟨tail, hTail⟩ := hRest.bytes
    refine ⟨tail, ?_⟩
    rw [List.flatMap_cons, List.append_assoc, hTail, hBytes, ← List.drop_drop]
    exact List.take_append_drop res.count (content.drop start)
  atEnd := by
    intro k r x hReq hRes hEnd
    cases k with
    | zero =>
        simp only [List.getElem?_cons_zero, Option.some.injEq] at hReq hRes
        subst hReq hRes
        have hZero : res.count = 0 := by
          simp only [position, List.take_zero, List.map_nil, List.sum_nil] at hEnd
          omega
        exact ⟨hZero, hAtEnd hZero⟩
    | succ k =>
        simp only [List.getElem?_cons_succ] at hReq hRes
        rw [position_cons, ← Nat.add_assoc] at hEnd
        exact hRest.atEnd k r x hReq hRes hEnd

theorem ReadContract.head {content : List Byte} {start : Nat}
    {req : ReadRequest} {res : ReadResult} {reqs : List ReadRequest}
    {results : List ReadResult}
    (h : ReadContract content start (req :: reqs) (res :: results)) :
    res.count = min req.nbytes (content.length - start) := by
  have hFirst := h.count 0 req res rfl rfl
  simpa [position] using hFirst

theorem ReadContract.tail {content : List Byte} {start : Nat}
    {req : ReadRequest} {res : ReadResult} {reqs : List ReadRequest}
    {results : List ReadResult}
    (h : ReadContract content start (req :: reqs) (res :: results)) :
    ReadContract content (start + res.count) reqs results where
  length := by simpa using h.length
  count := by
    intro k r x hReq hRes
    have hNext := h.count (k + 1) r x (by simpa using hReq) (by simpa using hRes)
    rwa [position_cons, ← Nat.add_assoc] at hNext
  bytes := by
    obtain ⟨tail, hTail⟩ := h.bytes
    refine ⟨tail, ?_⟩
    rw [List.flatMap_cons, List.append_assoc] at hTail
    rw [← List.drop_drop, ← hTail]
    exact (List.drop_left' res.bytes_length).symm
  atEnd := by
    intro k r x hReq hRes hEnd
    refine h.atEnd (k + 1) r x (by simpa using hReq) (by simpa using hRes) ?_
    rwa [position_cons, ← Nat.add_assoc]

/-! ## Well-formed images -/

/-- A regular file of a page-aligned image that fits into the address space:
all its blocks are there.  The block table of an inode has 1023 entries. -/
structure RegularFile (fs : FileSys) (inode : Nat) : Prop where
  aligned : fs.filesysAddr % blockSize = 0
  fits : fs.filesysAddr +
    blockSize * (1 + getNumInodes fs + getNumDataBlocks fs) ≤ 2 ^ 32
  inode_lt : inode < getNumInodes fs
  length_le : getInodeLen fs inode ≤ 1023 * blockSize
  block_lt : ∀ k, k * blockSize < getInodeLen fs inode →
    dataBlocks fs (inodePtr fs inode) k < getNumDataBlocks fs

/-- An image all of whose type 2 entries are regular files. -/
structure WellFormed (fs : FileSys) : Prop where
  entries : getNumDirEntries fs ≤ 63
  files : ∀ i, i < getNumDirEntries fs → fs.wordAt (dentryAddr fs i + 32) = 2 →
    RegularFile fs (fs.wordAt (dentryAddr fs i + 36))

/-- Byte `p` of a file: its data block `p / 4096`, at offset `p % 4096`. -/
def contentByte (fs : FileSys) (inode p : Nat) : Byte :=
  fs.memory (fs.filesysAddr + blockSize * (1 + getNumInodes fs +
    dataBlocks fs (inodePtr fs inode) (p / blockSize)) + p % blockSize)

/-- The content of a file. -/
def fileContent (fs : FileSys) (inode : Nat) : List Byte :=
  (List.range (getInodeLen fs inode)).map (contentByte fs inode)

@[simp] theorem fileContent_length (fs : FileSys) (inode : Nat) :
    (fileContent fs inode).length = getInodeLen fs inode := by
  simp [fileContent]

private theorem fileContent_slice {fs : FileSys} {inode start n : Nat}
    (h : n ≤ getInodeLen fs inode - start) :
    ((fileContent fs inode).drop start).take n =
      (List.range n).map fun j => contentByte fs inode (start + j) := by
  apply List.ext_getElem
  · simp
    omega
  · intro j h1 h2
    simp [fileContent]

/-- The lookup gives the type and inode of one of the directory's entries. -/
theorem findDentry_entry {fs : FileSys} {fname : CString} {d : Dentry} :
    ∀ (n i : Nat), findDentry fs fname i n = some d → ∃ j, j < i + n ∧
      d.ftype = fs.wordAt (dentryAddr fs j + 32) ∧
      d.inodeNum = fs.wordAt (dentryAddr fs j + 36) := by
  intro n
  induction n with
  | zero => intro i hFind; contradiction
  | succ n ih =>
      intro i hFind
      unfold findDentry at hFind
      simp only at hFind
      split at hFind
      · injection hFind with hFind
        exact ⟨i, by omega, by rw [← hFind], by rw [← hFind]⟩
      · obtain ⟨j, hLt, hType, hInode⟩ := ih (i + 1) hFind
        exact ⟨j, by omega, hType, hInode⟩

theorem WellFormed.regularFile {fs : FileSys} (hImage : WellFormed fs)
    {fname : CString} {d : Dentry} (hFound : readDentryByName fs fname = some d)
    (hRegular : d.ftype = 2) : RegularFile fs d.inodeNum := by
  unfold readDentryByName at hFound
  split at hFound
  · contradiction
  · obtain ⟨j, hLt, hType, hInode⟩ := findDentry_entry _ 0 hFound
    rw [hInode]
    exact hImage.files j (by omega) (by rw [← hType, hRegular])

/-! ## One pass of `read_data` on a regular file -/

section Pass

variable {fs : FileSys} {inode offset : Nat} {buf : Buffer}

/-- `k` bytes have been read from `offset`: where the loop stands, and what is
in the buffer.  After a byte the block offset may be 4096: the move to the
next block is made at the start of a pass. -/
structure AtByte (fs : FileSys) (inode offset : Nat) (buf : Buffer) (k : Nat)
    (s : ReadState) : Prop where
  i_eq : s.i = k
  bytesRead_eq : s.bytesRead = k
  started : s.startFlag = decide (0 < k)
  place : s.indexOffset * blockSize + s.byteOffset = offset + k
  byteOffset_lt : k = 0 → s.byteOffset < blockSize
  byteOffset_pos : 0 < k → 0 < s.byteOffset ∧ s.byteOffset ≤ blockSize
  buf_eq : ∀ j, s.buf j =
    if j < k then contentByte fs inode (offset + j) else buf j

private theorem atByte_start (fs : FileSys) (inode offset : Nat) (buf : Buffer) :
    AtByte fs inode offset buf 0 (readStart offset buf) where
  i_eq := rfl
  bytesRead_eq := rfl
  started := rfl
  place := (readStart_nextByte offset buf).place
  byteOffset_lt := fun _ => (readStart_nextByte offset buf).first rfl
  byteOffset_pos := by intro h; omega
  buf_eq := by intro j; simp [readStart]

theorem AtByte.nextByte {k : Nat} {s : ReadState}
    (hAt : AtByte fs inode offset buf k s) : NextByte s (offset + k) where
  place := hAt.place
  first := by
    intro hFirst
    rw [hAt.started, decide_eq_false_iff_not] at hFirst
    exact hAt.byteOffset_lt (by omega)
  later := by
    intro hLater
    rw [hAt.started, decide_eq_true_eq] at hLater
    exact hAt.byteOffset_pos hLater

/-- The address of a byte of the file does not wrap. -/
theorem RegularFile.byteAt_block (hFile : RegularFile fs inode) {p : Nat}
    (hp : p < getInodeLen fs inode) :
    fs.byteAt (getDataBlock fs (p / blockSize) (inodePtr fs inode) +
      p % blockSize) = contentByte fs inode p := by
  have hFits := hFile.fits
  have hBlock := hFile.block_lt (p / blockSize)
    (by simp only [blockSize]; omega)
  have hOff : p % blockSize < blockSize := Nat.mod_lt _ (by decide)
  simp only [FileSys.byteAt, contentByte, getDataBlock, u32, blockSize]
    at hFits hBlock hOff ⊢
  congr 1
  omega

/-- A pass before the end of the file reads the next byte. -/
theorem AtByte.step (hFile : RegularFile fs inode) {k : Nat} {s : ReadState}
    (hAt : AtByte fs inode offset buf k s)
    (hLt : offset + k < getInodeLen fs inode) :
    ∃ s', readStep fs (inodePtr fs inode) offset s = some s' ∧
      AtByte fs inode offset buf (k + 1) s' := by
  have hLength := hFile.length_le
  have hPlace := hAt.place
  have hEof : ¬ u32 (s.bytesRead + offset) >
      inodeLength fs (inodePtr fs inode) := by
    change ¬ u32 (s.bytesRead + offset) > getInodeLen fs inode
    rw [hAt.bytesRead_eq, u32_of_lt (by simp only [blockSize] at hLength; omega)]
    omega
  have hValid : ¬ dataBlocks fs (inodePtr fs inode) s.indexOffset >
      getNumDataBlocks fs := by
    have := hFile.block_lt s.indexOffset (by omega)
    omega
  have hByte := hFile.byteAt_block hLt
  refine ⟨_, by unfold readStep; rw [if_neg hEof, if_neg hValid], ?_⟩
  simp only [hAt.nextByte.advance_eq hFile.aligned, hByte]
  have hSplit : (offset + k) / blockSize * blockSize + (offset + k) % blockSize =
      offset + k := by
    rw [Nat.mul_comm]
    exact Nat.div_add_mod _ _
  have hOff : (offset + k) % blockSize < blockSize := Nat.mod_lt _ (by decide)
  refine { i_eq := congrArg (· + 1) hAt.i_eq,
           bytesRead_eq := congrArg (· + 1) hAt.bytesRead_eq,
           started := by simp, place := ?_, byteOffset_lt := ?_,
           byteOffset_pos := ?_, buf_eq := ?_ }
  · show (offset + k) / blockSize * blockSize +
      ((offset + k) % blockSize + 1) = offset + (k + 1)
    omega
  · intro h; omega
  · intro _
    exact ⟨Nat.succ_pos _, hOff⟩
  · intro j
    simp only [Function.update_apply, hAt.i_eq]
    by_cases hj : j = k
    · subst hj; simp
    · rw [if_neg hj, hAt.buf_eq j]
      by_cases hjk : j < k
      · rw [if_pos hjk, if_pos (by omega)]
      · rw [if_neg hjk, if_neg (by omega)]

/-- The block table entry behind a last, full block is not a block number, so
that a pass that starts at the end of the file stops there. -/
def EndGuarded (fs : FileSys) (inode : Nat) : Prop :=
  getInodeLen fs inode % blockSize = 0 ∧
    dataBlocks fs (inodePtr fs inode) (getInodeLen fs inode / blockSize) >
      getNumDataBlocks fs

instance (fs : FileSys) (inode : Nat) : Decidable (EndGuarded fs inode) :=
  inferInstanceAs (Decidable (_ ∧ _))

/-- A pass at the end of the file: it stops only as the first pass, by the
check of the block number. -/
theorem AtByte.step_end (hFile : RegularFile fs inode) {k : Nat} {s : ReadState}
    (hAt : AtByte fs inode offset buf k s)
    (hEnd : offset + k = getInodeLen fs inode) :
    readStep fs (inodePtr fs inode) offset s = none ↔
      k = 0 ∧ EndGuarded fs inode := by
  have hLength := hFile.length_le
  have hPlace := hAt.place
  have hStartOff := hAt.byteOffset_lt
  have hLaterOff := hAt.byteOffset_pos
  have hEof : ¬ u32 (s.bytesRead + offset) >
      inodeLength fs (inodePtr fs inode) := by
    change ¬ u32 (s.bytesRead + offset) > getInodeLen fs inode
    rw [hAt.bytesRead_eq, u32_of_lt (by simp only [blockSize] at hLength; omega)]
    omega
  have hStops : readStep fs (inodePtr fs inode) offset s = none ↔
      dataBlocks fs (inodePtr fs inode) s.indexOffset >
        getNumDataBlocks fs := by
    unfold readStep
    rw [if_neg hEof]
    split <;> simp [*]
  rw [hStops]
  constructor
  · intro hBad
    have hOutside : ¬ s.indexOffset * blockSize < getInodeLen fs inode := by
      intro hLt
      have := hFile.block_lt s.indexOffset hLt
      omega
    have hFirst : s.indexOffset * blockSize = getInodeLen fs inode := by omega
    have hMod : getInodeLen fs inode % blockSize = 0 := by
      rw [← hFirst]; exact Nat.mul_mod_left _ _
    have hDiv : getInodeLen fs inode / blockSize = s.indexOffset := by
      rw [← hFirst]; exact Nat.mul_div_cancel _ (by decide)
    refine ⟨by omega, hMod, ?_⟩
    rw [hDiv]
    exact hBad
  · rintro ⟨hk, hMod, hBad⟩
    have hDiv : getInodeLen fs inode / blockSize = s.indexOffset := by
      have := hStartOff hk
      rw [← hEnd, ← hPlace, Nat.add_comm,
        Nat.add_mul_div_right _ _ (by decide), Nat.div_eq_of_lt this]
      exact Nat.zero_add _
    rwa [hDiv] at hBad

/-! ## A whole call of `read_data` -/

/-- A loop that has returned stays as it is. -/
theorem readLoop_stopped {inodeptr : Nat} {s : ReadState}
    (hStop : readStep fs inodeptr offset s = none) (n : Nat) :
    readLoop fs inodeptr offset n s = s := by
  cases n with
  | zero => rfl
  | succ n => rw [readLoop, hStop]

private theorem readLoop_add (inodeptr : Nat) (m n : Nat) (s : ReadState) :
    readLoop fs inodeptr offset (m + n) s =
      readLoop fs inodeptr offset n (readLoop fs inodeptr offset m s) := by
  induction m generalizing s with
  | zero => rw [Nat.zero_add, readLoop]
  | succ m ih =>
      rw [Nat.succ_add, readLoop, readLoop]
      cases hStep : readStep fs inodeptr offset s with
      | none => exact (readLoop_stopped hStep n).symm
      | some s' => exact ih s'

/-- As long as there is something left, every pass reads a byte. -/
theorem AtByte.loop (hFile : RegularFile fs inode) :
    ∀ (n k : Nat) (s : ReadState), AtByte fs inode offset buf k s →
      offset + k + n ≤ getInodeLen fs inode →
      AtByte fs inode offset buf (k + n)
        (readLoop fs (inodePtr fs inode) offset n s) := by
  intro n
  induction n with
  | zero => intro k s hAt _; exact hAt
  | succ n ih =>
      intro k s hAt hLe
      obtain ⟨s', hStep, hNext⟩ := hAt.step hFile (by omega)
      have hRest := ih (k + 1) s' hNext (by omega)
      rw [readLoop, hStep]
      rwa [Nat.succ_add, ← Nat.add_succ] at hRest

/-- A loop that goes past the end stops behind the first byte there. -/
theorem AtByte.past_end (hFile : RegularFile fs inode) {k n : Nat}
    {s s' : ReadState} (hAt : AtByte fs inode offset buf k s)
    (hEnd : offset + k = getInodeLen fs inode)
    (hStep : readStep fs (inodePtr fs inode) offset s = some s') :
    (readLoop fs (inodePtr fs inode) offset (n + 1) s).bytesRead = k + 1 := by
  have hLength := hFile.length_le
  have hCount : s'.bytesRead = k + 1 := by
    rw [(readStep_counts hStep).2.1, hAt.bytesRead_eq]
  have hStop : readStep fs (inodePtr fs inode) offset s' = none := by
    unfold readStep
    rw [if_pos]
    show u32 (s'.bytesRead + offset) > getInodeLen fs inode
    rw [hCount, u32_of_lt (by simp only [blockSize] at hLength; omega)]
    omega
  rw [readLoop, hStep]
  simp only [readLoop_stopped hStop n, hCount]

/-- A call that asks for no more than is left returns just that. -/
theorem RegularFile.readData_inside (hFile : RegularFile fs inode)
    (buf : Buffer) {n : Nat} (h : n ≤ getInodeLen fs inode - offset) :
    (readData fs inode offset buf n).1 = n ∧
      ∀ j, (readData fs inode offset buf n).2 j =
        if j < n then contentByte fs inode (offset + j) else buf j := by
  have hInode : ¬ inode > getNumInodes fs := by have := hFile.inode_lt; omega
  unfold readData
  rw [if_neg hInode]
  cases Nat.eq_zero_or_pos n with
  | inl hZero => subst hZero; simp [readLoop, readStart]
  | inr hPos =>
      have hAt := AtByte.loop hFile n 0 (readStart offset buf)
        (atByte_start fs inode offset buf) (by omega)
      rw [Nat.zero_add] at hAt
      exact ⟨hAt.bytesRead_eq, hAt.buf_eq⟩

/-- A call that asks for more than is left returns one byte too many, unless
it starts at a guarded end. -/
theorem RegularFile.readData_past (hFile : RegularFile fs inode)
    (buf : Buffer) {n : Nat} (hOffset : offset ≤ getInodeLen fs inode)
    (h : getInodeLen fs inode - offset < n) :
    (offset = getInodeLen fs inode ∧ EndGuarded fs inode ∧
      readData fs inode offset buf n = (0, buf)) ∨
    (¬ (offset = getInodeLen fs inode ∧ EndGuarded fs inode) ∧
      (readData fs inode offset buf n).1 =
        getInodeLen fs inode - offset + 1) := by
  have hInode : ¬ inode > getNumInodes fs := by have := hFile.inode_lt; omega
  obtain ⟨m, hm⟩ : ∃ m, n = (getInodeLen fs inode - offset) + (m + 1) :=
    ⟨n - (getInodeLen fs inode - offset) - 1, by omega⟩
  have hAt := AtByte.loop hFile (getInodeLen fs inode - offset) 0
    (readStart offset buf) (atByte_start fs inode offset buf) (by omega)
  rw [Nat.zero_add] at hAt
  have hEnd : offset + (getInodeLen fs inode - offset) =
      getInodeLen fs inode := by omega
  have hStops := hAt.step_end hFile hEnd
  unfold readData
  rw [if_neg hInode, hm, readLoop_add]
  cases hStep : readStep fs (inodePtr fs inode) offset
      (readLoop fs (inodePtr fs inode) offset (getInodeLen fs inode - offset)
        (readStart offset buf)) with
  | none =>
      obtain ⟨hZero, hGuard⟩ := hStops.1 hStep
      left
      refine ⟨by omega, hGuard, ?_⟩
      rw [hZero] at hStep ⊢
      simp only [readLoop_stopped hStep]
      rfl
  | some s' =>
      right
      refine ⟨?_, hAt.past_end hFile hEnd hStep⟩
      rintro ⟨hOff, hGuard⟩
      rw [hStops.2 ⟨by omega, hGuard⟩] at hStep
      contradiction

end Pass

/-! ## Sequences of reads -/

/-- The reads of a run, one after the other on one descriptor. -/
def readMany (fs : FileSys) (fd : Nat) : FileArray → List ReadRequest →
    List ReadResult
  | _, [] => []
  | files, req :: reqs =>
      let r := fileRead fs files fd req.buf req.nbytes
      { count := r.1, buf := r.2.1 } :: readMany fs fd r.2.2 reqs

/-- No read asks for more than is left, except at a guarded end; `pos` is the
position of a reader that got what it should. -/
def StaysInside (fs : FileSys) (inode : Nat) : Nat → List Nat → Prop
  | _, [] => True
  | pos, n :: ns =>
      (n ≤ getInodeLen fs inode - pos ∨
        pos = getInodeLen fs inode ∧ EndGuarded fs inode) ∧
      StaysInside fs inode (min (getInodeLen fs inode) (pos + n)) ns

instance decidableStaysInside (fs : FileSys) (inode pos : Nat)
    (ns : List Nat) : Decidable (StaysInside fs inode pos ns) :=
  match ns with
  | [] => .isTrue trivial
  | n :: ns =>
      have := decidableStaysInside fs inode
        (min (getInodeLen fs inode) (pos + n)) ns
      inferInstanceAs (Decidable (_ ∧ _))

/-- One read from a position in the file. -/
theorem RegularFile.read_iff {fs : FileSys} {inode pos : Nat}
    (hFile : RegularFile fs inode) (buf : Buffer) (hPos : pos ≤ getInodeLen fs inode)
    (n : Nat) :
    (readData fs inode pos buf n).1 = min n (getInodeLen fs inode - pos) ↔
      n ≤ getInodeLen fs inode - pos ∨
        pos = getInodeLen fs inode ∧ EndGuarded fs inode := by
  by_cases hn : n ≤ getInodeLen fs inode - pos
  · have hCount := (hFile.readData_inside buf hn).1
    rw [hCount]
    exact ⟨fun _ => Or.inl hn, fun _ => (Nat.min_eq_left hn).symm⟩
  · rcases hFile.readData_past buf hPos (Nat.lt_of_not_ge hn) with
      ⟨hEnd, hGuard, hRead⟩ | ⟨hNot, hCount⟩
    · rw [hRead]
      refine ⟨fun _ => Or.inr ⟨hEnd, hGuard⟩, fun _ => ?_⟩
      show 0 = min n (getInodeLen fs inode - pos)
      omega
    · rw [hCount]
      constructor
      · intro h; omega
      · rintro (h | h)
        · exact absurd h hn
        · exact absurd h hNot

/-- The bytes and the buffer of a read whose count is right. -/
theorem RegularFile.read_bytes {fs : FileSys} {inode pos n : Nat}
    (hFile : RegularFile fs inode) (buf : Buffer)
    (hPos : pos ≤ getInodeLen fs inode)
    (hCount : (readData fs inode pos buf n).1 =
      min n (getInodeLen fs inode - pos)) :
    let r : ReadResult := ⟨(readData fs inode pos buf n).1,
      (readData fs inode pos buf n).2⟩
    r.bytes = ((fileContent fs inode).drop pos).take r.count ∧
      (r.count = 0 → r.buf = buf) := by
  intro r
  by_cases hn : n ≤ getInodeLen fs inode - pos
  · obtain ⟨hAll, hBuf⟩ := hFile.readData_inside buf hn
    have hRange : r.count ≤ getInodeLen fs inode - pos := by
      show (readData fs inode pos buf n).1 ≤ _
      omega
    rw [fileContent_slice hRange]
    constructor
    · apply List.map_congr_left
      intro j hj
      rw [List.mem_range] at hj
      show (readData fs inode pos buf n).2 j = _
      rw [hBuf j, if_pos (hAll ▸ hj)]
    · intro hZero
      have hNone : n = 0 := hAll.symm.trans hZero
      funext j
      show (readData fs inode pos buf n).2 j = _
      rw [hBuf j, if_neg (by omega)]
  · rcases hFile.readData_past buf hPos (Nat.lt_of_not_ge hn) with
      ⟨_, _, hRead⟩ | ⟨_, hMore⟩
    · simp [r, ReadResult.bytes, hRead]
    · omega

/-- A read whose count is right moves the position by what was asked for, up
to the end of the file. -/
theorem RegularFile.fileRead_pos {fs : FileSys} {files : FileArray} {fd n : Nat}
    {buf : Buffer} (hFile : RegularFile fs (files fd).inode)
    (hPos : (files fd).pos ≤ getInodeLen fs (files fd).inode)
    (hCount : (fileRead fs files fd buf n).1 =
      min n (getInodeLen fs (files fd).inode - (files fd).pos)) :
    ((fileRead fs files fd buf n).2.2 fd).pos =
        (files fd).pos + (fileRead fs files fd buf n).1 ∧
      (files fd).pos + (fileRead fs files fd buf n).1 =
        min (getInodeLen fs (files fd).inode) ((files fd).pos + n) := by
  have hLength := hFile.length_le
  have hSum : (files fd).pos + (fileRead fs files fd buf n).1 < 2 ^ 32 := by
    simp only [blockSize] at hLength
    omega
  constructor
  · simp only [fileRead, Function.update_self] at hSum ⊢
    exact u32_of_lt hSum
  · omega

private theorem fileRead_inode (fs : FileSys) (files : FileArray) (fd n : Nat)
    (buf : Buffer) :
    ((fileRead fs files fd buf n).2.2 fd).inode = (files fd).inode := by
  simp [fileRead]

/-- What a descriptor at a position inside the file reads. -/
theorem RegularFile.readMany_iff {fs : FileSys} {inode fd : Nat}
    (hFile : RegularFile fs inode) :
    ∀ (reqs : List ReadRequest) (files : FileArray),
      (files fd).inode = inode → (files fd).pos ≤ getInodeLen fs inode →
      (ReadContract (fileContent fs inode) (files fd).pos reqs
          (readMany fs fd files reqs) ↔
        StaysInside fs inode (files fd).pos (reqs.map ReadRequest.nbytes)) := by
  intro reqs
  induction reqs with
  | nil =>
      intro files _ _
      exact ⟨fun _ => trivial, fun _ => ReadContract.nil _ _⟩
  | cons req reqs ih =>
      intro files hInode hPos
      subst hInode
      have hIff := hFile.read_iff req.buf hPos req.nbytes
      have hTail : (fileRead fs files fd req.buf req.nbytes).1 =
            min req.nbytes (getInodeLen fs (files fd).inode - (files fd).pos) →
          (ReadContract (fileContent fs (files fd).inode)
              ((files fd).pos + (fileRead fs files fd req.buf req.nbytes).1) reqs
              (readMany fs fd (fileRead fs files fd req.buf
                req.nbytes).2.2 reqs) ↔
            StaysInside fs (files fd).inode
              (min (getInodeLen fs (files fd).inode)
                ((files fd).pos + req.nbytes))
              (reqs.map ReadRequest.nbytes)) := by
        intro hCount
        obtain ⟨hMoved, hEnd⟩ := hFile.fileRead_pos hPos hCount
        have hStep := ih (fileRead fs files fd req.buf req.nbytes).2.2
          (fileRead_inode fs files fd req.nbytes req.buf)
          (by rw [hMoved, hEnd]; exact Nat.min_le_left _ _)
        rw [hMoved] at hStep
        rw [hStep, hEnd]
      constructor
      · intro hContract
        have hHead := hContract.head
        rw [fileContent_length] at hHead
        exact ⟨hIff.1 hHead, (hTail hHead).1 hContract.tail⟩
      · rintro ⟨hFits, hRest⟩
        have hHead := hIff.2 hFits
        obtain ⟨hBytes, hKept⟩ := hFile.read_bytes req.buf hPos hHead
        refine ReadContract.cons ?_ hBytes hKept ((hTail hHead).2 hRest)
        rw [fileContent_length]
        exact hHead

/--
**Reading a regular file.**  On a well-formed image, on a descriptor opened on
a regular file, a sequence of reads is as it should be exactly when no read
asks for more than is left of the file (or does so at a guarded end).
-/
theorem read_contract {fs : FileSys} (hImage : WellFormed fs)
    {files files' : FileArray} {fname : CString} {dentry : Dentry} {fd : Nat}
    (hFound : readDentryByName fs fname = some dentry)
    (hRegular : dentry.ftype = 2)
    (hOpen : fileOpen fs files fname = some (fd, files'))
    (reqs : List ReadRequest) :
    ReadContract (fileContent fs dentry.inodeNum) 0 reqs
        (readMany fs fd files' reqs) ↔
      StaysInside fs dentry.inodeNum 0 (reqs.map ReadRequest.nbytes) := by
  obtain ⟨hInode, hPos⟩ := fileOpen_spec hFound hOpen
  have hFile := hImage.regularFile hFound hRegular
  have hMany := hFile.readMany_iff reqs files' hInode
    (by rw [hPos]; exact Nat.zero_le _)
  rwa [hPos] at hMany

/-! ### A three-byte file -/

/-- An image with one file, `"a"`, inode 0, that holds the three bytes `"xyz"`. -/
def tinyImage : FileSys where
  filesysAddr := 0x500000
  memory := fun addr =>
    match addr - 0x500000 with
    | 0 => 1
    | 4 => 1
    | 8 => 1
    | 64 => 0x61
    | 96 => 2
    | 4096 => 3
    | 8192 => 0x78
    | 8193 => 0x79
    | 8194 => 0x7a
    | _ => 0

/-- The descriptors of a process that has opened nothing. -/
def freshFiles : FileArray := fun fd =>
  { optbl := if fd < 2 then .stdio else .null, inode := 0, pos := 0
    inUse := decide (fd < 2) }

theorem tinyImage_wellFormed : WellFormed tinyImage where
  entries := by decide +kernel
  files := by
    intro i hi _
    have hFirst : i = 0 := by
      have : getNumDirEntries tinyImage = 1 := by decide +kernel
      omega
    subst hFirst
    refine { aligned := ?_, fits := ?_, inode_lt := ?_, length_le := ?_,
             block_lt := ?_ }
    · decide +kernel
    · decide +kernel
    · decide +kernel
    · decide +kernel
    · intro k hk
      have hLength : getInodeLen tinyImage
          (tinyImage.wordAt (dentryAddr tinyImage 0 + 36)) = 3 := by
        decide +kernel
      have hZero : k = 0 := by
        rw [hLength] at hk
        simp only [blockSize] at hk
        omega
      subst hZero
      decide +kernel

theorem tinyImage_found : readDentryByName tinyImage [0x61#8] =
    some { fname := [0x61#8], ftype := 2, inodeNum := 0 } := by
  decide +kernel

private theorem tinyImage_open : fileOpen tinyImage freshFiles [0x61#8] =
    some (2, Function.update freshFiles 2
      { optbl := .regfile, inode := 0, pos := 0, inUse := true }) := by
  unfold fileOpen
  rw [tinyImage_found]
  rfl

/-- Reads of two, one and no bytes follow the contract. -/
theorem read_contract_tinyFile :
    ReadContract (fileContent tinyImage 0) 0
      [⟨fun _ => 0, 2⟩, ⟨fun _ => 0, 1⟩, ⟨fun _ => 0, 0⟩]
      (readMany tinyImage 2 (Function.update freshFiles 2
          { optbl := .regfile, inode := 0, pos := 0, inUse := true })
        [⟨fun _ => 0, 2⟩, ⟨fun _ => 0, 1⟩, ⟨fun _ => 0, 0⟩]) :=
  (read_contract tinyImage_wellFormed tinyImage_found rfl tinyImage_open
    [⟨fun _ => 0, 2⟩, ⟨fun _ => 0, 1⟩, ⟨fun _ => 0, 0⟩]).2 (by decide +kernel)

/-- A read of ten bytes from the file of three returns four. -/
theorem tinyFile_overread :
    WellFormed tinyImage ∧
    readDentryByName tinyImage [0x61#8] =
      some { fname := [0x61#8], ftype := 2, inodeNum := 0 } ∧
    fileOpen tinyImage freshFiles [0x61#8] =
      some (2, Function.update freshFiles 2
        { optbl := .regfile, inode := 0, pos := 0, inUse := true }) ∧
    (readMany tinyImage 2 (Function.update freshFiles 2
        { optbl := .regfile, inode := 0, pos := 0, inUse := true })
      [⟨fun _ => 0, 10⟩]).map ReadResult.count = [4] ∧
    ¬ ReadContract (fileContent tinyImage 0) 0 [⟨fun _ => 0, 10⟩]
      (readMany tinyImage 2 (Function.update freshFiles 2
          { optbl := .regfile, inode := 0, pos := 0, inUse := true })
        [⟨fun _ => 0, 10⟩]) := by
  refine ⟨tinyImage_wellFormed, tinyImage_found, tinyImage_open,
    by decide +kernel, ?_⟩
  intro hContract
  have hHead := hContract.head
  revert hHead
  decide +kernel

end CompE.Kernel
