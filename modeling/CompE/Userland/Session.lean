import CompE.Kernel.Directory

/-!
# System calls as a user program sees them

A program of `syscalls/` works on the descriptors of its process, and what it
writes to descriptor 1 goes to the console.  `read` fills a buffer, `write`
takes bytes from one, and -1 is `none`.

A descriptor on a regular file delivers the content of the file and then one
byte more: the end-of-file test of `read_data` lets the byte at the length
through, unless the block behind a full last one has an impossible number and
the reads stop exactly there (`Reading.read`).
-/

namespace CompE.Userland

open CompE.Kernel

/-- The bytes from `buf` on. -/
def bytesOf (buf : Buffer) (n : Nat) : List Byte := (List.range n).map buf

/-- A buffer after some bytes have been put at its start. -/
def overwrite (buf : Buffer) (bytes : List Byte) : Buffer := fun i =>
  if i < bytes.length then charAt bytes i else buf i

@[simp] theorem bytesOf_length (buf : Buffer) (n : Nat) :
    (bytesOf buf n).length = n := by
  simp [bytesOf]

theorem bytesOf_overwrite (buf : Buffer) (bytes : List Byte) :
    bytesOf (overwrite buf bytes) bytes.length = bytes := by
  apply List.ext_getElem
  · simp
  · intro i h1 h2
    simp [bytesOf, overwrite, charAt, h2]

theorem bytesOf_congr {buf buf' : Buffer} {n : Nat}
    (h : ∀ i, i < n → buf i = buf' i) : bytesOf buf n = bytesOf buf' n :=
  List.map_congr_left fun i hi => h i (List.mem_range.1 hi)

/-- The descriptors of the running program, and what it has printed. -/
structure Session where
  files : FileArray
  printed : List Byte

namespace Session

variable (fs : FileSys) (s : Session)

/-- `ece391_open`. -/
def openFile (filename : CString) : Option (Nat × Session) :=
  let r := sysOpen fs (some filename) s.files
  if r.1 = -1 then none else some (r.1.toNat, { s with files := r.2 })

/-- `ece391_read`: the number of bytes and the buffer.  The programs here read
nothing from the keyboard. -/
def read (fd : Nat) (buf : Buffer) (nbytes : Nat) :
    Option (Nat × Buffer × Session) :=
  match sysRead fs fd buf (BitVec.ofNat 32 nbytes) ⟨fun _ => 0#8, 0⟩ s.files with
  | none => none
  | some (r, files) =>
      if r.ret = -1 then none
      else some (r.ret.toNat, r.buf.getD buf, { s with files := files })

/-- `ece391_write (1, buf, nbytes)`. -/
def write (buf : Buffer) (nbytes : Nat) : Option Session :=
  match sysWrite 1 (some buf) (BitVec.ofNat 32 nbytes) s.files with
  | none => none
  | some ret =>
      if ret = -1 then none
      else some { s with printed := s.printed ++ bytesOf buf nbytes }

/-- `ece391_close`. -/
def close (fd : Nat) : Option Session :=
  match sysClose fd s.files with
  | none => none
  | some (ret, files) => if ret = -1 then none else some { s with files := files }

/-- `ece391_fdputs (1, s)`: the result of the write is ignored. -/
def fdputs (text : CString) : Session :=
  (s.write (charAt text) text.length).getD s

/-- The text has been printed. -/
def print (text : List Byte) : Session := { s with printed := s.printed ++ text }

@[simp] theorem print_files (text : List Byte) : (s.print text).files = s.files := rfl

@[simp] theorem print_nil : s.print [] = s := by
  simp [print]

theorem print_print (t t' : List Byte) : (s.print t).print t' = s.print (t ++ t') := by
  simp [print, List.append_assoc]

end Session

/-! ## The console -/

/-- Descriptor 1 is the console. -/
def Console (files : FileArray) : Prop :=
  (files 1).inUse = true ∧ (files 1).optbl = .stdio

instance (files : FileArray) : Decidable (Console files) :=
  inferInstanceAs (Decidable (_ ∧ _))

theorem Console.update {files : FileArray} (h : Console files) {fd : Nat}
    (hFd : fd ≠ 1) (d : FileDesc) : Console (Function.update files fd d) := by
  rwa [Console, Function.update_of_ne (Ne.symm hFd)]

/-- The console takes up to 2 GiB at once. -/
theorem Session.write_console {s : Session} (h : Console s.files) (buf : Buffer)
    {n : Nat} (hSize : n < 2 ^ 31) :
    s.write buf n = some (s.print (bytesOf buf n)) := by
  have hRet : (BitVec.ofNat 32 n).toInt = n := by
    rw [BitVec.toInt_eq_toNat_of_lt, BitVec.toNat_ofNat, Nat.mod_eq_of_lt]
    · omega
    · rw [BitVec.toNat_ofNat, Nat.mod_eq_of_lt (by omega)]
      omega
  have hSome : sysWrite 1 (some buf) (BitVec.ofNat 32 n) s.files =
      some (n : Int) := by
    rw [sysWrite, if_neg (by simp [h.1]), h.2, FileOps.write, consoleWriteW,
      if_neg (by simp), if_neg (by simp), hRet]
  rw [Session.write, hSome]
  exact if_neg (by omega)

theorem Session.fdputs_console {s : Session} (h : Console s.files)
    {text : CString} (hSize : text.length < 2 ^ 31) :
    s.fdputs text = s.print text := by
  have hText : bytesOf (charAt text) text.length = text := by
    rw [bytesOf, map_charAt (Nat.le_refl _)]
    simp
  rw [Session.fdputs, Session.write_console h _ hSize, hText]
  rfl

/-! ## Regular files -/

/-- How many bytes reading a regular file to its end delivers. -/
def deliveredLength (fs : FileSys) (inode : Nat) : Nat :=
  if EndGuarded fs inode then getInodeLen fs inode else getInodeLen fs inode + 1

/-- What reading a regular file to its end delivers. -/
def delivered (fs : FileSys) (inode : Nat) : List Byte :=
  (List.range (deliveredLength fs inode)).map (tableByte fs (inodePtr fs inode))

@[simp] theorem delivered_length (fs : FileSys) (inode : Nat) :
    (delivered fs inode).length = deliveredLength fs inode := by
  simp [delivered]

/-- The content, and the byte behind it. -/
theorem delivered_eq {fs : FileSys} {inode : Nat} (hFile : RegularFile fs inode) :
    delivered fs inode = fileContent fs inode ++
      if EndGuarded fs inode then []
      else [tableByte fs (inodePtr fs inode) (getInodeLen fs inode)] := by
  have hContent : (List.range (getInodeLen fs inode)).map
      (tableByte fs (inodePtr fs inode)) = fileContent fs inode := by
    apply List.map_congr_left
    intro p hp
    exact hFile.byteAt_block (List.mem_range.1 hp)
  rw [delivered, deliveredLength]
  split
  · rw [hContent, List.append_nil]
  · rw [List.range_succ, List.map_append, hContent]
    rfl

/-- Descriptor `fd` is open on a regular file, with `rest` still to come. -/
structure Reading (fs : FileSys) (files : FileArray) (fd : Nat)
    (rest : List Byte) : Prop where
  inUse : (files fd).inUse = true
  regular : (files fd).optbl = .regfile
  file : RegularFile fs (files fd).inode
  aligned : EndGuarded fs (files fd).inode → (files fd).pos % 1024 = 0
  pos_le : (files fd).pos ≤ deliveredLength fs (files fd).inode
  rest_eq : rest = (delivered fs (files fd).inode).drop (files fd).pos

section ReadData

variable {fs : FileSys} {inode pos n : Nat}

/-- How many bytes a read returns.  Reads of a guarded file are taken to stop
at its end. -/
theorem readData_count (hFile : RegularFile fs inode)
    (hPos : pos ≤ deliveredLength fs inode) (buf : Buffer)
    (hStop : EndGuarded fs inode → pos < getInodeLen fs inode →
      n ≤ getInodeLen fs inode - pos) :
    (readData fs inode pos buf n).1 = min n (deliveredLength fs inode - pos) := by
  by_cases hInside : pos ≤ getInodeLen fs inode
  · by_cases hn : n ≤ getInodeLen fs inode - pos
    · rw [(hFile.readData_inside buf hn).1, deliveredLength]
      split <;> omega
    · rcases hFile.readData_past buf hInside (Nat.lt_of_not_ge hn) with
        ⟨hEnd, hGuard, hRead⟩ | ⟨hNot, hCount⟩
      · rw [hRead, deliveredLength, if_pos hGuard]
        show 0 = _
        omega
      · have hOpen : ¬ EndGuarded fs inode := by
          intro hGuard
          have hBelow : ¬ pos = getInodeLen fs inode := fun hEnd => hNot ⟨hEnd, hGuard⟩
          exact hn (hStop hGuard (by omega))
        rw [hCount, deliveredLength, if_neg hOpen]
        omega
  · have hLength := hFile.length_le
    have hOver : readStep fs (inodePtr fs inode) pos (readStart pos buf) = none := by
      rw [readStep, if_pos]
      show u32 (0 + pos) > getInodeLen fs inode
      have hSmall : pos ≤ getInodeLen fs inode + 1 := by
        rw [deliveredLength] at hPos
        split at hPos <;> omega
      rw [u32_of_lt (by simp only [blockSize] at hLength; omega)]
      omega
    have hInode : ¬ inode > getNumInodes fs := by have := hFile.inode_lt; omega
    rw [readData, if_neg hInode]
    simp only [readLoop_stopped hOver]
    show 0 = _
    rw [deliveredLength] at hPos ⊢
    split at hPos <;> split <;> omega

/-- The bytes a read puts into the buffer. -/
theorem readData_bytes (hFile : RegularFile fs inode)
    (hPos : pos ≤ deliveredLength fs inode) (buf : Buffer)
    (hStop : EndGuarded fs inode → pos < getInodeLen fs inode →
      n ≤ getInodeLen fs inode - pos) :
    (readData fs inode pos buf n).2 =
      overwrite buf (((delivered fs inode).drop pos).take n) := by
  have hCount := readData_count hFile hPos buf hStop
  have hInode : ¬ inode > getNumInodes fs := by have := hFile.inode_lt; omega
  have hFilled := Filled.loop hFile.aligned n _
    (readStart_filled fs (inodePtr fs inode) pos buf)
  have hLength : (((delivered fs inode).drop pos).take n).length =
      min n (deliveredLength fs inode - pos) := by
    simp
  rw [readData, if_neg hInode] at hCount ⊢
  simp only [hFilled.count] at hCount ⊢
  funext i
  rw [overwrite, hLength]
  split
  · rename_i hi
    rw [hFilled.bytes i (by omega), charAt, List.getD_eq_getElem?_getD,
      List.getElem?_take_of_lt (by omega), List.getElem?_drop, delivered,
      List.getElem?_map, List.getElem?_range (by omega)]
    rfl
  · exact hFilled.rest i (by omega)

end ReadData

section Reading

variable {fs : FileSys} {s : Session} {fd : Nat} {rest : List Byte}

/-- **A read of a regular file** delivers what is asked for, as long as there is
any of it.  A guarded file is read by whole kilobytes. -/
theorem Reading.read (h : Reading fs s.files fd rest) (buf : Buffer) {n : Nat}
    (hSize : n < 2 ^ 31) (hWhole : EndGuarded fs (s.files fd).inode → n = 1024) :
    ∃ pos, s.read fs fd buf n = some ((rest.take n).length,
        overwrite buf (rest.take n), { s with
          files := Function.update s.files fd { s.files fd with pos := pos } }) ∧
      Reading fs (Function.update s.files fd { s.files fd with pos := pos }) fd
        (rest.drop n) := by
  have hLength := h.file.length_le
  have hPos := h.pos_le
  have hMost : deliveredLength fs (s.files fd).inode ≤
      getInodeLen fs (s.files fd).inode + 1 := by
    rw [deliveredLength]
    split <;> omega
  have hStop : EndGuarded fs (s.files fd).inode →
      (s.files fd).pos < getInodeLen fs (s.files fd).inode →
      n ≤ getInodeLen fs (s.files fd).inode - (s.files fd).pos := by
    intro hGuard hBelow
    have hMultiple := hGuard.1
    have hAligned := h.aligned hGuard
    rw [hWhole hGuard]
    simp only [blockSize] at hMultiple
    omega
  have hSizeEq : (BitVec.ofNat 32 n).toNat = n := by
    rw [BitVec.toNat_ofNat, Nat.mod_eq_of_lt (by omega)]
  have hCount := readData_count h.file hPos buf hStop
  have hBytes := readData_bytes h.file hPos buf hStop
  have hTake : (rest.take n).length =
      min n (deliveredLength fs (s.files fd).inode - (s.files fd).pos) := by
    simp [h.rest_eq]
  have hCall : sysRead fs fd buf (BitVec.ofNat 32 n) ⟨fun _ => 0#8, 0⟩ s.files =
      some (⟨((readData fs (s.files fd).inode (s.files fd).pos buf n).1 : Int),
          some (readData fs (s.files fd).inode (s.files fd).pos buf n).2⟩,
        Function.update s.files fd { s.files fd with
          pos := u32 ((s.files fd).pos +
            (readData fs (s.files fd).inode (s.files fd).pos buf n).1) }) := by
    rw [sysRead, if_neg (by simp [h.inUse]), h.regular, FileOps.read, hSizeEq]
    rfl
  refine ⟨u32 ((s.files fd).pos +
    (readData fs (s.files fd).inode (s.files fd).pos buf n).1), ?_, ?_⟩
  · rw [Session.read, hCall]
    simp only
    rw [if_neg (by omega), Int.toNat_natCast, Option.getD_some, hBytes, hTake, hCount,
      h.rest_eq]
  · have hNext : u32 ((s.files fd).pos +
        (readData fs (s.files fd).inode (s.files fd).pos buf n).1) =
        min ((s.files fd).pos + n) (deliveredLength fs (s.files fd).inode) := by
      rw [hCount, u32_of_lt (by simp only [blockSize] at hLength; omega)]
      omega
    rw [hNext]
    constructor
    · simp [h.inUse]
    · simp [h.regular]
    · simpa using h.file
    · simp only [Function.update_self]
      intro hGuard
      have hAligned := h.aligned hGuard
      have hMultiple := hGuard.1
      have hn := hWhole hGuard
      simp only [blockSize] at hMultiple
      rw [deliveredLength, if_pos hGuard]
      omega
    · simp only [Function.update_self]
      omega
    · simp only [Function.update_self]
      rw [h.rest_eq, List.drop_drop]
      by_cases hMore :
          (s.files fd).pos + n ≤ deliveredLength fs (s.files fd).inode
      · rw [Nat.min_eq_left hMore]
      · rw [List.drop_eq_nil_of_le (by simp; omega),
          List.drop_eq_nil_of_le (by simp; omega)]

end Reading

end CompE.Userland
