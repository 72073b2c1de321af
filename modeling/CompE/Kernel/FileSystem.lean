import Mathlib.Algebra.Ring.Nat
import Mathlib.Logic.Function.Basic

/-!
# The read-only file system

`filesys.c` reads a file-system image that the boot loader left in memory:
a boot block (the counts and the directory entries), one 4 KB block for each
inode, then the data blocks.  Every access goes through a 32-bit address
computed from `filesys_addr`, so the image here is a whole memory with a base
address, addresses wrap at `2 ^ 32`, and nothing is assumed of its contents.

`read_data` is a byte loop: its body is `readStep`, which gives `none` where
the source returns from inside the loop.
-/

namespace CompE.Kernel

abbrev Byte := BitVec 8

/-- A C string without its terminator: no byte of it is `'\0'`. -/
abbrev CString := List Byte

/-- The memory that a `uint8_t*` points into, by index. -/
abbrev Buffer := Nat → Byte

/-- A value kept in a `uint32_t`. -/
def u32 (n : Nat) : Nat := n % 2 ^ 32

theorem u32_of_lt {n : Nat} (h : n < 2 ^ 32) : u32 n = n := Nat.mod_eq_of_lt h

def blockSize : Nat := 4096
def maxFnameSize : Nat := 32
def dentrySize : Nat := 0x40

/-- Memory, and the address that `init_dir` was given. -/
structure FileSys where
  memory : Nat → Byte
  filesysAddr : Nat

/-- `*(uint8_t*)addr`. -/
def FileSys.byteAt (fs : FileSys) (addr : Nat) : Byte := fs.memory (u32 addr)

/-- `*(uint32_t*)addr`, little endian. -/
def FileSys.wordAt (fs : FileSys) (addr : Nat) : Nat :=
  (fs.byteAt addr).toNat + 2 ^ 8 * (fs.byteAt (addr + 1)).toNat +
    2 ^ 16 * (fs.byteAt (addr + 2)).toNat +
    2 ^ 24 * (fs.byteAt (addr + 3)).toNat

/-! ## Boot block and inodes -/

/-- The number of directory entries. -/
def getNumDirEntries (fs : FileSys) : Nat := fs.wordAt fs.filesysAddr

def getNumInodes (fs : FileSys) : Nat := fs.wordAt (fs.filesysAddr + 4)

def getNumDataBlocks (fs : FileSys) : Nat := fs.wordAt (fs.filesysAddr + 8)

/-- The address of an `inode_t`. -/
def inodePtr (fs : FileSys) (inode : Nat) : Nat :=
  u32 (fs.filesysAddr + inode * blockSize + blockSize)

/-- `inodeptr->length`. -/
def inodeLength (fs : FileSys) (inodeptr : Nat) : Nat := fs.wordAt inodeptr

/-- `inodeptr->data_blocks[idxOffset]`.  The index is not checked: 1023 reads
the word behind the inode. -/
def dataBlocks (fs : FileSys) (inodeptr idxOffset : Nat) : Nat :=
  fs.wordAt (inodeptr + 4 + 4 * idxOffset)

/-- `get_data_block`: the address of a data block of an inode. -/
def getDataBlock (fs : FileSys) (idxOffset inodeptr : Nat) : Nat :=
  u32 (fs.filesysAddr + blockSize + getNumInodes fs * blockSize +
    dataBlocks fs inodeptr idxOffset * blockSize)

/-- `get_inode_len`. -/
def getInodeLen (fs : FileSys) (inode : Nat) : Nat :=
  inodeLength fs (inodePtr fs inode)

/-! ## Directory lookup -/

/-- A directory entry, as far as the callers of the lookup read it. -/
structure Dentry where
  fname : CString
  ftype : Nat
  inodeNum : Nat
  deriving DecidableEq, Repr

/-- Character `i` of a C string; the terminator stands behind the last one. -/
def charAt (s : CString) (i : Nat) : Byte := s.getD i 0#8

/-- `strncmp`, from character `i` on for `n` more characters. -/
def strncmpFrom (s1 s2 : Nat → Byte) : Nat → Nat → Int
  | _, 0 => 0
  | i, n + 1 =>
      if s1 i ≠ s2 i ∨ s1 i = 0#8 then (s1 i).toInt - (s2 i).toInt
      else strncmpFrom s1 s2 (i + 1) n

def strncmp (s1 s2 : Nat → Byte) (n : Nat) : Int := strncmpFrom s1 s2 0 n

/-- The address of directory entry `i`. -/
def dentryAddr (fs : FileSys) (i : Nat) : Nat :=
  fs.filesysAddr + 64 + i * dentrySize

/-- The loop of `read_dentry_by_name`: the entries from `i` on, `n` of them. -/
def findDentry (fs : FileSys) (fname : CString) : Nat → Nat → Option Dentry
  | _, 0 => none
  | i, n + 1 =>
      let temp := dentryAddr fs i
      if strncmp (fun k => fs.byteAt (temp + k)) (charAt fname) 32 = 0 then
        some { fname := fname
               ftype := fs.wordAt (temp + 32)
               inodeNum := fs.wordAt (temp + 36) }
      else findDentry fs fname (i + 1) n

/-- `read_dentry_by_name`; `none` for the return value -1. -/
def readDentryByName (fs : FileSys) (fname : CString) : Option Dentry :=
  if fname.length > maxFnameSize then none
  else findDentry fs fname 0 (getNumDirEntries fs)

/-! ## `read_data` -/

/-- The locals of `read_data` that change in its loop, and the buffer. -/
structure ReadState where
  i : Nat
  byteOffset : Nat
  indexOffset : Nat
  bytesRead : Nat
  startFlag : Bool
  buf : Buffer

/-- The locals before the loop. -/
def readStart (offset : Nat) (buf : Buffer) : ReadState where
  i := 0
  byteOffset := offset % blockSize
  indexOffset := offset / blockSize
  bytesRead := 0
  startFlag := false
  buf := buf

/-- Which data block we go into: the block index and the offset in it of the
byte this pass reads. -/
def advance (fs : FileSys) (inodeptr : Nat) (s : ReadState) : Nat × Nat :=
  if u32 (getDataBlock fs s.indexOffset inodeptr + s.byteOffset)
      % blockSize = 0 ∧ s.startFlag = true then
    (s.indexOffset + 1, 0)
  else (s.indexOffset, s.byteOffset)

/-- One pass through the loop body; `none` where it returns.  The end-of-file
test compares with `>`: the byte at the length is read. -/
def readStep (fs : FileSys) (inodeptr offset : Nat) (s : ReadState) :
    Option ReadState :=
  if u32 (s.bytesRead + offset) > inodeLength fs inodeptr then none
  else if dataBlocks fs inodeptr s.indexOffset > getNumDataBlocks fs then none
  else
    let place := advance fs inodeptr s
    some
      { i := s.i + 1
        byteOffset := place.2 + 1
        indexOffset := place.1
        bytesRead := s.bytesRead + 1
        startFlag := true
        buf := Function.update s.buf s.i
          (fs.byteAt (getDataBlock fs place.1 inodeptr + place.2)) }

/-- The loop, for at most the given number of passes. -/
def readLoop (fs : FileSys) (inodeptr offset : Nat) :
    Nat → ReadState → ReadState
  | 0, s => s
  | n + 1, s =>
      match readStep fs inodeptr offset s with
      | none => s
      | some s' => readLoop fs inodeptr offset n s'

/-- `read_data`: the number of bytes read and the buffer afterwards. -/
def readData (fs : FileSys) (inode offset : Nat) (buf : Buffer)
    (length : Nat) : Nat × Buffer :=
  if inode > getNumInodes fs then (0, buf)
  else
    let s := readLoop fs (inodePtr fs inode) offset length (readStart offset buf)
    (s.bytesRead, s.buf)

/-! ### What a pass keeps -/

/-- The loop index and the byte count agree. -/
theorem readStep_counts {fs : FileSys} {inodeptr offset : Nat}
    {s s' : ReadState} (hStep : readStep fs inodeptr offset s = some s') :
    s'.i = s.i + 1 ∧ s'.bytesRead = s.bytesRead + 1 ∧ s'.startFlag = true := by
  unfold readStep at hStep
  split at hStep
  · contradiction
  · split at hStep
    · contradiction
    · injection hStep with hStep
      subst hStep
      exact ⟨rfl, rfl, rfl⟩

end CompE.Kernel
