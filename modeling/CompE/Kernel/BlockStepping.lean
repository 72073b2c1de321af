import CompE.Kernel.FileSystem

/-!
# Block stepping in `read_data`

`read_data` keeps no count of the bytes that are left of a block.  It moves on
when the address of the next byte is a multiple of the block size, and a flag
keeps it from doing so before the first byte.  This is right for an image at an
aligned address, whatever the image holds: `readData_blocks`.
-/

namespace CompE.Kernel

/-- Byte `p` of a file as its block table names it. -/
def tableByte (fs : FileSys) (inodeptr p : Nat) : Byte :=
  fs.byteAt (getDataBlock fs (p / blockSize) inodeptr + p % blockSize)

variable {fs : FileSys}

/-- The test for the end of a block sees the load address only. -/
theorem getDataBlock_mod (fs : FileSys) (idx inodeptr off : Nat) :
    u32 (getDataBlock fs idx inodeptr + off) % blockSize =
      (fs.filesysAddr + off) % blockSize := by
  simp only [u32, getDataBlock, blockSize]
  omega

/-- Data blocks are aligned with the image. -/
theorem getDataBlock_aligned (hAligned : fs.filesysAddr % blockSize = 0)
    (idx inodeptr off : Nat) :
    u32 (getDataBlock fs idx inodeptr + off) % blockSize = off % blockSize := by
  rw [getDataBlock_mod, Nat.add_mod, hAligned, Nat.zero_add, Nat.mod_mod]

/-- Where the loop stands when byte `p` is next.  Before the first byte the
offset is below the block size; after a byte it may be the block size, as the move
to the next block is made at the start of a pass. -/
structure NextByte (s : ReadState) (p : Nat) : Prop where
  place : s.indexOffset * blockSize + s.byteOffset = p
  first : s.startFlag = false → s.byteOffset < blockSize
  later : s.startFlag = true → 0 < s.byteOffset ∧ s.byteOffset ≤ blockSize

theorem readStart_nextByte (offset : Nat) (buf : Buffer) :
    NextByte (readStart offset buf) offset where
  place := by
    show offset / blockSize * blockSize + offset % blockSize = offset
    rw [Nat.mul_comm]
    exact Nat.div_add_mod _ _
  first := fun _ => Nat.mod_lt _ (by decide)
  later := by
    intro hStarted
    exact absurd hStarted Bool.false_ne_true

/-- The move to the next block is made exactly when the block is used up. -/
theorem NextByte.advance_eq {s : ReadState} {p : Nat} (h : NextByte s p)
    (hAligned : fs.filesysAddr % blockSize = 0) (inodeptr : Nat) :
    advance fs inodeptr s = (p / blockSize, p % blockSize) := by
  have hPlace := h.place
  unfold advance
  rw [getDataBlock_aligned hAligned]
  cases hStarted : s.startFlag with
  | false =>
      have hOff := h.first hStarted
      rw [if_neg (fun hBoth => Bool.false_ne_true hBoth.2), Prod.mk.injEq]
      simp only [blockSize] at hPlace hOff ⊢
      omega
  | true =>
      have hOff := h.later hStarted
      by_cases hUsedUp : s.byteOffset % blockSize = 0
      · rw [if_pos ⟨hUsedUp, rfl⟩, Prod.mk.injEq]
        simp only [blockSize] at hPlace hOff hUsedUp ⊢
        omega
      · rw [if_neg (fun hBoth => hUsedUp hBoth.1), Prod.mk.injEq]
        simp only [blockSize] at hPlace hOff hUsedUp ⊢
        omega

/-- A pass that reads: the byte that is next goes to the buffer. -/
theorem NextByte.step {s s' : ReadState} {p inodeptr offset : Nat}
    (h : NextByte s p) (hAligned : fs.filesysAddr % blockSize = 0)
    (hStep : readStep fs inodeptr offset s = some s') :
    NextByte s' (p + 1) ∧
      s'.buf = Function.update s.buf s.i (tableByte fs inodeptr p) := by
  have hAdvance := h.advance_eq hAligned inodeptr
  have hOff : p % blockSize < blockSize := Nat.mod_lt _ (by decide)
  unfold readStep at hStep
  split at hStep
  · contradiction
  · split at hStep
    · contradiction
    · injection hStep with hStep
      subst hStep
      simp only [hAdvance]
      refine ⟨⟨?_, ?_, ?_⟩, rfl⟩
      · show p / blockSize * blockSize + (p % blockSize + 1) = p + 1
        rw [← Nat.add_assoc, Nat.mul_comm, Nat.div_add_mod]
      · intro hFirst
        exact absurd hFirst.symm Bool.false_ne_true
      · intro _
        exact ⟨Nat.succ_pos _, hOff⟩

/-! ## The loop -/

/-- Between two passes: the bytes read are those of the block table from `offset`
on, and the rest of the buffer is as it was. -/
structure Filled (fs : FileSys) (inodeptr offset : Nat) (buf : Buffer)
    (s : ReadState) : Prop where
  count : s.bytesRead = s.i
  next : NextByte s (offset + s.i)
  bytes : ∀ j, j < s.i → s.buf j = tableByte fs inodeptr (offset + j)
  rest : ∀ j, s.i ≤ j → s.buf j = buf j

theorem readStart_filled (fs : FileSys) (inodeptr offset : Nat) (buf : Buffer) :
    Filled fs inodeptr offset buf (readStart offset buf) where
  count := rfl
  next := readStart_nextByte offset buf
  bytes := by
    intro j hj
    exact absurd hj (Nat.not_lt_zero j)
  rest := fun _ _ => rfl

theorem Filled.step {s s' : ReadState} {inodeptr offset : Nat} {buf : Buffer}
    (h : Filled fs inodeptr offset buf s)
    (hAligned : fs.filesysAddr % blockSize = 0)
    (hStep : readStep fs inodeptr offset s = some s') :
    Filled fs inodeptr offset buf s' := by
  obtain ⟨hIndex, hCount, _⟩ := readStep_counts hStep
  obtain ⟨hNext, hBuf⟩ := h.next.step hAligned hStep
  refine ⟨by rw [hCount, hIndex, h.count], by rw [hIndex]; exact hNext, ?_, ?_⟩
  · intro j hj
    rw [hBuf]
    by_cases hLast : j = s.i
    · rw [hLast, Function.update_self]
    · rw [Function.update_of_ne hLast]
      exact h.bytes j (by omega)
  · intro j hj
    rw [hBuf, Function.update_of_ne (by omega)]
    exact h.rest j (by omega)

theorem Filled.loop {inodeptr offset : Nat} {buf : Buffer}
    (hAligned : fs.filesysAddr % blockSize = 0) (n : Nat) :
    ∀ s, Filled fs inodeptr offset buf s →
      Filled fs inodeptr offset buf (readLoop fs inodeptr offset n s) := by
  induction n with
  | zero => intro s h; exact h
  | succ n ih =>
      intro s h
      rw [readLoop]
      cases hStep : readStep fs inodeptr offset s with
      | none => exact h
      | some s' => exact ih s' (h.step hAligned hStep)

/--
**Block stepping.**  For an image at an aligned address, every byte below the
returned count is the one that the block table of the inode names, at its offset in
the block, and the buffer from the count on is not written.
-/
theorem readData_blocks (hAligned : fs.filesysAddr % blockSize = 0)
    (inode offset : Nat) (buf : Buffer) (length : Nat) :
    (∀ i, i < (readData fs inode offset buf length).1 →
      (readData fs inode offset buf length).2 i =
        fs.byteAt (getDataBlock fs ((offset + i) / blockSize) (inodePtr fs inode) +
          (offset + i) % blockSize)) ∧
    ∀ i, (readData fs inode offset buf length).1 ≤ i →
      (readData fs inode offset buf length).2 i = buf i := by
  unfold readData
  split
  · exact ⟨fun i hi => absurd hi (Nat.not_lt_zero i), fun _ _ => rfl⟩
  · have hFilled := Filled.loop hAligned length _
      (readStart_filled fs (inodePtr fs inode) offset buf)
    refine ⟨?_, ?_⟩
    · intro i hi
      exact hFilled.bytes i (by rw [← hFilled.count]; exact hi)
    · intro i hi
      exact hFilled.rest i (by rw [← hFilled.count]; exact hi)

/-- An image with one inode, a file of 5000 bytes, and two data blocks: its table
lists block 1 and then block 0. -/
def twoBlockImage : FileSys where
  filesysAddr := 0x500000
  memory := fun addr =>
    match addr - 0x500000 with
    | 4 => 1
    | 8 => 2
    | 4096 => 0x88
    | 4097 => 0x13
    | 4100 => 1
    | 16383 => 0x78
    | 8192 => 0x79
    | _ => 0

/-- A read of the last byte of the first block and the first byte of the next. -/
theorem readData_blocks_crossing :
    let r := readData twoBlockImage 0 4095 (fun _ => 0) 2
    r.1 = 2 ∧ r.2 0 = 0x78 ∧ r.2 1 = 0x79 ∧
      (∀ i, i < r.1 → r.2 i =
        twoBlockImage.byteAt
          (getDataBlock twoBlockImage ((4095 + i) / blockSize)
            (inodePtr twoBlockImage 0) + (4095 + i) % blockSize)) ∧
      ∀ i, r.1 ≤ i → r.2 i = 0 :=
  ⟨by decide +kernel, by decide +kernel, by decide +kernel,
    readData_blocks (by decide) 0 4095 (fun _ => 0) 2⟩

end CompE.Kernel
