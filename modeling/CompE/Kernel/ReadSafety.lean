import CompE.Kernel.FileRead

/-!
# Where `read_data` reads

`read_data` checks the inode number once, and in each pass the block number at
the index it comes in with.  Both checks compare with `>`, and the second is
made before the index moves on: the first byte of a new block is read through
a number that nothing has looked at, and no check bounds the index itself.

The loop is run here with a record of what it uses: the entries of the block
table and the data blocks of the bytes it copies.  Where byte `k` is read does
not depend on the content of the image (`tableIndex`, `blockOffset`), only on
where it was loaded, and from this `readData_inside_iff` says which calls stay
inside.
-/

namespace CompE.Kernel

/-! ## The record -/

/-- A use of the image: an entry of the block table of the inode, or a byte of
a data block. -/
inductive ImageUse where
  | table (idx : Nat)
  | copy (block off : Nat)
  deriving DecidableEq, Repr

/-- The block and the offset of a byte that is copied. -/
def ImageUse.source : ImageUse → Option (Nat × Nat)
  | .table _ => none
  | .copy block off => some (block, off)

/-- What one pass through the loop body uses: an entry for the check, one for
the test for the end of the block, one for the address of the byte. -/
def passUses (fs : FileSys) (inodeptr offset : Nat) (s : ReadState) :
    List ImageUse :=
  if u32 (s.bytesRead + offset) > inodeLength fs inodeptr then []
  else if dataBlocks fs inodeptr s.indexOffset > getNumDataBlocks fs then
    [.table s.indexOffset]
  else
    let place := advance fs inodeptr s
    [.table s.indexOffset, .table s.indexOffset, .table place.1,
      .copy (dataBlocks fs inodeptr place.1) place.2]

/-- What the loop uses, in at most the given number of passes. -/
def loopUses (fs : FileSys) (inodeptr offset : Nat) :
    Nat → ReadState → List ImageUse
  | 0, _ => []
  | n + 1, s =>
      passUses fs inodeptr offset s ++
        match readStep fs inodeptr offset s with
        | none => []
        | some s' => loopUses fs inodeptr offset n s'

/-- What a call of `read_data` uses. -/
def readUses (fs : FileSys) (inode offset : Nat) (buf : Buffer)
    (length : Nat) : List ImageUse :=
  if inode > getNumInodes fs then []
  else loopUses fs (inodePtr fs inode) offset length (readStart offset buf)

/-- The bytes that a call copies, in order. -/
def readCopies (fs : FileSys) (inode offset : Nat) (buf : Buffer)
    (length : Nat) : List (Nat × Nat) :=
  (readUses fs inode offset buf length).filterMap ImageUse.source

/-- The address of a byte of a data block. -/
def blockByte (fs : FileSys) (p : Nat × Nat) : Byte :=
  fs.byteAt (u32 (fs.filesysAddr + blockSize + getNumInodes fs * blockSize +
    p.1 * blockSize) + p.2)

/-- A call stays inside: the bytes come from an inode and from data blocks
that there are, the block table has 1023 entries, and the return value counts
the bytes.  (A byte with an offset from 4096 on is one of the next block.) -/
structure ReadsInside (fs : FileSys) (inode offset : Nat) (buf : Buffer)
    (length : Nat) : Prop where
  copied : ∀ block off, .copy block off ∈ readUses fs inode offset buf length →
    inode < getNumInodes fs ∧ block + off / blockSize < getNumDataBlocks fs
  indexed : ∀ idx, .table idx ∈ readUses fs inode offset buf length → idx < 1023
  count : (readData fs inode offset buf length).1 =
    (readCopies fs inode offset buf length).length

/-! ## The record is one of the loop -/

section Record

variable (fs : FileSys) (inodeptr offset : Nat)

/-- A pass either returns and copies nothing, or copies one byte. -/
theorem readStep_uses (s : ReadState) :
    (readStep fs inodeptr offset s = none ∧
      (passUses fs inodeptr offset s).filterMap ImageUse.source = []) ∨
    ∃ s' p, readStep fs inodeptr offset s = some s' ∧
      (passUses fs inodeptr offset s).filterMap ImageUse.source = [p] ∧
      s'.buf = Function.update s.buf s.i (blockByte fs p) := by
  unfold readStep passUses
  by_cases hEof : u32 (s.bytesRead + offset) > inodeLength fs inodeptr
  · simp only [if_pos hEof]
    exact Or.inl ⟨trivial, rfl⟩
  · by_cases hBlock : dataBlocks fs inodeptr s.indexOffset > getNumDataBlocks fs
    · simp only [if_neg hEof, if_pos hBlock]
      exact Or.inl ⟨trivial, rfl⟩
    · simp only [if_neg hEof, if_neg hBlock]
      exact Or.inr ⟨_, _, rfl, rfl, rfl⟩

/-- The bytes of the buffer behind the loop are the recorded ones. -/
theorem readLoop_copies (n : Nat) : ∀ s : ReadState, s.i = s.bytesRead →
    let copies := (loopUses fs inodeptr offset n s).filterMap ImageUse.source
    let s' := readLoop fs inodeptr offset n s
    s'.bytesRead = s.bytesRead + copies.length ∧
    (∀ j (h : j < copies.length),
      s'.buf (s.bytesRead + j) = blockByte fs copies[j]) ∧
    ∀ j, j < s.bytesRead → s'.buf j = s.buf j := by
  induction n with
  | zero =>
      intro s _
      refine ⟨rfl, ?_, fun _ _ => rfl⟩
      intro j h
      exact absurd h (Nat.not_lt_zero j)
  | succ n ih =>
      intro s hCount
      rcases readStep_uses fs inodeptr offset s with
        ⟨hStep, hNone⟩ | ⟨s', p, hStep, hOne, hBuf⟩
      · simp only [loopUses, readLoop, hStep, List.append_nil, hNone]
        refine ⟨rfl, ?_, fun _ _ => trivial⟩
        intro j h
        exact absurd h (Nat.not_lt_zero j)
      · obtain ⟨hI, hRead, _⟩ := readStep_counts hStep
        obtain ⟨hLength, hBytes, hKept⟩ := ih s' (by omega)
        simp only [loopUses, readLoop, hStep, List.filterMap_append, hOne]
        refine ⟨?_, ?_, ?_⟩
        · rw [hLength, hRead, List.length_append, List.length_singleton]
          omega
        · intro j h
          cases j with
          | zero =>
              rw [Nat.add_zero, hKept _ (by omega), hBuf, ← hCount,
                Function.update_self]
              rfl
          | succ j =>
              have hLt : j < ((loopUses fs inodeptr offset n s').filterMap
                  ImageUse.source).length := by
                rw [List.length_append, List.length_singleton] at h
                omega
              have hRest := hBytes j hLt
              rw [hRead, Nat.add_assoc, Nat.add_comm 1 j] at hRest
              rw [hRest]
              rfl
        · intro j h
          rw [hKept j (by omega), hBuf, Function.update_of_ne (by omega)]

/-- What `read_data` returns and leaves in the buffer, by the record. -/
theorem readData_copies (fs : FileSys) (inode offset : Nat) (buf : Buffer)
    (length : Nat) :
    (readData fs inode offset buf length).1 =
      (readCopies fs inode offset buf length).length ∧
    ∀ j (h : j < (readCopies fs inode offset buf length).length),
      (readData fs inode offset buf length).2 j =
        blockByte fs (readCopies fs inode offset buf length)[j] := by
  unfold readData readCopies readUses
  by_cases hInode : inode > getNumInodes fs
  · simp only [if_pos hInode]
    refine ⟨rfl, ?_⟩
    intro j h
    exact absurd h (Nat.not_lt_zero j)
  · simp only [if_neg hInode]
    obtain ⟨hLength, hBytes, _⟩ := readLoop_copies fs
      (inodePtr fs inode) offset length
      (readStart offset buf) rfl
    have hZero : (readStart offset buf).bytesRead = 0 := rfl
    rw [hZero, Nat.zero_add] at hLength
    refine ⟨hLength, ?_⟩
    intro j h
    have hByte := hBytes j h
    rwa [hZero, Nat.zero_add] at hByte

end Record

/-! ## Where byte `k` is read -/

/-- The offset in a block at which the loop goes on to the next block: the end
of the block, when the image is page aligned. -/
def crossing (fs : FileSys) : Nat := blockSize - fs.filesysAddr % blockSize

/-- The number of bytes before the first move to another block. -/
def firstRun (fs : FileSys) (offset : Nat) : Nat :=
  if offset % blockSize < crossing fs then crossing fs - offset % blockSize
  else crossing fs + blockSize - offset % blockSize

/-- The entry of the block table through which byte `k` is read. -/
def tableIndex (fs : FileSys) (offset k : Nat) : Nat :=
  if k < firstRun fs offset then offset / blockSize
  else offset / blockSize + 1 + (k - firstRun fs offset) / crossing fs

/-- What is added to the address of that block. -/
def blockOffset (fs : FileSys) (offset k : Nat) : Nat :=
  if k < firstRun fs offset then offset % blockSize + k
  else (k - firstRun fs offset) % crossing fs

section Place

variable {fs : FileSys} {offset : Nat}

private theorem crossing_bounds (fs : FileSys) :
    0 < crossing fs ∧ crossing fs ≤ blockSize ∧
      crossing fs + fs.filesysAddr % blockSize = blockSize := by
  unfold crossing
  have hMod : fs.filesysAddr % blockSize < blockSize :=
    Nat.mod_lt _ (by decide)
  omega

private theorem firstRun_pos (fs : FileSys) (offset : Nat) : 0 < firstRun fs offset := by
  have hMod : offset % blockSize < blockSize := Nat.mod_lt _ (by decide)
  obtain ⟨hPos, _, _⟩ := crossing_bounds fs
  unfold firstRun
  split <;> omega

@[simp] theorem tableIndex_zero : tableIndex fs offset 0 = offset / blockSize :=
  if_pos (firstRun_pos fs offset)

@[simp] theorem blockOffset_zero : blockOffset fs offset 0 = offset % blockSize :=
  if_pos (firstRun_pos fs offset)

/-- Counting on by one, with quotient and remainder. -/
theorem succ_div_mod {n c : Nat} (hc : 0 < c) :
    (n % c + 1 = c ∧ (n + 1) / c = n / c + 1 ∧ (n + 1) % c = 0) ∨
    (n % c + 1 < c ∧ (n + 1) / c = n / c ∧ (n + 1) % c = n % c + 1) := by
  have hSplit := Nat.div_add_mod n c
  have hMod := Nat.mod_lt n hc
  have hNext : n + 1 = c * (n / c) + (n % c + 1) := by omega
  by_cases hEnd : n % c + 1 = c
  · left
    rw [hNext, Nat.mul_add_div hc, Nat.mul_add_mod, hEnd, Nat.div_self hc,
      Nat.mod_self]
    exact ⟨rfl, rfl, rfl⟩
  · right
    have hLt : n % c + 1 < c := by omega
    refine ⟨hLt, ?_, ?_⟩
    · calc (n + 1) / c = (c * (n / c) + (n % c + 1)) / c := by rw [← hNext]
        _ = n / c + (n % c + 1) / c := Nat.mul_add_div hc _ _
        _ = n / c := by rw [Nat.div_eq_of_lt hLt, Nat.add_zero]
    · calc (n + 1) % c = (c * (n / c) + (n % c + 1)) % c := by rw [← hNext]
        _ = (n % c + 1) % c := Nat.mul_add_mod ..
        _ = n % c + 1 := Nat.mod_eq_of_lt hLt

/-- The place of a byte is behind the place of the byte before, or at the start
of the next block. -/
theorem place_succ (fs : FileSys) (offset k : Nat) :
    (((fs.filesysAddr + (blockOffset fs offset k + 1)) % blockSize = 0 ∧
      tableIndex fs offset (k + 1) = tableIndex fs offset k + 1 ∧
      blockOffset fs offset (k + 1) = 0) ∨
    ((fs.filesysAddr + (blockOffset fs offset k + 1)) % blockSize ≠ 0 ∧
      tableIndex fs offset (k + 1) = tableIndex fs offset k ∧
      blockOffset fs offset (k + 1) = blockOffset fs offset k + 1)) := by
  obtain ⟨hPos, hLe, hSum⟩ := crossing_bounds fs
  have hOff : offset % blockSize < blockSize := Nat.mod_lt _ (by decide)
  have hRun : firstRun fs offset + offset % blockSize = crossing fs ∨
      (crossing fs ≤ offset % blockSize ∧
        firstRun fs offset + offset % blockSize = crossing fs + blockSize) := by
    unfold firstRun
    split <;> omega
  unfold tableIndex blockOffset
  generalize firstRun fs offset = m at hRun
  generalize crossing fs = c at *
  by_cases hFirst : k + 1 < m
  · rw [if_pos hFirst, if_pos (by omega), if_pos hFirst, if_pos (by omega)]
    right
    refine ⟨?_, rfl, by omega⟩
    simp only [blockSize] at *
    omega
  · by_cases hLast : k < m
    · have hk : k + 1 = m := by omega
      rw [if_neg hFirst, if_pos hLast, if_neg hFirst, if_pos hLast, hk,
        Nat.sub_self, Nat.zero_div, Nat.zero_mod]
      left
      refine ⟨?_, rfl, rfl⟩
      simp only [blockSize] at *
      omega
    · rw [if_neg hFirst, if_neg hLast, if_neg hFirst, if_neg hLast,
        show k + 1 - m = k - m + 1 by omega]
      have hMod := Nat.mod_lt (k - m) hPos
      rcases succ_div_mod (n := k - m) hPos with
        ⟨hEnd, hDiv, hRem⟩ | ⟨hLt, hDiv, hRem⟩
      · left
        refine ⟨?_, by omega, hRem⟩
        simp only [blockSize] at *
        omega
      · right
        refine ⟨?_, by omega, hRem⟩
        simp only [blockSize] at *
        omega

/-- The index keeps up with the position in the file. -/
theorem position_lt (fs : FileSys) (offset k : Nat) :
    offset + k < (tableIndex fs offset k + 3) * blockSize := by
  obtain ⟨hPos, hLe, _⟩ := crossing_bounds fs
  have hSplit := Nat.div_add_mod offset blockSize
  have hOff : offset % blockSize < blockSize := Nat.mod_lt _ (by decide)
  have hRun : firstRun fs offset + offset % blockSize ≤ 2 * blockSize := by
    unfold firstRun
    split <;> omega
  unfold tableIndex
  by_cases hk : k < firstRun fs offset
  · rw [if_pos hk]
    simp only [blockSize] at *
    omega
  · rw [if_neg hk]
    have hRest := Nat.div_add_mod (k - firstRun fs offset) (crossing fs)
    have hRem := Nat.mod_lt (k - firstRun fs offset) hPos
    have hBlocks : crossing fs * ((k - firstRun fs offset) / crossing fs) ≤
        blockSize * ((k - firstRun fs offset) / crossing fs) :=
      Nat.mul_le_mul_right _ hLe
    simp only [blockSize] at *
    omega

end Place

/-! ## The passes of a call -/

section Passes

variable {fs : FileSys} {inode offset : Nat}

/-- The state at the start of pass `k`, when every pass before it read a
byte. -/
structure AtPass (fs : FileSys) (offset k : Nat) (s : ReadState) : Prop where
  bytesRead : s.bytesRead = k
  started : s.startFlag = decide (0 < k)
  first : k = 0 → s.indexOffset = tableIndex fs offset 0 ∧
    s.byteOffset = blockOffset fs offset 0
  later : ∀ j, k = j + 1 → s.indexOffset = tableIndex fs offset j ∧
    s.byteOffset = blockOffset fs offset j + 1

private theorem atPass_start (fs : FileSys) (offset : Nat) (buf : Buffer) :
    AtPass fs offset 0 (readStart offset buf) where
  bytesRead := rfl
  started := rfl
  first := fun _ => by simp [readStart]
  later := by intro j h; omega

/-- A pass that reads a byte reads byte `k`. -/
theorem AtPass.advance_eq {k : Nat} {s : ReadState} (h : AtPass fs offset k s)
    (inodeptr : Nat) :
    advance fs inodeptr s = (tableIndex fs offset k, blockOffset fs offset k) := by
  unfold advance
  rw [getDataBlock_mod, h.started]
  cases k with
  | zero =>
      obtain ⟨hIndex, hByte⟩ := h.first rfl
      rw [if_neg (by simp), hIndex, hByte]
  | succ j =>
      obtain ⟨hIndex, hByte⟩ := h.later j rfl
      rw [hIndex, hByte]
      rcases place_succ fs offset j with
        ⟨hCross, hNext, hOff⟩ | ⟨hCross, hNext, hOff⟩
      · rw [if_pos ⟨hCross, by simp⟩, hNext, hOff]
      · rw [if_neg (fun hBoth => hCross hBoth.1), hNext, hOff]

theorem AtPass.next {k : Nat} {s s' : ReadState} (h : AtPass fs offset k s)
    {inodeptr : Nat} (hStep : readStep fs inodeptr offset s = some s') :
    AtPass fs offset (k + 1) s' := by
  obtain ⟨_, hRead, hStarted⟩ := readStep_counts hStep
  have hPlace : s'.indexOffset = tableIndex fs offset k ∧
      s'.byteOffset = blockOffset fs offset k + 1 := by
    unfold readStep at hStep
    split at hStep
    · contradiction
    · split at hStep
      · contradiction
      · injection hStep with hStep
        subst hStep
        simp only [h.advance_eq, and_self]
  exact
    { bytesRead := by rw [hRead, h.bytesRead]
      started := by rw [hStarted]; simp
      first := by intro hZero; omega
      later := by
        intro j hj
        have hSame : k = j := by omega
        subst hSame
        exact hPlace }

/-- Byte `k` of the call, at position `offset + k`, is one of a data block
that there is. -/
def Listed (fs : FileSys) (inode offset k : Nat) : Prop :=
  tableIndex fs offset k < 1023 ∧
    dataBlocks fs (inodePtr fs inode) (tableIndex fs offset k) +
      blockOffset fs offset k / blockSize < getNumDataBlocks fs

instance (fs : FileSys) (inode offset k : Nat) :
    Decidable (Listed fs inode offset k) := inferInstanceAs (Decidable (_ ∧ _))

/-- What is right about a use. -/
def ImageUse.Inside (fs : FileSys) (inode : Nat) : ImageUse → Prop
  | .table idx => idx < 1023
  | .copy block off =>
      inode < getNumInodes fs ∧ block + off / blockSize < getNumDataBlocks fs

private theorem byte_lt (b : Byte) : b.toNat < 256 := b.isLt

private theorem wordAt_lt (fs : FileSys) (addr : Nat) : fs.wordAt addr < 2 ^ 32 := by
  have h0 := byte_lt (fs.byteAt addr)
  have h1 := byte_lt (fs.byteAt (addr + 1))
  have h2 := byte_lt (fs.byteAt (addr + 2))
  have h3 := byte_lt (fs.byteAt (addr + 3))
  unfold FileSys.wordAt
  omega

/-- The count of bytes does not wrap: the table would have ended before. -/
theorem AtPass.position {k : Nat} {s : ReadState} (h : AtPass fs offset k s)
    (hOffset : offset < 2 ^ 32)
    (hBefore : ∀ j, k = j + 1 → tableIndex fs offset j < 1023) :
    u32 (s.bytesRead + offset) = offset + k := by
  have hSum : offset + k < 2 ^ 32 := by
    cases k with
    | zero => exact hOffset
    | succ j =>
        have hPlace := position_lt fs offset j
        have hIndex := hBefore j rfl
        simp only [blockSize] at hPlace
        omega
  rw [h.bytesRead, Nat.add_comm, u32_of_lt hSum]

/-- A pass that does not stop at the end of the file stays inside, if its byte and
the one before are listed. -/
theorem AtPass.pass_inside {k : Nat} {s : ReadState} (h : AtPass fs offset k s)
    (hInode : inode < getNumInodes fs)
    (hBefore : ∀ j, k = j + 1 → tableIndex fs offset j < 1023)
    (hEof : ¬ u32 (s.bytesRead + offset) > inodeLength fs (inodePtr fs inode))
    (hByte : Listed fs inode offset k) :
    ∀ use ∈ passUses fs (inodePtr fs inode) offset s, use.Inside fs inode := by
  have hEntry : s.indexOffset < 1023 := by
    cases k with
    | zero =>
        rw [(h.first rfl).1]
        exact hByte.1
    | succ j =>
        rw [(h.later j rfl).1]
        exact hBefore j rfl
  intro use hUse
  unfold passUses at hUse
  rw [if_neg hEof] at hUse
  split at hUse
  · rw [List.mem_singleton] at hUse
    subst hUse
    exact hEntry
  · rw [h.advance_eq] at hUse
    simp only [List.mem_cons, List.not_mem_nil, or_false] at hUse
    rcases hUse with hUse | hUse | hUse | hUse
    · subst hUse; exact hEntry
    · subst hUse; exact hEntry
    · subst hUse; exact hByte.1
    · subst hUse; exact ⟨hInode, hByte.2⟩

/-- The passes from `k` on stay inside, if the bytes that they read are
listed. -/
theorem AtPass.uses_inside (hInode : inode < getNumInodes fs)
    (hOffset : offset < 2 ^ 32) :
    ∀ (n k : Nat) (s : ReadState), AtPass fs offset k s →
      (∀ j, k = j + 1 → tableIndex fs offset j < 1023) →
      (∀ j, k ≤ j → j < k + n → offset + j ≤ getInodeLen fs inode →
        Listed fs inode offset j) →
      ∀ use ∈ loopUses fs (inodePtr fs inode) offset n s,
        use.Inside fs inode := by
  intro n
  induction n with
  | zero => intro k s _ _ _ use hUse; contradiction
  | succ n ih =>
      intro k s h hBefore hListed use hUse
      have hCount := h.position hOffset hBefore
      by_cases hEof : u32 (s.bytesRead + offset) > inodeLength fs (inodePtr fs inode)
      · have hStep : readStep fs (inodePtr fs inode) offset s = none := by
          unfold readStep; rw [if_pos hEof]
        simp [loopUses, passUses, if_pos hEof, hStep] at hUse
      · have hByte := hListed k (Nat.le_refl k) (by omega)
          (by rw [hCount] at hEof; exact Nat.le_of_not_lt hEof)
        rw [loopUses, List.mem_append] at hUse
        rcases hUse with hUse | hUse
        · exact h.pass_inside hInode hBefore hEof hByte use hUse
        · cases hStep : readStep fs (inodePtr fs inode) offset s with
          | none => simp [hStep] at hUse
          | some s' =>
              rw [hStep] at hUse
              refine ih (k + 1) s' (h.next hStep) ?_ ?_ use hUse
              · intro j hj
                have hSame : k = j := by omega
                subst hSame
                exact hByte.1
              · intro j hk hj
                exact hListed j (by omega) (by omega)

/-- The other way round: passes that stay inside read listed bytes. -/
theorem AtPass.listed_of_inside :
    ∀ (n k : Nat) (s : ReadState), AtPass fs offset k s →
      dataBlocks fs (inodePtr fs inode) s.indexOffset ≤ getNumDataBlocks fs →
      (∀ use ∈ loopUses fs (inodePtr fs inode) offset n s,
        use.Inside fs inode) →
      ∀ j, k ≤ j → j < k + n → offset + j ≤ getInodeLen fs inode →
        inode < getNumInodes fs ∧ Listed fs inode offset j := by
  intro n
  induction n with
  | zero => intro k s _ _ _ j hk hj; omega
  | succ n ih =>
      intro k s h hValid hUses j hk hj hEnd
      have hLength : getInodeLen fs inode < 2 ^ 32 := wordAt_lt fs _
      have hEof : ¬ u32 (s.bytesRead + offset) >
          inodeLength fs (inodePtr fs inode) := by
        rw [h.bytesRead, u32_of_lt (by omega)]
        show ¬ k + offset > getInodeLen fs inode
        omega
      obtain ⟨s', hStep⟩ : ∃ s', readStep fs (inodePtr fs inode) offset s =
          some s' := by
        unfold readStep
        rw [if_neg hEof, if_neg (by omega)]
        exact ⟨_, rfl⟩
      have hPass : ∀ use ∈ passUses fs (inodePtr fs inode) offset s,
          use.Inside fs inode :=
        fun use hUse => hUses use (by
          rw [loopUses]; exact List.mem_append_left _ hUse)
      have hByte : inode < getNumInodes fs ∧ Listed fs inode offset k := by
        unfold passUses at hPass
        rw [if_neg hEof, if_neg (by omega), h.advance_eq] at hPass
        have hIndex := hPass (.table (tableIndex fs offset k)) (by simp)
        have hCopy := hPass (.copy (dataBlocks fs (inodePtr fs inode)
          (tableIndex fs offset k)) (blockOffset fs offset k)) (by simp)
        exact ⟨hCopy.1, hIndex, hCopy.2⟩
      cases Nat.eq_or_lt_of_le hk with
      | inl hSame =>
          subst hSame
          exact hByte
      | inr hLater =>
          have hNext := h.next hStep
          refine ih (k + 1) s' hNext ?_ ?_ j hLater (by omega) hEnd
          · rw [(hNext.later k rfl).1]
            exact Nat.le_trans (Nat.le_add_right _ _) (Nat.le_of_lt hByte.2.2)
          · intro use hUse
            refine hUses use ?_
            rw [loopUses, hStep]
            exact List.mem_append_right _ hUse

end Passes

/-! ## A call -/

/-- The number of the first block is too large: the call returns at once. -/
def StopsAtBlock (fs : FileSys) (inode offset : Nat) : Prop :=
  offset / blockSize < 1023 ∧
    dataBlocks fs (inodePtr fs inode) (offset / blockSize) > getNumDataBlocks fs

/-- The bytes that a call is asked for, up to and with the one behind the end
of the file, are listed. -/
def AllListed (fs : FileSys) (inode offset length : Nat) : Prop :=
  ∀ k, k < length → offset + k ≤ getInodeLen fs inode → Listed fs inode offset k

private theorem readsInside_iff_uses (fs : FileSys) (inode offset : Nat) (buf : Buffer)
    (length : Nat) :
    ReadsInside fs inode offset buf length ↔
      ∀ use ∈ readUses fs inode offset buf length, use.Inside fs inode := by
  constructor
  · intro h use hUse
    cases use with
    | table idx => exact h.indexed idx hUse
    | copy block off => exact h.copied block off hUse
  · intro h
    exact
      { copied := fun block off hUse => h (.copy block off) hUse
        indexed := fun idx hUse => h (.table idx) hUse
        count := (readData_copies fs inode offset buf length).1 }

/--
**Safety of `read_data`.**  On any image, for any inode number, offset and
length, a call stays inside exactly when it copies nothing (the inode number is
above the count, nothing is asked for, the offset is behind the end of the
file, or the number of the first block is above the count), or the inode is
one that there is and every byte asked for, with the byte behind the end of the
file, is in one of the 1023 blocks of the table and in a data block that there
is.
-/
theorem readData_safety_iff (fs : FileSys) (inode offset length : BitVec 32)
    (buf : Buffer) :
    ReadsInside fs inode.toNat offset.toNat buf length.toNat ↔
      getNumInodes fs < inode.toNat ∨ length.toNat = 0 ∨
      getInodeLen fs inode.toNat < offset.toNat ∨
      StopsAtBlock fs inode.toNat offset.toNat ∨
      (inode.toNat < getNumInodes fs ∧
        AllListed fs inode.toNat offset.toNat length.toNat) := by
  have hOffset : offset.toNat < 2 ^ 32 := offset.isLt
  generalize inode.toNat = inode
  generalize offset.toNat = offset at *
  generalize length.toNat = n
  rw [readsInside_iff_uses]
  unfold readUses
  by_cases hInode : inode > getNumInodes fs
  · rw [if_pos hInode]
    exact ⟨fun _ => Or.inl hInode, fun _ use hUse => absurd hUse List.not_mem_nil⟩
  rw [if_neg hInode]
  cases n with
  | zero =>
      exact ⟨fun _ => Or.inr (Or.inl rfl),
        fun _ use hUse => absurd hUse List.not_mem_nil⟩
  | succ n =>
      have hFirst : u32 ((readStart offset buf).bytesRead + offset) = offset := by
        show u32 (0 + offset) = offset
        rw [Nat.zero_add, u32_of_lt hOffset]
      by_cases hEof : getInodeLen fs inode < offset
      · have hPast : u32 ((readStart offset buf).bytesRead + offset) >
            inodeLength fs (inodePtr fs inode) := by rw [hFirst]; exact hEof
        simp only [loopUses, passUses, readStep, if_pos hPast, List.append_nil]
        exact ⟨fun _ => Or.inr (Or.inr (Or.inl hEof)),
          fun _ use hUse => absurd hUse List.not_mem_nil⟩
      have hIn : ¬ u32 ((readStart offset buf).bytesRead + offset) >
          inodeLength fs (inodePtr fs inode) := by rw [hFirst]; exact hEof
      by_cases hBlock : dataBlocks fs (inodePtr fs inode) (offset / blockSize) >
          getNumDataBlocks fs
      · have hStop : dataBlocks fs (inodePtr fs inode)
            (readStart offset buf).indexOffset > getNumDataBlocks fs := hBlock
        simp only [loopUses, passUses, readStep, if_neg hIn, if_pos hStop,
          List.append_nil, List.mem_singleton, forall_eq]
        constructor
        · intro hIndex
          exact Or.inr (Or.inr (Or.inr (Or.inl ⟨hIndex, hBlock⟩)))
        · rintro (h | h | h | h | h)
          · omega
          · omega
          · exact absurd h hEof
          · exact h.1
          · have hByte := h.2 0 (Nat.succ_pos n) (Nat.le_of_not_lt hEof)
            rw [Listed, tableIndex_zero] at hByte
            exact hByte.1
      · have hAt := atPass_start fs offset buf
        constructor
        · intro hUses
          have hListed := hAt.listed_of_inside (n + 1) 0 _
            (Nat.le_of_not_lt hBlock) hUses
          refine Or.inr (Or.inr (Or.inr (Or.inr ⟨?_, ?_⟩)))
          · exact (hListed 0 (Nat.le_refl 0) (by omega)
              (Nat.le_of_not_lt hEof)).1
          · intro k hk hEnd
            exact (hListed k (Nat.zero_le k) (by omega) hEnd).2
        · rintro (h | h | h | h | h)
          · omega
          · omega
          · exact absurd h hEof
          · exact absurd h.2 hBlock
          · exact hAt.uses_inside h.1 hOffset (n + 1) 0 _
              (by intro j hj; omega)
              (fun j _ hj hEnd => h.2 j (by omega) hEnd)

/-! ### A block number equal to the count -/

/-- An image with one inode and one data block; the inode has length 1 and lists
block 1. -/
def strayImage : FileSys where
  filesysAddr := 0x500000
  memory := fun addr =>
    match addr - 0x500000 with
    | 4 => 1
    | 8 => 1
    | 4096 => 1
    | 4100 => 1
    | _ => 0

/-- The byte comes from data block 1 of 1. -/
theorem strayImage_outside :
    (readData strayImage (0#32).toNat (0#32).toNat (fun _ => 0) (1#32).toNat).1 = 1 ∧
    readCopies strayImage (0#32).toNat (0#32).toNat (fun _ => 0) (1#32).toNat =
      [(1, 0)] ∧
    getNumDataBlocks strayImage = 1 ∧
    ¬ ReadsInside strayImage (0#32).toNat (0#32).toNat (fun _ => 0)
      (1#32).toNat := by
  refine ⟨by decide +kernel, by decide +kernel, by decide +kernel, ?_⟩
  intro h
  have hIn := (h.copied 1 0 (by decide +kernel)).2
  revert hIn
  decide +kernel

end CompE.Kernel
