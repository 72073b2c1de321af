import CompE.Library.WriteLog
import CompE.Kernel.Directory

/-!
# The buffer of a directory read

`dir_read` copies with `strncpy` and a fixed count of 32, so that the whole
name field is written whatever `nbytes` is, and puts a terminator at
`buf[nbytes]`.  The return value is the length of the string that is then in
the buffer.  Here the places that are written are recorded.

`dirRead_respects_iff` says for which buffers, names and counts the call keeps
to the first `nbytes` bytes.
-/

namespace CompE.Kernel

open CompE.Library

/-! ## `strncpy` with a record of its writes -/

/-- The first loop, from index `i` on for at most `n` more characters. -/
def strncpyCopy (src : Nat → Byte) : Nat → Nat → Logged Byte →
    Nat × Logged Byte
  | 0, i, dest => (i, dest)
  | n + 1, i, dest =>
      if src i ≠ 0#8 then strncpyCopy src n (i + 1) (dest.set i (src i))
      else (i, dest)

/-- The second loop, which fills `n` characters with zeros. -/
def strncpyFill : Nat → Nat → Logged Byte → Logged Byte
  | 0, _, dest => dest
  | n + 1, i, dest => strncpyFill n (i + 1) (dest.set i 0#8)

def strncpyInto (dest : Logged Byte) (src : Nat → Byte) (n : Nat) :
    Logged Byte :=
  let (i, dest) := strncpyCopy src n 0 dest
  strncpyFill (n - i) i dest

/-- The string at index `i` of an array, as far as it lies in `n` characters. -/
def stringAt (src : Nat → Byte) (i n : Nat) : CString :=
  ((List.range' i n).map src).takeWhile (· ≠ 0#8)

private theorem stringAt_zero (src : Nat → Byte) (n : Nat) :
    stringAt src 0 n = cstringOf src n := by
  rw [stringAt, ← List.range_eq_range']
  rfl

private theorem stringAt_succ (src : Nat → Byte) (i n : Nat) :
    stringAt src i (n + 1) =
      if src i ≠ 0#8 then src i :: stringAt src (i + 1) n else [] := by
  rw [stringAt, List.range'_succ, List.map_cons]
  split
  · rename_i hChar
    rw [List.takeWhile_cons_of_pos (by simpa using hChar)]
    rfl
  · rename_i hChar
    rw [List.takeWhile_cons_of_neg (by simpa using hChar)]

private theorem strncpyCopy_eq (src : Nat → Byte) : ∀ (n i : Nat) (dest : Logged Byte),
    strncpyCopy src n i dest =
      (i + (stringAt src i n).length, dest.store i (stringAt src i n)) := by
  intro n
  induction n with
  | zero => intro i dest; rfl
  | succ n ih =>
      intro i dest
      rw [strncpyCopy, stringAt_succ]
      by_cases hChar : src i ≠ 0#8
      · rw [if_pos hChar, if_pos hChar, ih, List.length_cons, Logged.store,
          Nat.add_assoc i 1, Nat.add_comm 1]
      · rw [if_neg hChar, if_neg hChar]
        rfl

private theorem strncpyFill_eq : ∀ (n i : Nat) (dest : Logged Byte),
    strncpyFill n i dest = dest.store i (List.replicate n 0#8) := by
  intro n
  induction n with
  | zero => intro i dest; rfl
  | succ n ih => intro i dest; rw [strncpyFill, ih]; rfl

/-- Both loops together store the string and then zeros. -/
theorem strncpyInto_eq (dest : Logged Byte) (src : Nat → Byte) (n : Nat) :
    strncpyInto dest src n = dest.store 0
      (cstringOf src n ++ List.replicate (n - (cstringOf src n).length) 0#8) := by
  simp only [strncpyInto, strncpyCopy_eq, strncpyFill_eq, stringAt_zero,
    Nat.zero_add, Logged.store_append]

private theorem strncpyInto_written (dest : Logged Byte) (src : Nat → Byte) (n : Nat) :
    (strncpyInto dest src n).written = dest.written ++ List.range n := by
  have hLength := cstringOf_length src n
  have hCount : (cstringOf src n ++
      List.replicate (n - (cstringOf src n).length) 0#8).length = n := by
    rw [List.length_append, List.length_replicate]
    omega
  rw [strncpyInto_eq, Logged.store_written, hCount, List.range_eq_range']

private theorem strncpyInto_cells (dest : Logged Byte) (src : Nat → Byte) (n : Nat) :
    (strncpyInto dest src n).cells = strncpy dest.cells src n := by
  have hLength := cstringOf_length src n
  have hChars := map_charAt hLength
  rw [strncpyInto_eq, ← hChars]
  funext i
  unfold strncpy
  split
  · rename_i hi
    have hPlace := Logged.store_cells
      ((List.range n).map (charAt (cstringOf src n))) dest (i := 0) (k := i)
      (by simpa using hi)
    simpa using hPlace
  · rename_i hi
    exact Logged.store_cells_of_outside _ _ (Or.inr (by simpa using hi))

/-! ## `dir_read` with a record of its writes -/

/-- `dir_read`. -/
def dirReadInto (fs : FileSys) (files : FileArray) (fd : Nat)
    (buf : Logged Byte) (nbytes : Nat) : Nat × Logged Byte × FileArray :=
  let fdptr := files fd
  if getNumDirEntries fs < fdptr.pos then (0, buf, files)
  else
    match readDentryByIndex fs fdptr.pos with
    | none => (0, buf, files)
    | some garbage =>
        let copied := strncpyInto buf (charAt garbage.fname) 32
        let test :=
          if copied.cells nbytes ≠ 0#8 then copied.set nbytes 0#8 else copied
        (strlen test.cells nbytes, test,
          Function.update files fd { fdptr with pos := u32 (fdptr.pos + 1) })

/-- The record does not change what the call does. -/
theorem dirReadInto_eq (fs : FileSys) (files : FileArray) (fd : Nat)
    (buf : Logged Byte) (nbytes : Nat) :
    dirRead fs files fd buf.cells nbytes =
      ((dirReadInto fs files fd buf nbytes).1,
        (dirReadInto fs files fd buf nbytes).2.1.cells,
        (dirReadInto fs files fd buf nbytes).2.2) := by
  by_cases hEnd : getNumDirEntries fs < (files fd).pos
  · simp only [dirRead, dirReadInto, if_pos hEnd]
  · simp only [dirRead, dirReadInto, if_neg hEnd]
    cases readDentryByIndex fs (files fd).pos with
    | none => rfl
    | some garbage =>
        simp only [strncpyInto_cells]
        split
        · simp only [Logged.set, strncpyInto_cells]
        · simp only [strncpyInto_cells]

/-! ## The length of a string -/

private theorem stringAt_spec (src : Nat → Byte) : ∀ n i : Nat,
    (stringAt src i n).length ≤ n ∧
      (∀ k < (stringAt src i n).length, src (i + k) ≠ 0#8) ∧
      ((stringAt src i n).length = n ∨
        src (i + (stringAt src i n).length) = 0#8) := by
  intro n
  induction n with
  | zero => intro i; simp [stringAt]
  | succ n ih =>
      intro i
      rw [stringAt_succ]
      by_cases hChar : src i ≠ 0#8
      · rw [if_pos hChar, List.length_cons]
        obtain ⟨hLe, hChars, hEnd⟩ := ih (i + 1)
        refine ⟨by omega, fun k hk => ?_, ?_⟩
        · cases k with
          | zero => exact hChar
          | succ k =>
              have hPlace : i + (k + 1) = i + 1 + k := by omega
              rw [hPlace]
              exact hChars k (by omega)
        · have hPlace : i + ((stringAt src (i + 1) n).length + 1) =
              i + 1 + (stringAt src (i + 1) n).length := by omega
          rw [hPlace]
          rcases hEnd with hFull | hZero
          · exact .inl (by rw [hFull])
          · exact .inr hZero
      · rw [if_neg hChar]
        exact ⟨Nat.zero_le _, by simp, .inr (by simpa using hChar)⟩

private theorem strlen_spec (s : Buffer) (n : Nat) :
    strlen s n ≤ n ∧ (∀ k < strlen s n, s k ≠ 0#8) ∧
      (strlen s n = n ∨ s (strlen s n) = 0#8) := by
  have hSpec := stringAt_spec s n 0
  rw [stringAt_zero] at hSpec
  simpa only [strlen, Nat.zero_add] using hSpec

theorem strlen_eq {s : Buffer} {n k : Nat} (hLe : k ≤ n)
    (hChars : ∀ i < k, s i ≠ 0#8) (hEnd : k = n ∨ s k = 0#8) :
    strlen s n = k := by
  obtain ⟨hLen, hBefore, hStop⟩ := strlen_spec s n
  rcases Nat.lt_trichotomy (strlen s n) k with hLt | hEq | hGt
  · rcases hStop with hFull | hZero
    · omega
    · exact absurd hZero (hChars _ hLt)
  · exact hEq
  · rcases hEnd with hFull | hZero
    · omega
    · exact absurd hZero (hBefore k hGt)

/-! ## When the buffer is respected -/

/-- The places that a directory read writes to. -/
def dirWrites (fs : FileSys) (files : FileArray) (fd : Nat) (buf : Buffer)
    (nbytes : Nat) : List Nat :=
  (dirReadInto fs files fd (.fresh buf) nbytes).2.1.written

/-- A read of a directory writes only `buf[0..nbytes-1]` and returns as much
of the entry's name as fits there. -/
def ReadRespects (fs : FileSys) (files : FileArray) (fd : Nat) (buf : Buffer)
    (nbytes : BitVec 32) : Prop :=
  let name := entryName fs (files fd).pos
  (∀ i ∈ dirWrites fs files fd buf nbytes.toNat, (i : Int) < nbytes.toInt) ∧
    ∃ out files', (∀ line, sysRead fs fd buf nbytes line files =
        some (⟨min name.length nbytes.toInt, some out⟩, files')) ∧
      ∀ i : Nat, (i : Int) < min (name.length : Int) nbytes.toInt →
        out i = charAt name i

section Entry

variable {fs : FileSys} {files : FileArray} {fd : Nat} (buf : Buffer)
  (nbytes : Nat)

/-- The buffer after the copy. -/
def copiedName (fs : FileSys) (pos : Nat) (buf : Buffer) : Buffer :=
  strncpy buf (charAt (entryName fs pos)) 32

private theorem copiedName_lt {i : Nat} (pos : Nat) (hi : i < 32) :
    copiedName fs pos buf i = charAt (entryName fs pos) i :=
  strncpy_entryName fs pos buf hi

private theorem copiedName_ge {i : Nat} (pos : Nat) (hi : 32 ≤ i) :
    copiedName fs pos buf i = buf i :=
  if_neg (Nat.not_lt.2 hi)

/-- A read of an entry that exists. -/
theorem dirReadInto_entry (hEntry : (files fd).pos < getNumDirEntries fs) :
    dirReadInto fs files fd (.fresh buf) nbytes =
      let copied : Logged Byte :=
        ⟨copiedName fs (files fd).pos buf, List.range 32⟩
      let test :=
        if copied.cells nbytes ≠ 0#8 then copied.set nbytes 0#8 else copied
      (strlen test.cells nbytes, test, Function.update files fd
        { files fd with pos := u32 ((files fd).pos + 1) }) := by
  have hDentry := readDentryByIndex_eq (Nat.le_of_lt hEntry)
  have hCopied : strncpyInto (.fresh buf)
      (charAt (entryName fs (files fd).pos)) 32 =
        ⟨copiedName fs (files fd).pos buf, List.range 32⟩ := by
    have hCells := strncpyInto_cells (.fresh buf)
      (charAt (entryName fs (files fd).pos)) 32
    have hWritten := strncpyInto_written (.fresh buf)
      (charAt (entryName fs (files fd).pos)) 32
    cases hInto : strncpyInto (.fresh buf)
      (charAt (entryName fs (files fd).pos)) 32
    simp_all [copiedName]
  simp only [dirReadInto, if_neg (Nat.not_lt.2 (Nat.le_of_lt hEntry)), hDentry,
    hCopied]

/-- A read keeps to its buffer when the whole name field fits and the string
that it leaves ends by itself. -/
theorem respects_of_room (hEntry : (files fd).pos < getNumDirEntries fs)
    (hRoom : 32 ≤ nbytes) (hZero : buf nbytes = 0#8)
    (hFull : (entryName fs (files fd).pos).length = 32 → buf 32 = 0#8) :
    dirReadInto fs files fd (.fresh buf) nbytes =
      ((entryName fs (files fd).pos).length,
        ⟨copiedName fs (files fd).pos buf, List.range 32⟩,
        Function.update files fd
          { files fd with pos := u32 ((files fd).pos + 1) }) := by
  have hName : (entryName fs (files fd).pos).length ≤ 32 := cstringOf_length _ _
  have hTerminated : copiedName fs (files fd).pos buf nbytes = 0#8 := by
    rw [copiedName_ge buf _ hRoom, hZero]
  have hStrlen : strlen (copiedName fs (files fd).pos buf) nbytes =
      (entryName fs (files fd).pos).length := by
    refine strlen_eq (Nat.le_trans hName hRoom) (fun i hi => ?_) (.inr ?_)
    · have hChar : charAt (entryName fs (files fd).pos) i =
          (entryName fs (files fd).pos)[i] := by simp [charAt, hi]
      rw [copiedName_lt buf _ (by omega), hChar]
      exact entryName_chars fs _ _ (List.getElem_mem hi)
    · rcases Nat.lt_or_eq_of_le hName with hShort | hLong
      · rw [copiedName_lt buf _ hShort]
        simp [charAt]
      · rw [hLong, copiedName_ge buf _ (Nat.le_refl _), hFull hLong]
  rw [dirReadInto_entry buf nbytes hEntry]
  simp only [hTerminated, ne_eq, not_true_eq_false, if_false, hStrlen]

/-- A read that writes in front of `nbytes` only finds a terminator there. -/
theorem room_of_writes (hEntry : (files fd).pos < getNumDirEntries fs)
    (hWrites : ∀ i ∈ dirWrites fs files fd buf nbytes, i < nbytes) :
    32 ≤ nbytes ∧ buf nbytes = 0#8 := by
  rw [dirWrites, dirReadInto_entry buf nbytes hEntry] at hWrites
  have hRoom : 31 < nbytes := by
    apply hWrites
    simp only
    split
    · simp
    · simp
  refine ⟨hRoom, ?_⟩
  have hCopied : copiedName fs (files fd).pos buf nbytes = buf nbytes :=
    copiedName_ge buf _ hRoom
  rw [← hCopied]
  by_contra hChar
  have hLast := hWrites nbytes (by simp [hChar])
  omega

/-- A name that fills its field, and whose length is returned, has a terminator
behind it. -/
theorem terminated_of_result (hEntry : (files fd).pos < getNumDirEntries fs)
    (hRoom : 32 ≤ nbytes) (hZero : buf nbytes = 0#8)
    (hResult : (dirReadInto fs files fd (.fresh buf) nbytes).1 = 32) :
    buf 32 = 0#8 := by
  have hTerminated : copiedName fs (files fd).pos buf nbytes = 0#8 := by
    rw [copiedName_ge buf _ hRoom, hZero]
  rw [dirReadInto_entry buf nbytes hEntry] at hResult
  simp only [hTerminated, ne_eq, not_true_eq_false, if_false] at hResult
  have hSpec := strlen_spec (copiedName fs (files fd).pos buf) nbytes
  rw [hResult] at hSpec
  rcases hSpec.2.2 with hExact | hStop
  · rw [hExact]
    exact hZero
  · rwa [copiedName_ge buf _ (Nat.le_refl _)] at hStop

end Entry

/-- The call of a read on a directory. -/
theorem sysRead_dir (fs : FileSys) {files : FileArray} {fd : Nat}
    (hUse : (files fd).inUse = true) (hDir : (files fd).optbl = .dir)
    (buf : Buffer) (nbytes : BitVec 32) (line : Line) :
    sysRead fs fd buf nbytes line files =
      some (⟨(dirReadInto fs files fd (.fresh buf) nbytes.toNat).1,
        some (dirReadInto fs files fd (.fresh buf) nbytes.toNat).2.1.cells⟩,
        (dirReadInto fs files fd (.fresh buf) nbytes.toNat).2.2) := by
  have hRead := dirReadInto_eq fs files fd (.fresh buf) nbytes.toNat
  rw [Logged.fresh_cells] at hRead
  simp only [sysRead, hUse, Bool.true_eq_false, if_false, hDir, FileOps.read,
    hRead]

/--
**The buffer of a directory read.**  For every entry of the directory, every
buffer and every count of at least zero: the read keeps to the first `nbytes`
bytes and returns the name, exactly when the name field of 32 bytes fits into
them, the byte behind them is zero already, and so is the one behind the field
if the name fills it.
-/
theorem dirRead_respects_iff {fs : FileSys} {files : FileArray} {fd : Nat}
    (hUse : (files fd).inUse = true) (hDir : (files fd).optbl = .dir)
    (hEntry : (files fd).pos < getNumDirEntries fs) (buf : Buffer)
    {nbytes : BitVec 32} (hCount : 0 ≤ nbytes.toInt) :
    ReadRespects fs files fd buf nbytes ↔
      32 ≤ nbytes.toInt ∧ buf nbytes.toNat = 0#8 ∧
        ((entryName fs (files fd).pos).length = 32 → buf 32 = 0#8) := by
  have hInt : nbytes.toInt = nbytes.toNat := by
    rw [BitVec.toInt_eq_toNat_cond] at hCount ⊢
    have := nbytes.isLt
    split at hCount <;> split <;> omega
  have hName : (entryName fs (files fd).pos).length ≤ 32 := cstringOf_length _ _
  have hCall := sysRead_dir fs hUse hDir buf nbytes
  simp only [ReadRespects, hInt]
  constructor
  · rintro ⟨hWrites, out, files', hResult, hOut⟩
    obtain ⟨hRoom, hZero⟩ := room_of_writes buf nbytes.toNat hEntry
      (fun i hi => by exact_mod_cast hWrites i hi)
    refine ⟨by exact_mod_cast hRoom, hZero, fun hLong => ?_⟩
    have hRet := congrArg (fun r => r.map (·.1.ret))
      ((hCall ⟨fun _ => 0#8, 0⟩).symm.trans (hResult _))
    simp only [Option.map_some, Option.some.injEq, hLong] at hRet
    exact terminated_of_result buf nbytes.toNat hEntry hRoom hZero (by omega)
  · rintro ⟨hRoom, hZero, hFull⟩
    have hRoomNat : 32 ≤ nbytes.toNat := by exact_mod_cast hRoom
    have hRead := respects_of_room buf nbytes.toNat hEntry hRoomNat hZero hFull
    have hMin : min ((entryName fs (files fd).pos).length : Int) nbytes.toNat =
        (entryName fs (files fd).pos).length := by omega
    refine ⟨?_, copiedName fs (files fd).pos buf,
      Function.update files fd
        { files fd with pos := u32 ((files fd).pos + 1) }, ?_, ?_⟩
    · intro i hi
      rw [dirWrites, hRead, List.mem_range] at hi
      omega
    · intro line
      rw [hCall line, hRead, hMin]
    · intro i hi
      exact copiedName_lt buf _ (by omega)

/-- Descriptor 2 is a directory, at its first entry. -/
def dirFiles : FileArray := fun _ =>
  { optbl := .dir, inode := 0, pos := 0, inUse := true }

/-- A read of 33 bytes into a buffer of zeros. -/
theorem dirRead_respects_zeros :
    ReadRespects dotImage dirFiles 2 (fun _ => 0#8) 33#32 :=
  (dirRead_respects_iff rfl rfl (by decide) (fun _ => 0#8) (by decide)).2
    ⟨by decide, rfl, fun _ => rfl⟩

/-- A read of 4 bytes writes 32. -/
theorem dirRead_overruns :
    ¬ ∀ (fs : FileSys) (files : FileArray) (fd : Nat) (buf : Buffer)
      (nbytes : BitVec 32), (files fd).inUse = true →
        (files fd).optbl = .dir → (files fd).pos < getNumDirEntries fs →
        0 ≤ nbytes.toInt → ReadRespects fs files fd buf nbytes := by
  intro h
  have hRespects := h dotImage dirFiles 2 (fun _ => 0#8) 4#32 rfl rfl (by decide)
    (by decide)
  have hWrites : ∀ i ∈ dirWrites dotImage dirFiles 2 (fun _ => 0#8) 4, i < 4 := by
    intro i hi
    have hIn : (i : Int) < 4 := hRespects.1 i hi
    omega
  have hEntry : (dirFiles 2).pos < getNumDirEntries dotImage := by decide
  exact absurd (room_of_writes _ 4 hEntry hWrites).1 (by decide)

end CompE.Kernel
