import CompE.KernelLib.Putc
import CompE.Library.CyclicMemory

/-!
# `memset`, `memcpy` and `memmove`

The assembly of `lib.c`.  `memset` and `memcpy` take single bytes until the
destination is aligned, then double words, then the bytes that are left; `memmove`
takes single bytes, up or down.  `memory_primitives` says that they are the plain
loops.  The counts in `ecx` and `edx` only go down, and are natural numbers here.
-/

namespace CompE.KernelLib

open CompE.Library CompE.Library.CyclicMemory

abbrev Addr := BitVec 32
abbrev Mem := Memory 32 Byte

/-- `testl $0x3, %edi`: not aligned. -/
def unaligned (edi : Addr) : Bool := edi &&& 3 != 0

/-! ## String instructions -/

/-- Byte `k` of a double word. -/
def byteOf (eax : BitVec 32) (k : Nat) : Byte := (eax >>> (8 * k)).setWidth 8

/-- One `stosl`. -/
def stosl (eax : BitVec 32) (edi : Addr) (mem : Mem) : Mem := fun a =>
  if (a - edi).toNat < 4 then byteOf eax (a - edi).toNat else mem a

/-- One `movsl`: the double word is read before it is written. -/
def movsl (edi esi : Addr) (mem : Mem) : Mem := fun a =>
  if (a - edi).toNat < 4 then mem (esi + (a - edi)) else mem a

/-- `cld; rep stosl`, with `edi` behind it. -/
def repStosl (eax : BitVec 32) : Nat → Addr → Mem → Addr × Mem
  | 0, edi, mem => (edi, mem)
  | ecx + 1, edi, mem => repStosl eax ecx (edi + 4) (stosl eax edi mem)

/-- `cld; rep movsl`, with `edi` and `esi` behind it. -/
def repMovsl : Nat → Addr → Addr → Mem → Addr × Addr × Mem
  | 0, edi, esi, mem => (edi, esi, mem)
  | ecx + 1, edi, esi, mem => repMovsl ecx (edi + 4) (esi + 4) (movsl edi esi mem)

/-- `rep movsb`, by the direction flag. -/
def repMovsb (df : Bool) : Nat → Addr → Addr → Mem → Mem :=
  if df then copyDown else copyUp

/-! ## The functions -/

/-- `.memset_top`: the count that is left, `edi` and the memory. -/
def memsetTop (al : Byte) : Nat → Addr → Mem → Nat × Addr × Mem
  | 0, edi, mem => (0, edi, mem)
  | ecx + 1, edi, mem =>
      if unaligned edi then memsetTop al ecx (edi + 1) (Function.update mem edi al)
      else (ecx + 1, edi, mem)

/-- `.memset_bottom`. -/
def memsetBottom (al : Byte) : Nat → Addr → Mem → Mem := fill al

/-- `memset`. -/
def memset (s : Addr) (c n : BitVec 32) (mem : Mem) : Addr × Mem :=
  let c := c &&& 0xFF
  let eax := c <<< 24 ||| c <<< 16 ||| c <<< 8 ||| c
  let al := byteOf eax 0
  let (ecx, edi, mem) := memsetTop al n.toNat s mem
  let edx := ecx % 4
  let (edi, mem) := repStosl eax (ecx / 4) edi mem
  (s, memsetBottom al edx edi mem)

/-- `.memcpy_top`: the count that is left, `edi`, `esi` and the memory. -/
def memcpyTop : Nat → Addr → Addr → Mem → Nat × Addr × Addr × Mem
  | 0, edi, esi, mem => (0, edi, esi, mem)
  | ecx + 1, edi, esi, mem =>
      if unaligned edi then
        memcpyTop ecx (edi + 1) (esi + 1) (Function.update mem edi (mem esi))
      else (ecx + 1, edi, esi, mem)

/-- `.memcpy_bottom`. -/
def memcpyBottom : Nat → Addr → Addr → Mem → Mem := copyUp

/-- `memcpy`. -/
def memcpy (dest src : Addr) (n : BitVec 32) (mem : Mem) : Addr × Mem :=
  let (ecx, edi, esi, mem) := memcpyTop n.toNat dest src mem
  let edx := ecx % 4
  let (edi, esi, mem) := repMovsl (ecx / 4) edi esi mem
  (dest, memcpyBottom edx edi esi mem)

/-- `memmove`. -/
def memmove (dest src : Addr) (n : BitVec 32) (mem : Mem) : Addr × Mem :=
  if dest ≤ src then (dest, repMovsb false n.toNat dest src mem)
  else
    let esi := src + n - 1
    let edi := dest + n - 1
    (dest, repMovsb true n.toNat edi esi mem)

/-! ## The value of `memset` -/

private theorem getLsbD_mask (j : Nat) : (0xFF : BitVec 32).getLsbD j = decide (j < 8) := by
  by_cases hj : j < 32
  · revert j
    decide
  · rw [BitVec.getLsbD_of_ge _ _ (by omega), eq_comm, decide_eq_false_iff_not]
    omega

/-- The four bytes of `eax` are the low byte of `c`. -/
theorem byteOf_replicated (c : BitVec 32) {k : Nat} (hk : k < 4) :
    byteOf ((c &&& 0xFF) <<< 24 ||| (c &&& 0xFF) <<< 16 ||| (c &&& 0xFF) <<< 8 |||
      (c &&& 0xFF)) k = c.setWidth 8 := by
  apply BitVec.eq_of_getLsbD_eq
  intro i hi
  simp only [byteOf, BitVec.getLsbD_setWidth, BitVec.getLsbD_ushiftRight,
    BitVec.getLsbD_or, BitVec.getLsbD_shiftLeft, BitVec.getLsbD_and, getLsbD_mask]
  grind

/-! ## The phases -/

private theorem memsetTop_written (al : Byte) (ecx : Nat) : ∀ (edi : Addr) (mem : Mem),
    ecx ≤ 2 ^ 32 → ∃ k l mem', k + l = ecx ∧
      memsetTop al ecx edi mem = (l, edi + BitVec.ofNat 32 k, mem') ∧
      Written mem mem' edi k fun _ => al := by
  induction ecx with
  | zero =>
      intro edi mem _
      exact ⟨0, 0, mem, rfl, by rw [memsetTop, add_ofNat_zero],
        Written.none mem edi _⟩
  | succ ecx ih =>
      intro edi mem hFits
      by_cases hHead : unaligned edi = true
      · obtain ⟨k, l, mem', hSum, hTop, hWritten⟩ :=
          ih (edi + 1) (Function.update mem edi al) (by omega)
        refine ⟨1 + k, l, mem', by omega, ?_, ?_⟩
        · rw [memsetTop, if_pos hHead, hTop, add_ofNat_add]
          rfl
        · exact (Written.cell mem edi rfl).append hWritten (by omega)
      · exact ⟨0, ecx + 1, mem, by omega,
          by rw [memsetTop, if_neg hHead, add_ofNat_zero],
          Written.none mem edi _⟩

private theorem repStosl_written {eax : BitVec 32} {al : Byte}
    (hBytes : ∀ k, k < 4 → byteOf eax k = al) (ecx : Nat) :
    ∀ (edi : Addr) (mem : Mem), 4 * ecx ≤ 2 ^ 32 →
      (repStosl eax ecx edi mem).1 = edi + BitVec.ofNat 32 (4 * ecx) ∧
      Written mem (repStosl eax ecx edi mem).2 edi (4 * ecx) fun _ => al := by
  induction ecx with
  | zero =>
      intro edi mem _
      exact ⟨(add_zero edi).symm, Written.none mem edi _⟩
  | succ ecx ih =>
      intro edi mem hFits
      have hWord : Written mem (stosl eax edi mem) edi 4 fun _ => al := by
        intro a
        rw [stosl]
        split
        · next hLt => exact hBytes _ hLt
        · rfl
      obtain ⟨hEdi, hRest⟩ := ih (edi + 4) (stosl eax edi mem) (by omega)
      have hSum : 4 * (ecx + 1) = 4 + 4 * ecx := by omega
      rw [repStosl, hSum]
      refine ⟨?_, hWord.append hRest (by omega)⟩
      rw [hEdi, add_ofNat_add]
      rfl

private theorem memcpyTop_copied (ecx : Nat) : ∀ (edi esi : Addr) (mem : Mem),
    ReadsAhead edi esi ecx → ecx ≤ 2 ^ 32 → ∃ k l mem', k + l = ecx ∧
      memcpyTop ecx edi esi mem =
        (l, edi + BitVec.ofNat 32 k, esi + BitVec.ofNat 32 k, mem') ∧
      Copied mem mem' edi esi k := by
  induction ecx with
  | zero =>
      intro edi esi mem _ _
      exact ⟨0, 0, mem, rfl,
        by rw [memcpyTop, add_ofNat_zero, add_ofNat_zero],
        Written.none mem edi _⟩
  | succ ecx ih =>
      intro edi esi mem hAhead hFits
      by_cases hHead : unaligned edi = true
      · have hSum : ecx + 1 = 1 + ecx := Nat.add_comm ecx 1
        rw [hSum] at hAhead
        obtain ⟨k, l, mem', hLeft, hTop, hCopied⟩ :=
          ih (edi + 1) (esi + 1) (Function.update mem edi (mem esi))
            (hAhead.behind (by omega)) (by omega)
        rw [← hLeft, ← Nat.add_assoc] at hAhead
        refine ⟨1 + k, l, mem', by omega, ?_, ?_⟩
        · rw [memcpyTop, if_pos hHead, hTop, add_ofNat_add, add_ofNat_add]
          rfl
        · have hFirst : Copied mem (Function.update mem edi (mem esi)) edi esi 1 :=
            Written.cell mem edi (by rw [add_zero])
          exact hFirst.append hCopied hAhead.front (by omega)
      · exact ⟨0, ecx + 1, mem, by omega,
          by rw [memcpyTop, if_neg hHead, add_ofNat_zero, add_ofNat_zero],
          Written.none mem edi _⟩

private theorem repMovsl_copied (ecx : Nat) : ∀ (edi esi : Addr) (mem : Mem),
    ReadsAhead edi esi (4 * ecx) → 4 * ecx ≤ 2 ^ 32 →
      (repMovsl ecx edi esi mem).1 = edi + BitVec.ofNat 32 (4 * ecx) ∧
      (repMovsl ecx edi esi mem).2.1 = esi + BitVec.ofNat 32 (4 * ecx) ∧
      Copied mem (repMovsl ecx edi esi mem).2.2 edi esi (4 * ecx) := by
  induction ecx with
  | zero =>
      intro edi esi mem _ _
      exact ⟨(add_zero edi).symm, (add_zero esi).symm, Written.none mem edi _⟩
  | succ ecx ih =>
      intro edi esi mem hAhead hFits
      have hWord : Copied mem (movsl edi esi mem) edi esi 4 := fun _ => rfl
      have hSum : 4 * (ecx + 1) = 4 + 4 * ecx := by omega
      rw [hSum] at hAhead
      obtain ⟨hEdi, hEsi, hRest⟩ := ih (edi + 4) (esi + 4) (movsl edi esi mem)
        (hAhead.behind (by omega)) (by omega)
      rw [repMovsl, hSum]
      refine ⟨?_, ?_, hWord.append hRest hAhead (by omega)⟩
      · rw [hEdi, add_ofNat_add]
        rfl
      · rw [hEsi, add_ofNat_add]
        rfl

/-! ## The functions as loops -/

/-- `memset` is the plain loop. -/
theorem memset_eq (s : Addr) (c n : BitVec 32) (mem : Mem) :
    memset s c n mem = (s, fill (c.setWidth 8) n.toNat s mem) := by
  have hn := n.isLt
  have hBytes := fun k hk => byteOf_replicated c (k := k) hk
  obtain ⟨k, l, mem', hSum, hTop, hHead⟩ :=
    memsetTop_written (c.setWidth 8) n.toNat s mem (by omega)
  obtain ⟨hEdi, hWords⟩ :=
    repStosl_written hBytes (l / 4) (s + BitVec.ofNat 32 k) mem' (by omega)
  have hTail := fill_written (c.setWidth 8) (l % 4)
    (s + BitVec.ofNat 32 k + BitVec.ofNat 32 (4 * (l / 4)))
    (repStosl ((c &&& 0xFF) <<< 24 ||| (c &&& 0xFF) <<< 16 ||| (c &&& 0xFF) <<< 8 |||
      (c &&& 0xFF)) (l / 4) (s + BitVec.ofNat 32 k) mem').2 (by omega)
  have hAll := hHead.append (hWords.append hTail (by omega)) (by omega)
  have hLength : k + (4 * (l / 4) + l % 4) = n.toNat := by omega
  rw [hLength] at hAll
  simp only [memset, hBytes 0 (by decide), hTop, hEdi, memsetBottom]
  exact congrArg (Prod.mk s) (hAll.unique (fill_written _ _ s mem (by omega)))

/-- `memcpy` is the plain loop, when the blocks have no byte in common. -/
theorem memcpy_eq {dest src : Addr} {n : BitVec 32} (hApart : Apart dest src n.toNat)
    (mem : Mem) : memcpy dest src n mem = (dest, copyUp n.toNat dest src mem) := by
  have hn := n.isLt
  have hAhead := hApart.readsAhead
  obtain ⟨k, l, mem', hSum, hTop, hHead⟩ :=
    memcpyTop_copied n.toNat dest src mem hAhead (by omega)
  have hLength : n.toNat = k + (4 * (l / 4) + l % 4) := by omega
  rw [hLength] at hAhead
  have hBehind := hAhead.behind (by omega)
  obtain ⟨hEdi, hEsi, hWords⟩ := repMovsl_copied (l / 4) (dest + BitVec.ofNat 32 k)
    (src + BitVec.ofNat 32 k) mem' hBehind.front (by omega)
  have hTail := copyUp_copied (l % 4) _ _
    (repMovsl (l / 4) (dest + BitVec.ofNat 32 k) (src + BitVec.ofNat 32 k) mem').2.2
    (hBehind.behind (by omega)) (by omega)
  have hAll := hHead.append (hWords.append hTail hBehind (by omega)) hAhead (by omega)
  have hLoop := copyUp_copied n.toNat dest src mem hApart.readsAhead (by omega)
  rw [hLength] at hLoop
  simp only [memcpy, hTop, hEdi, hEsi, memcpyBottom]
  rw [hLength]
  exact congrArg (Prod.mk dest) (hAll.unique hLoop)

/-! ## Ranges -/

/-- A range of `n` addresses from `first` on. -/
structure Range (n : BitVec 32) where
  first : Addr
  fits : first.toNat + n.toNat ≤ 2 ^ 32

/-- Byte `i` of a range. -/
def Range.at {n : BitVec 32} (r : Range n) (i : Nat) : Addr := r.first + BitVec.ofNat 32 i

theorem Range.toNat_add {n : BitVec 32} (r : Range n) {x : BitVec 32}
    (hx : x.toNat < n.toNat) : (r.first + x).toNat = r.first.toNat + x.toNat := by
  have hFits := r.fits
  rw [BitVec.toNat_add]
  exact Nat.mod_eq_of_lt (by omega)

/-- From a low source up or from a high source down, nothing is read after it has been
written. -/
theorem memmove_copied {n : BitVec 32} (dest src : Range n) (mem : Mem) :
    (memmove dest.first src.first n mem).1 = dest.first ∧
      Copied mem (memmove dest.first src.first n mem).2 dest.first src.first n.toNat := by
  have hn := n.isLt
  have hSelf : BitVec.ofNat 32 n.toNat = n := by
    rw [BitVec.ofNat_toNat, BitVec.setWidth_eq]
  rw [memmove]
  by_cases hUp : dest.first ≤ src.first
  · rw [if_pos hUp]
    rw [BitVec.le_def] at hUp
    refine ⟨rfl, copyUp_copied n.toNat _ _ mem ?_ (by omega)⟩
    intro x y hBefore hLt hSame
    have hAddr := congrArg BitVec.toNat hSame
    rw [dest.toNat_add (by omega), src.toNat_add hLt] at hAddr
    omega
  · rw [if_neg hUp]
    rw [BitVec.le_def] at hUp
    refine ⟨rfl, ?_⟩
    have hDown := copyDown_copied n.toNat dest.first src.first mem (by
      intro x y hLt hBefore hSame
      have hAddr := congrArg BitVec.toNat hSame
      rw [dest.toNat_add hLt, src.toNat_add (by omega)] at hAddr
      omega) (by omega)
    rw [hSelf] at hDown
    exact hDown

/--
**Memory primitives.**  `memmove` leaves in the destination the bytes of the source as
they were, however the two ranges overlap, and nothing else is changed; `memcpy`, for
ranges with no byte in common, and `memset` are the plain loops.
-/
theorem memory_primitives (n : BitVec 32) (mem : Mem) :
    (∀ dest src : Range n,
      (memmove dest.first src.first n mem).1 = dest.first ∧
      (∀ i, i < n.toNat →
        (memmove dest.first src.first n mem).2 (dest.at i) = mem (src.at i)) ∧
      ∀ a, (∀ i, i < n.toNat → a ≠ dest.at i) →
        (memmove dest.first src.first n mem).2 a = mem a) ∧
    (∀ dest src : Addr, Apart dest src n.toNat →
      memcpy dest src n mem = (dest, copyUp n.toNat dest src mem)) ∧
    ∀ (s : Addr) (c : BitVec 32),
      memset s c n mem = (s, fill (c.setWidth 8) n.toNat s mem) := by
  refine ⟨?_, fun dest src hApart => memcpy_eq hApart mem,
    fun s c => memset_eq s c n mem⟩
  intro dest src
  obtain ⟨hDest, hCopied⟩ := memmove_copied dest src mem
  refine ⟨hDest, ?_, ?_⟩
  · intro i hi
    have hOffset : dest.at i - dest.first = BitVec.ofNat 32 i := add_sub_cancel_left _ _
    rw [hCopied (dest.at i), hOffset, toNat_of_lt (by have := n.isLt; omega), if_pos hi]
    rfl
  · intro a hOut
    apply Written.outside hCopied
    intro hLt
    apply hOut _ hLt
    rw [Range.at, BitVec.ofNat_toNat, BitVec.setWidth_eq]
    exact (add_sub_cancel dest.first a).symm

/-- A move by two bytes up, and a copy of seven bytes to an odd address. -/
theorem memory_primitives_seven :
    let mem : Mem := fun a => a.setWidth 8
    let dest : Range 7 := ⟨0x1002, by decide⟩
    let src : Range 7 := ⟨0x1000, by decide⟩
    (∀ i, i < 7 → (memmove dest.first src.first 7 mem).2 (dest.at i) =
      mem (src.at i)) ∧
    memcpy 0x2001 0x1000 7 mem = (0x2001, copyUp 7 0x2001 0x1000 mem) := by
  have hApart : Apart (0x2001 : Addr) 0x1000 7 := by
    intro x y hx hy hSame
    bv_omega
  exact ⟨((memory_primitives 7 _).1 _ _).2.1, (memory_primitives 7 _).2.1 _ _ hApart⟩

end CompE.KernelLib
