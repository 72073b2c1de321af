import CompE.Library.WriteLog
import CompE.Kernel.SystemCalls

/-!
# Two calls that write through a pointer of the caller

`getargs` and `vidmap` get an address from the user program and write to it
with the kernel's rights.  `getargs` compares the start of its range with both
ends of the user page, and the end of the range with nothing; `vidmap` names
three addresses that it refuses.

Every byte written is recorded.  What lies behind the user page is not present:
`getargs` runs into the page fault handler there, which does not return.
-/

namespace CompE.Kernel

open CompE.Library

/-! ## `getargs` -/

def userLoc : Nat := 0x08000000
def mb8 : Nat := 0x800000

/-- The end of the user page, `USER_LOC + (MB_8/2)`. -/
def userEnd : Nat := userLoc + mb8 / 2

/-- `EMPTY_CHAR` -/
def emptyChar : Byte := 0#8

/-- Bytes stored one after the other in the user page; `false` for a page
fault at its end. -/
def storeUser (mem : Logged Byte) (addr : Nat) : List Byte → Bool × Logged Byte
  | [] => (true, mem)
  | c :: s =>
      if addr < userEnd then storeUser (mem.set addr c) (addr + 1) s
      else (false, mem)

/-- The bytes that `strncpy` writes: up to `n` characters of a string, and zeros
for the rest. -/
def strncpyBytes (src : CString) (n : Nat) : List Byte :=
  src.take n ++ List.replicate (n - src.length) 0#8

/-- `getargs`, with the arguments that the PCB holds: the return value, or
`none` when it does not return.  The buffer is cleared, then the arguments are
copied.  (The array in the PCB is never NULL.) -/
def getargs (args : CString) (buf nbytes : BitVec 32) (mem : Logged Byte) :
    Option Int × Logged Byte :=
  if buf = 0 ∨ nbytes = 0 ∨ buf.toNat < userLoc ∨ buf.toNat > userEnd then
    (some (-1), mem)
  else
    let argLength := args.length
    if argLength = 0 ∨ nbytes.toInt < argLength then (some (-1), mem)
    else
      let cleared := storeUser mem buf.toNat
        (List.replicate nbytes.toInt.toNat emptyChar)
      if cleared.1 then
        let copied := storeUser cleared.2 buf.toNat (strncpyBytes args argLength)
        (if copied.1 then some 0 else none, copied.2)
      else (none, cleared.2)

/-- The arguments and a terminator fit, and the range is in the user page. -/
structure ArgsFit (args : CString) (buf nbytes : BitVec 32) : Prop where
  some : args ≠ []
  fits : (args.length : Int) + 1 ≤ nbytes.toInt
  start : userLoc ≤ buf.toNat
  stop : buf.toNat + nbytes.toNat ≤ userEnd

/-- What a call should do: fill the whole range, or write nothing. -/
structure GetargsContract (args : CString) (buf nbytes : BitVec 32)
    (mem : Logged Byte) : Prop where
  success : ArgsFit args buf nbytes →
    (getargs args buf nbytes mem).1 = some 0 ∧
    ∀ i, i < nbytes.toNat →
      (getargs args buf nbytes mem).2.cells (buf.toNat + i) = charAt args i
  failure : ¬ ArgsFit args buf nbytes →
    getargs args buf nbytes mem = (some (-1), mem)

section Getargs

variable {mem : Logged Byte} {addr : Nat}

private theorem storeUser_inside (s : List Byte) : ∀ (mem : Logged Byte) (addr : Nat),
    addr + s.length ≤ userEnd → storeUser mem addr s = (true, mem.store addr s) := by
  induction s with
  | nil => intro mem addr _; rfl
  | cons c s ih =>
      intro mem addr hEnd
      rw [List.length_cons] at hEnd
      rw [storeUser, if_pos (by omega), ih _ _ (by omega)]
      rfl

private theorem storeUser_fault (s : List Byte) : ∀ (mem : Logged Byte) (addr : Nat),
    addr ≤ userEnd → userEnd < addr + s.length → (storeUser mem addr s).1 = false := by
  induction s with
  | nil =>
      intro mem addr hStart hEnd
      rw [List.length_nil] at hEnd
      omega
  | cons c s ih =>
      intro mem addr hStart hEnd
      rw [List.length_cons] at hEnd
      rw [storeUser]
      by_cases hIn : addr < userEnd
      · rw [if_pos hIn]
        exact ih _ _ hIn (by omega)
      · rw [if_neg hIn]

private theorem strncpyBytes_length (s : CString) : strncpyBytes s s.length = s := by
  simp [strncpyBytes]

/-- A call that the checks let through. -/
structure Accepted (args : CString) (buf nbytes : BitVec 32) : Prop where
  some : args ≠ []
  length : (args.length : Int) ≤ nbytes.toInt
  start : userLoc ≤ buf.toNat
  stop : buf.toNat ≤ userEnd

instance (args : CString) (buf nbytes : BitVec 32) :
    Decidable (Accepted args buf nbytes) :=
  decidable_of_iff (args ≠ [] ∧ (args.length : Int) ≤ nbytes.toInt ∧
      userLoc ≤ buf.toNat ∧ buf.toNat ≤ userEnd)
    ⟨fun ⟨h1, h2, h3, h4⟩ => ⟨h1, h2, h3, h4⟩,
      fun ⟨h1, h2, h3, h4⟩ => ⟨h1, h2, h3, h4⟩⟩

variable {args : CString} {buf nbytes : BitVec 32}

theorem ArgsFit.accepted (h : ArgsFit args buf nbytes) :
    Accepted args buf nbytes where
  some := h.some
  length := by have := h.fits; omega
  start := h.start
  stop := by have := h.stop; omega

private theorem getargs_refused (mem : Logged Byte) (h : ¬ Accepted args buf nbytes) :
    getargs args buf nbytes mem = (some (-1), mem) := by
  unfold getargs
  by_cases hAddress : buf = 0 ∨ nbytes = 0 ∨ buf.toNat < userLoc ∨
      buf.toNat > userEnd
  · rw [if_pos hAddress]
  · rw [if_neg hAddress]
    simp only
    rw [if_pos]
    apply Decidable.byContradiction
    intro hLength
    refine h ⟨?_, by omega, by omega, by omega⟩
    intro hNil
    exact hLength (Or.inl (by rw [hNil]; rfl))

/-- A call that the checks let through clears the range and copies. -/
theorem getargs_accepted (mem : Logged Byte) (h : Accepted args buf nbytes) :
    nbytes.toInt.toNat = nbytes.toNat ∧ args.length ≤ nbytes.toNat ∧
    (buf.toNat + nbytes.toNat ≤ userEnd → getargs args buf nbytes mem =
      (some 0, (mem.store buf.toNat
        (List.replicate nbytes.toNat emptyChar)).store buf.toNat args)) ∧
    (userEnd < buf.toNat + nbytes.toNat →
      (getargs args buf nbytes mem).1 = none) := by
  have hSome : args.length ≠ 0 := fun hZero =>
    h.some (List.length_eq_zero_iff.1 hZero)
  have hLength := h.length
  have hSign : nbytes.toInt = nbytes.toNat := by
    rw [BitVec.toInt_eq_toNat_cond] at hLength ⊢
    split at hLength <;> omega
  have hAddress : ¬ (buf = 0 ∨ nbytes = 0 ∨ buf.toNat < userLoc ∨
      buf.toNat > userEnd) := by
    have hStart := h.start
    have hStop := h.stop
    rintro (hb | hn | hLow | hHigh)
    · subst hb
      exact absurd hStart (by decide)
    · subst hn
      have hZero : (0 : BitVec 32).toInt = 0 := rfl
      omega
    · omega
    · omega
  have hAll : (List.replicate nbytes.toNat emptyChar).length = nbytes.toNat :=
    List.length_replicate ..
  refine ⟨by omega, by omega, ?_, ?_⟩
  · intro hEnd
    unfold getargs
    rw [if_neg hAddress]
    simp only
    rw [if_neg (by omega), hSign, Int.toNat_natCast, strncpyBytes_length,
      storeUser_inside _ _ _ (by rw [hAll]; exact hEnd)]
    simp only [if_true]
    rw [storeUser_inside _ _ _ (by omega)]
    rfl
  · intro hEnd
    unfold getargs
    rw [if_neg hAddress]
    simp only
    rw [if_neg (by omega), hSign, Int.toNat_natCast]
    have hFault := storeUser_fault (List.replicate nbytes.toNat emptyChar) mem
      buf.toNat h.stop (by rw [hAll]; exact hEnd)
    rw [hFault]
    rfl

end Getargs

/--
**`getargs`.**  For any arguments, address and size, the call does what it
should exactly when it is not one that the checks let through although the size
is the length of the arguments, with no room for the terminator, or the range
ends behind the user page.
-/
theorem getargs_contract_iff (args : CString) (buf nbytes : BitVec 32)
    (mem : Logged Byte) :
    GetargsContract args buf nbytes mem ↔
      ¬ (Accepted args buf nbytes ∧
        (nbytes.toInt = args.length ∨ userEnd < buf.toNat + nbytes.toNat)) := by
  constructor
  · rintro h ⟨hAccepted, hBad⟩
    have hNot : ¬ ArgsFit args buf nbytes := by
      intro hFit
      have hFits := hFit.fits
      have hStop := hFit.stop
      omega
    have hFailed := h.failure hNot
    obtain ⟨_, _, hInside, hFault⟩ := getargs_accepted mem hAccepted
    cases Nat.lt_or_ge userEnd (buf.toNat + nbytes.toNat) with
    | inl hBehind =>
        have hNone := hFault hBehind
        rw [hFailed] at hNone
        contradiction
    | inr hEnd =>
        have hDone := congrArg Prod.fst (hInside hEnd)
        rw [hFailed] at hDone
        exact absurd (Option.some.inj hDone) (by decide)
  · intro h
    by_cases hAccepted : Accepted args buf nbytes
    · obtain ⟨hSign, hLength, hInside, _⟩ := getargs_accepted mem hAccepted
      have hFit : ArgsFit args buf nbytes := by
        have hArgs := hAccepted.length
        exact
          { some := hAccepted.some
            fits := by
              have : nbytes.toInt ≠ args.length := fun hEq => h ⟨hAccepted, Or.inl hEq⟩
              omega
            start := hAccepted.start
            stop := Nat.le_of_not_lt fun hLt => h ⟨hAccepted, Or.inr hLt⟩ }
      refine ⟨fun _ => ?_, fun hNot => absurd hFit hNot⟩
      rw [hInside hFit.stop]
      refine ⟨rfl, ?_⟩
      intro i hi
      by_cases hArg : i < args.length
      · rw [Logged.store_cells args _ hArg]
        simp [charAt, hArg]
      · rw [Logged.store_cells_of_outside _ _ (Or.inr (by omega)),
          Logged.store_cells _ _ (by rw [List.length_replicate]; exact hi),
          List.getElem_replicate]
        simp [charAt, Nat.le_of_not_lt hArg, emptyChar]
    · exact ⟨fun hFit => absurd hFit.accepted hAccepted,
        fun _ => getargs_refused mem hAccepted⟩

/-- The arguments `"ab"` in a buffer of two bytes: there is no terminator.  And
in a buffer of 16 bytes, 8 of them in the page: the call does not return. -/
theorem getargs_unterminated :
    (getargs [0x61#8, 0x62#8] 0x08000000#32 2#32 (.fresh fun _ => 0xff)).1 =
      some 0 ∧
    (getargs [0x61#8, 0x62#8] 0x08000000#32 2#32
      (.fresh fun _ => 0xff)).2.cells 0x08000002 = 0xff ∧
    ¬ GetargsContract [0x61#8, 0x62#8] 0x08000000#32 2#32
      (.fresh fun _ => 0xff) ∧
    (getargs [0x61#8, 0x62#8] 0x083ffff8#32 16#32
      (.fresh fun _ => 0xff)).1 = none ∧
    ¬ GetargsContract [0x61#8, 0x62#8] 0x083ffff8#32 16#32
      (.fresh fun _ => 0xff) := by
  refine ⟨by decide, by decide, ?_, by decide, ?_⟩
  · rw [getargs_contract_iff]
    decide
  · rw [getargs_contract_iff]
    decide

/-! ## `vidmap` -/

/-- A word stored at an address, which may wrap. -/
def storeWord (mem : Logged Byte) (addr : BitVec 32) (word : BitVec 32) :
    Logged Byte :=
  (((mem.set addr.toNat (word.extractLsb' 0 8)).set (addr + 1).toNat
    (word.extractLsb' 8 8)).set (addr + 2).toNat
    (word.extractLsb' 16 8)).set (addr + 3).toNat (word.extractLsb' 24 8)

/-- The addresses that `vidmap` names. -/
def NamedAddress (screenStart : BitVec 32) : Prop :=
  screenStart.toNat = 0 ∨ screenStart.toNat = videoLoc ∨
    screenStart.toNat = kernelLoc

instance (screenStart : BitVec 32) : Decidable (NamedAddress screenStart) :=
  inferInstanceAs (Decidable (_ ∨ _))

/-- `vidmap`, with its store to `*screen_start`. -/
def vidmapStore (screenStart : BitVec 32) (k : Globals Sp) (mem : Logged Byte) :
    Int × Globals Sp × Logged Byte :=
  if NamedAddress screenStart then (-1, k, mem)
  else
    match k.curPcb with
    | none => (-1, k, mem)
    | some p =>
        let pid := (k.pcbs p).pid.val
        let k1 : Globals Sp :=
          { k with vmemTable2 := Function.update k.vmemTable2 pid userVideoPte }
        if (k1.pcbs p).vidmapCheck then (-1, k1, mem)
        else
          (0, k1.writePcb ({ · with vidmapCheck := true }),
            storeWord mem screenStart
              (BitVec.ofNat 32 (userLoc - mb8 + pid * 0x1000)))

section Vidmap

variable {Sp : Type}

/-- Without the store it is the `vidmap` of the kernel's runs. -/
theorem vidmapStore_eq (screenStart : BitVec 32) (k : Globals Sp)
    (mem : Logged Byte) :
    ((vidmapStore screenStart k mem).1, (vidmapStore screenStart k mem).2.1) =
      vidmap screenStart.toNat k := by
  have hSame : NamedAddress screenStart ↔ screenStart.toNat = 0 ∨
      screenStart.toNat = videoLoc ∨ screenStart.toNat = kernelLoc := Iff.rfl
  unfold vidmapStore vidmap
  by_cases hNamed : NamedAddress screenStart
  · rw [if_pos hNamed, if_pos (hSame.1 hNamed)]
  · rw [if_neg hNamed, if_neg (fun h => hNamed (hSame.2 h))]
    cases k.curPcb with
    | none => rfl
    | some p =>
        cases hMapped : (k.pcbs p).vidmapCheck with
        | true => simp only [hMapped, if_true]
        | false => simp [hMapped]

/-- The four bytes at a pointer are in the user page. -/
def SlotInside (screenStart : BitVec 32) : Prop :=
  userLoc ≤ screenStart.toNat ∧ screenStart.toNat + 4 ≤ userEnd

instance (screenStart : BitVec 32) : Decidable (SlotInside screenStart) :=
  inferInstanceAs (Decidable (_ ∧ _))

/-- What a call should do with its pointer, and leave when it fails. -/
structure VidmapContract (screenStart : BitVec 32) (k : Globals Sp)
    (mem : Buffer) : Prop where
  store : (vidmapStore screenStart k (.fresh mem)).2.2.written ≠ [] →
    SlotInside screenStart
  refused : ¬ SlotInside screenStart →
    (vidmapStore screenStart k (.fresh mem)).1 = -1
  unchanged : (vidmapStore screenStart k (.fresh mem)).1 = -1 →
    (vidmapStore screenStart k (.fresh mem)).2.1.vmemTable2 = k.vmemTable2 ∧
    (vidmapStore screenStart k (.fresh mem)).2.1.pcbs = k.pcbs

/-- The three ways through `vidmap`. -/
theorem vidmapStore_cases (screenStart : BitVec 32) {k : Globals Sp} {p : Slot}
    (hCur : k.curPcb = some p) (mem : Logged Byte) :
    (NamedAddress screenStart ∧ vidmapStore screenStart k mem = (-1, k, mem)) ∨
    (¬ NamedAddress screenStart ∧ (k.pcbs p).vidmapCheck = true ∧
      vidmapStore screenStart k mem = (-1,
        { k with vmemTable2 := Function.update k.vmemTable2
                   (k.pcbs p).pid.val userVideoPte }, mem)) ∨
    (¬ NamedAddress screenStart ∧ (k.pcbs p).vidmapCheck = false ∧
      (vidmapStore screenStart k mem).1 = 0 ∧
      (vidmapStore screenStart k mem).2.2.written = mem.written ++
        [screenStart.toNat, (screenStart + 1).toNat, (screenStart + 2).toNat,
          (screenStart + 3).toNat]) := by
  unfold vidmapStore
  by_cases hNamed : NamedAddress screenStart
  · rw [if_pos hNamed]
    exact Or.inl ⟨hNamed, rfl⟩
  · right
    rw [if_neg hNamed, hCur]
    cases hMapped : (k.pcbs p).vidmapCheck with
    | true =>
        left
        simp only [hMapped, if_true]
        exact ⟨hNamed, trivial, trivial⟩
    | false =>
        right
        simp only [hMapped]
        refine ⟨hNamed, trivial, rfl, ?_⟩
        simp [storeWord]

/--
**`vidmap`.**  For any pointer and any state of a process, the call does what
it should exactly when the pointer is one of the three named addresses, or the
process has its mapping already and the page-table entry is as `vidmap` writes
it, or it has none and the four bytes are in the user page.
-/
theorem vidmap_contract_iff (screenStart : BitVec 32) {k : Globals Sp} {p : Slot}
    (hCur : k.curPcb = some p) (mem : Buffer) :
    VidmapContract screenStart k mem ↔
      NamedAddress screenStart ∨
      ((k.pcbs p).vidmapCheck = true ∧
        k.vmemTable2 (k.pcbs p).pid.val = userVideoPte) ∨
      ((k.pcbs p).vidmapCheck = false ∧ SlotInside screenStart) := by
  rcases vidmapStore_cases screenStart hCur (.fresh mem) with
    ⟨hNamed, hCall⟩ | ⟨hNamed, hMapped, hCall⟩ | ⟨hNamed, hMapped, hRet, hStore⟩
  · refine ⟨fun _ => Or.inl hNamed, fun _ => ?_⟩
    exact
      { store := by rw [hCall]; intro hWritten; exact absurd rfl hWritten
        refused := by rw [hCall]; exact fun _ => rfl
        unchanged := by rw [hCall]; exact fun _ => ⟨rfl, rfl⟩ }
  · constructor
    · intro h
      have hTable := (h.unchanged (by rw [hCall])).1
      rw [hCall] at hTable
      have hEntry := congrFun hTable (k.pcbs p).pid.val
      simp only [Function.update_self] at hEntry
      exact Or.inr (Or.inl ⟨hMapped, hEntry.symm⟩)
    · rintro (h | ⟨_, hEntry⟩ | ⟨hFree, _⟩)
      · exact absurd h hNamed
      · have hTable : Function.update k.vmemTable2 (k.pcbs p).pid.val
            userVideoPte = k.vmemTable2 := by
          rw [← hEntry, Function.update_eq_self]
        exact
          { store := by rw [hCall]; intro hWritten; exact absurd rfl hWritten
            refused := by rw [hCall]; exact fun _ => rfl
            unchanged := by rw [hCall]; exact fun _ => ⟨hTable, rfl⟩ }
      · rw [hMapped] at hFree
        contradiction
  · constructor
    · intro h
      refine Or.inr (Or.inr ⟨hMapped, ?_⟩)
      exact h.store (by rw [hStore]; exact List.cons_ne_nil _ _)
    · rintro (h | ⟨hOther, _⟩ | ⟨_, hInside⟩)
      · exact absurd h hNamed
      · rw [hMapped] at hOther
        contradiction
      · exact
          { store := fun _ => hInside
            refused := fun hOut => absurd hInside hOut
            unchanged := by
              intro hFailed
              rw [hRet] at hFailed
              exact absurd hFailed (by decide) }

end Vidmap

/-- The first shell, alone. -/
def oneShell : Globals Nat := { initGlobals 0 with curPcb := some 0 }

/-- A pointer to the start of the user page. -/
theorem vidmap_contract_userPage :
    VidmapContract 0x08000000#32 oneShell (fun _ => 0) :=
  (vidmap_contract_iff 0x08000000#32 (p := 0) rfl (fun _ => 0)).2
    (Or.inr (Or.inr ⟨rfl, by decide⟩))

/-- A pointer into the kernel, four bytes behind the one that is refused. -/
theorem vidmap_writesKernel :
    (vidmapStore 0x00400004#32 oneShell (.fresh fun _ => 0)).1 = 0 ∧
    (vidmapStore 0x00400004#32 oneShell (.fresh fun _ => 0)).2.2.written =
      [0x00400004, 0x00400005, 0x00400006, 0x00400007] ∧
    ¬ VidmapContract 0x00400004#32 oneShell (fun _ => 0) := by
  refine ⟨by decide, by decide, ?_⟩
  intro h
  exact absurd (h.store (by decide)) (by decide)

end CompE.Kernel
