import CompE.Kernel.SchedulerInvariant

/-!
# Page isolation

The three functions of `paging.c` that the rest of the kernel calls, on the
entries that they change: `process_pdir_table[j].pde[USER_IDX]` of every slot,
and the directory that `cr3` points to.  The other entries of the directories
are set by `init_paging` and stay.

The set of allocated slots is a ghost beside them: what `new_process_ptable`
returned and `return_parent_paging` has not taken back.  The entries follow it
over any order of calls.  `swap_task_paging` admits the slot `MAX_PROCESS`,
whose directory lies behind the table; `paging_isolated_iff` says that this is
all that can go wrong.
-/

namespace CompE.Kernel

open CompE.Library

/-! ## The calls -/

/-- What `cr3` points to: `page_dir`, or an element of `process_pdir_table`;
the index is not checked here. -/
inductive LoadedDir where
  | pageDir
  | process (i : Nat)
  deriving DecidableEq, Repr

structure Paging where
  /-- `process_pdir_table[j].pde[USER_IDX]` -/
  userPde : Slot → BitVec 32
  cr3 : LoadedDir

/-- `new_process_ptable`; `none` for the return value -1. -/
def Paging.newProcessPtable (p : Paging) : Option Slot × Paging :=
  match (List.finRange maxProcess).find? fun i => ¬ present (p.userPde i) with
  | none => (none, p)
  | some i =>
      (some i,
        { userPde := Function.update p.userPde i (p.userPde i ||| 0x1#32)
          cr3 := .process i.val })

/-- `return_parent_paging`, called while process `pid` with parent `parentPid`
runs. -/
def Paging.returnParentPaging (pid parentPid : Slot) (p : Paging) : Paging where
  userPde := Function.update p.userPde pid (p.userPde pid - 0x1#32)
  cr3 := .process parentPid.val

/-- `swap_task_paging`: its return value and the new state. -/
def Paging.swapTaskPaging (targetPid : BitVec 8) (p : Paging) : Int × Paging :=
  if targetPid.toInt < 0 ∨ targetPid.toInt > maxProcess then (-1, p)
  else (0, { p with cr3 := .process targetPid.toInt.toNat })

/-- The state that `init_paging` leaves. -/
def initPaging : Paging where
  userPde := initUserPde
  cr3 := .pageDir

/-- A call from the rest of the kernel. -/
inductive PagingCall where
  | newProcess
  | returnParent (pid parentPid : Slot)
  | swapTask (targetPid : BitVec 8)
  deriving DecidableEq, Repr

/-- The paging structures and the slots that are allocated. -/
structure Allocation where
  paging : Paging
  allocated : Slot → Bool

namespace Allocation

def step (s : Allocation) : PagingCall → Allocation
  | .newProcess =>
      match s.paging.newProcessPtable with
      | (none, p) => { s with paging := p }
      | (some i, p) => ⟨p, Function.update s.allocated i true⟩
  | .returnParent pid parentPid =>
      ⟨s.paging.returnParentPaging pid parentPid,
        Function.update s.allocated pid false⟩
  | .swapTask t => { s with paging := (s.paging.swapTaskPaging t).2 }

/-- `halt` returns to a live parent from a live process. -/
def legal (s : Allocation) : PagingCall → Prop
  | .returnParent pid parentPid =>
      s.allocated pid = true ∧ s.allocated parentPid = true
  | _ => True

def machine : Machine Allocation PagingCall Unit where
  step := step
  emit _ _ := []
  legal := legal

/-- After `init_paging` no slot is allocated. -/
def boot : Allocation := ⟨initPaging, fun _ => false⟩

end Allocation

/-! ## The user entries -/

/-- The 4 MB frame of a slot. -/
def userFrame (j : Slot) : Nat := 0x800000 + j.val * 0x400000

/-- The frame of a slot, `USER_BITS`, and the present bit. -/
def userEntry (j : Slot) (isPresent : Bool) : BitVec 32 :=
  BitVec.ofNat 32 (userFrame j + 0x96 + if isPresent then 1 else 0)

private theorem present_userEntry (j : Slot) (b : Bool) :
    present (userEntry j b) ↔ b = true := by
  revert j b
  decide

private theorem userEntry_or (j : Slot) :
    userEntry j false ||| 0x1#32 = userEntry j true := by
  revert j
  decide

private theorem userEntry_sub (j : Slot) :
    userEntry j true - 0x1#32 = userEntry j false := by
  revert j
  decide

/-- The page that an entry names, as a range of physical addresses. -/
def framed (pde : BitVec 32) (a : Nat) : Prop :=
  (pde &&& 0xFFC00000#32).toNat ≤ a ∧
    a < (pde &&& 0xFFC00000#32).toNat + 0x400000

/-- The entries of the slots follow the allocation. -/
def Mapped (s : Allocation) : Prop :=
  ∀ j, s.paging.userPde j = userEntry j (s.allocated j)

/-- The slot that `new_process_ptable` takes. -/
def lowestFree (s : Allocation) : Option Slot :=
  (List.finRange maxProcess).find? fun i => !s.allocated i

theorem Mapped.newProcessPtable {s : Allocation} (h : Mapped s) :
    s.paging.newProcessPtable =
      match lowestFree s with
      | none => (none, s.paging)
      | some i =>
          (some i, ⟨Function.update s.paging.userPde i (userEntry i true),
            .process i.val⟩) := by
  have hFind : (fun i => decide (¬ present (s.paging.userPde i))) =
      fun i => !s.allocated i := by
    funext i
    rw [h i]
    cases hFree : s.allocated i <;> simp [present_userEntry]
  unfold Paging.newProcessPtable lowestFree
  rw [hFind]
  cases hSlot : (List.finRange maxProcess).find? fun i => !s.allocated i with
  | none => rfl
  | some i =>
      have hFree : s.allocated i = false := by
        simpa using List.find?_some hSlot
      simp only [h i, hFree, userEntry_or]

theorem Mapped.step {s : Allocation} {i : PagingCall} (h : Mapped s)
    (hLegal : s.legal i) : Mapped (s.step i) := by
  cases i with
  | newProcess =>
      intro j
      simp only [Allocation.step, h.newProcessPtable]
      cases lowestFree s with
      | none => exact h j
      | some i =>
          by_cases hj : j = i
          · subst hj
            simp
          · simpa [hj] using h j
  | returnParent pid parentPid =>
      intro j
      simp only [Allocation.step, Paging.returnParentPaging]
      by_cases hj : j = pid
      · subst hj
        rw [Function.update_self, Function.update_self, h j, hLegal.1,
          userEntry_sub]
      · simpa [hj] using h j
  | swapTask t =>
      intro j
      simp only [Allocation.step, Paging.swapTaskPaging]
      split <;> exact h j

/-- The paging structures of the kernel's globals. -/
def Globals.paging {Sp : Type} (k : Globals Sp) : Paging where
  userPde := k.userPde
  cr3 :=
    match k.cr3 with
    | .boot => .pageDir
    | .process p => .process p.val

/-- `execute` takes a slot as `new_process_ptable` does. -/
theorem newProcessPtable_paging {Sp : Type} (k : Globals Sp) :
    k.paging.newProcessPtable =
      match newProcessPtable k with
      | none => (none, k.paging)
      | some (i, k') => (some i, k'.paging) := by
  unfold Paging.newProcessPtable newProcessPtable freeSlot Globals.paging
  cases (List.finRange maxProcess).find? fun i => ¬ present (k.userPde i) <;> rfl

/-- The end of a process with a parent is `return_parent_paging`. -/
theorem returnParentPaging_paging {Sp : Type} {k : Globals Sp} {p q : Slot}
    (hCur : k.curPcb = some p) (hParent : (k.pcbs p).parentPid = some q) :
    (releasePage (loadParentDir k)).paging =
      k.paging.returnParentPaging (k.pcbs p).pid q := by
  simp [releasePage, loadParentDir, hCur, hParent, Globals.paging,
    Paging.returnParentPaging]

/-- The scheduler's slots are below the table's end, so the call for slot 6
is not among its own. -/
theorem swapTaskPaging_paging {Sp : Type} (k : Globals Sp) (p : Slot) :
    ∃ k', swapTaskPaging p k = some k' ∧
      k.paging.swapTaskPaging (BitVec.ofNat 8 p.val) = (0, k'.paging) := by
  have hInt : (BitVec.ofNat 8 p.val).toInt = p.val := by
    revert p
    decide
  refine ⟨{ k with cr3 := .process p }, ?_, ?_⟩
  · exact if_neg (Nat.not_lt.2 (Nat.le_of_lt p.isLt))
  · unfold Paging.swapTaskPaging
    rw [hInt, if_neg (by omega)]
    rfl

end CompE.Kernel
