import CompE.Kernel.SchedulerInvariant

/-!
# What a failing `execute` leaves behind

`execute` returns -1 for a name that is not in the directory, a header that
cannot be read or is no ELF header, and when all six slots are taken.  Up to
there it has changed nothing.  It also returns -1 when the copy of the program
comes out short and when the entry point reads 0xFFFFFFFF, and then a slot is
taken already: the present bit of the slot is set, its directory is loaded,
`cur_pcb` is its PCB, and nothing is put back.
-/

namespace CompE.Kernel

open CompE.Library

variable {Sp : Type}

/-- A call that leaves everything as its caller had it. -/
structure Unchanged (k k' : Globals Sp) : Prop where
  curPcb : k'.curPcb = k.curPcb
  callerPcb : ∀ p, k.curPcb = some p → k'.pcbs p = k.pcbs p
  taskQueue : k'.taskQueue = k.taskQueue
  present_iff : ∀ p, present (k'.userPde p) ↔ present (k.userPde p)
  cr3 : k'.cr3 = k.cr3
  conOvr : k'.conOvr = k.conOvr

theorem Unchanged.refl (k : Globals Sp) : Unchanged k k where
  curPcb := rfl
  callerPcb := fun _ _ => rfl
  taskQueue := rfl
  present_iff := fun _ => Iff.rfl
  cr3 := rfl
  conOvr := rfl

/-- A slot that was free is present once it is taken. -/
theorem SlotTaken.not_unchanged {k k' : Globals Sp} {c : Slot}
    (h : SlotTaken k k' c) (hFree : freeSlot k = some c) :
    ¬ Unchanged k k' := by
  intro hSame
  apply freeSlot_spec hFree
  rw [← hSame.present_iff c, h.userPde, Function.update_self]
  exact present_or _

/-- A failing `execute` changed nothing, or left a slot taken. -/
theorem execute_failed {fs : FileSys} {strname : CString} {temp : Regs Sp}
    {k k' : Globals Sp} (hFail : execute fs strname temp k = (.failed, k')) :
    (¬ TakesSlot fs strname k ∧ k' = k) ∨
    (TakesSlot fs strname k ∧ LoadFails fs strname ∧
      ∃ c, freeSlot k = some c ∧ SlotTaken k k' c) := by
  cases hQueue : k.taskQueue with
  | nil =>
      unfold execute at hFail
      simp [hQueue] at hFail
  | cons front rest =>
      by_cases hTakes : TakesSlot fs strname k
      · right
        rcases execute_takesSlot temp hQueue hTakes with
          ⟨hLoad, c, k1, hFree, hSlot, hExec | hExec⟩ | ⟨_, c, k1, _, _, _, hExec⟩
        · simp [hExec] at hFail
        · rw [hExec] at hFail
          injection hFail with _ hState
          subst hState
          exact ⟨hTakes, hLoad, c, hFree, hSlot⟩
        · simp [hExec] at hFail
      · left
        have hEarly : execute fs strname temp k = (.failed, k) :=
          execute_early temp (by rw [hQueue]; exact List.cons_ne_nil _ _) hTakes
        rw [hEarly] at hFail
        injection hFail with _ hState
        exact ⟨hTakes, hState.symm⟩

/--
**Atomicity of a failing `execute`.**  In any state, for any image and any
command, a call that returns -1 has changed nothing exactly when it did not
come to take a slot.
-/
theorem execute_failure_atomic {fs : FileSys} {strname : CString}
    {temp : Regs Sp} {k k' : Globals Sp}
    (hFail : execute fs strname temp k = (.failed, k')) :
    Unchanged k k' ↔ ¬ TakesSlot fs strname k := by
  rcases execute_failed hFail with ⟨hEarly, hSame⟩ | ⟨hTakes, _, c, hFree, hSlot⟩
  · subst hSame
    exact ⟨fun _ => hEarly, fun _ => Unchanged.refl _⟩
  · exact ⟨fun hSame => absurd hSame (hSlot.not_unchanged hFree),
      fun hEarly => absurd hTakes hEarly⟩

/-- A name that is not there, called from the third shell. -/
theorem execute_failure_atomic_noFile :
    ∃ k k' : Globals Nat,
      bootShells programImage (fun _ => ⟨0, 0⟩) (fun _ => ⟨0, 0⟩)
        (initGlobals 0) = some k ∧
      execute programImage [0x78#8] ⟨0, 0⟩ k = (.failed, k') ∧
      Unchanged k k' := by
  obtain ⟨k, front, others, hBoot, hSched, _⟩ :=
    (initGlobals_afterInit (0 : Nat)).boot programImage_shell
      (fun _ => ⟨0, 0⟩) (fun _ => ⟨0, 0⟩)
  obtain ⟨rest, hHead⟩ := hSched.head
  have hEarly : ¬ TakesSlot programImage [0x78#8] k := by
    intro hTakes
    have hCheck := hTakes.1
    revert hCheck
    decide +kernel
  have hFail := execute_early (⟨0, 0⟩ : Regs Nat)
    (by rw [hHead]; exact List.cons_ne_nil _ _) hEarly
  exact ⟨k, k, hBoot, hFail, (execute_failure_atomic hFail).2 hEarly⟩

/-- `"bad"`, called from the third shell: `cur_pcb` is the PCB of slot 3
after it. -/
theorem execute_bad_changes :
    ∃ k k' : Globals Nat,
      bootShells programImage (fun _ => ⟨0, 0⟩) (fun _ => ⟨0, 0⟩)
        (initGlobals 0) = some k ∧
      execute programImage [0x62#8, 0x61#8, 0x64#8] ⟨0, 0⟩ k = (.failed, k') ∧
      k.curPcb = some 2 ∧ k'.curPcb = some 3 ∧ ¬ Unchanged k k' := by
  obtain ⟨k, hBoot⟩ : ∃ k, bootShells programImage (fun _ => ⟨0, 0⟩)
      (fun _ => ⟨0, 0⟩) (initGlobals (0 : Nat)) = some k :=
    Option.isSome_iff_exists.1 (by decide +kernel)
  have hRun : (bootShells programImage (fun _ => ⟨0, 0⟩) (fun _ => ⟨0, 0⟩)
      (initGlobals (0 : Nat))).map (fun k =>
        let r := execute programImage [0x62#8, 0x61#8, 0x64#8] ⟨0, 0⟩ k
        (r.1, k.curPcb, r.2.curPcb)) =
      some (.failed, some 2, some 3) := by
    decide +kernel
  rw [hBoot, Option.map_some, Option.some.injEq] at hRun
  obtain ⟨hFailed, hBefore, hAfter⟩ : _ = _ ∧ _ = _ ∧ _ = _ := by
    simpa only [Prod.mk.injEq] using hRun
  refine ⟨k, _, hBoot, Prod.ext hFailed rfl, hBefore, hAfter, ?_⟩
  intro hSame
  have hCur := hSame.curPcb
  rw [hBefore, hAfter] at hCur
  revert hCur
  decide

end CompE.Kernel
