import CompE.Kernel.Interrupts

/-!
# Interrupts in `execute` and `halt`

Between the `sti` inside `file_to_mem` and the end of `execute`, and from
`return_parent_paging` to the last section of `halt`, interrupts are enabled
while `cur_pcb`, `cr3` and the front of the queue disagree.  Call these the
windows.  Outside of them the kernel is `Steady`: the scheduler invariant
holds, and every call in progress that the timer can bring back finds what it
has read so far still true.

Two results come from this.  No interleaving breaks the rules as long as no
call enters a window, and every entry into a window breaks them.  And the
interrupts are to blame, not the code between them: if no interrupt falls into
a window, each call writes only what is its own and leaves a window in a
steady state.
-/

namespace CompE.Kernel

open CompE.Library

/-! ## The rules -/

/-- `cur_pcb` is the front of the queue, and its directory is loaded. -/
def Settled (k : Globals Ctx) : Prop :=
  match k.curPcb with
  | none => False
  | some p => pcbAt k.taskQueue 0 = some p ∧ k.cr3 = .process p

instance (k : Globals Ctx) : Decidable (Settled k) := by
  unfold Settled
  exact match k.curPcb with
  | none => inferInstanceAs (Decidable False)
  | some p => inferInstanceAs (Decidable (_ ∧ _))

/-- No `execute` and no `halt` is in progress, neither in the running task nor
in one that the timer can bring back. -/
def Micro.Idle (m : Micro) : Prop :=
  m.ctx.isUser = true ∧
    ∀ t ∈ (tasks m.kernel.taskQueue).tail, t.enabled = true →
      t.esp.isUser = true

/-- What is asked of a step: afterwards the kernel is settled, what an
`execute` or a `halt` has written belongs to the process it is creating or
ending, and with no call in progress the scheduler invariant holds. -/
structure StepSafe (fs : FileSys) (m : Micro) (i : MicroStep) : Prop where
  settled : Settled (m.step fs i).kernel
  owned : i = .go → ∀ w ∈ m.writes fs, m.subject fs = some w.owner
  restored : (m.step fs i).Idle →
    SchedulerInvariant (m.step fs i).kernel (m.step fs i).tree

/-- The step enters a window: an `execute` takes a slot, or a `halt` loads the
directory of the parent. -/
def Micro.entersWindow (fs : FileSys) (m : Micro) : MicroStep → Bool
  | .go =>
      match m.ctx with
      | .curSaved fname _ _ _ => (takenSlot fs fname m.kernel).isSome
      | .halting _ _ (.loadParent :: _) => true
      | _ => false
  | _ => false

/-! ## Calls in progress outside the windows -/

/-- What a call of process `owner` has read is still true. -/
def Ctx.Calm (tree : ProcessTree Slot) (owner : Slot) : Ctx → Prop
  | .user | .execute _ | .parsed _ _ | .halt _ => True
  | .parentSet _ _ parent => parent = some owner
  | .curSaved _ _ parent tempCur =>
      parent = some owner ∧ tempCur.pcb = some owner ∧ tempCur.enabled = true
  | .copying _ _ _ _ => False
  | .filling _ _ rest => rest = []
  | .halting ended _ rest =>
      rest = [] ∨
        ended = owner ∧ owner ≠ 0 ∧ (∃ q, tree.parent owner = some q) ∧
          ∃ files, (∀ stmt ∈ files, stmt ∈ haltFiles) ∧
            rest = files ++ haltSwitch
  | .hung => False

/-- Only the owner's parent matters. -/
theorem Ctx.Calm.congr {tree tree' : ProcessTree Slot} {owner : Slot}
    {ctx : Ctx} (h : ctx.Calm tree owner)
    (hParent : tree'.parent owner = tree.parent owner) :
    ctx.Calm tree' owner := by
  cases ctx with
  | halting ended temp rest =>
      unfold Ctx.Calm at h ⊢
      rw [hParent]
      exact h
  | _ => exact h

/-- Cleaning up writes the PCB of the process that runs. -/
theorem HaltStmt.writes_haltFiles {k : Globals Ctx} {stmt : HaltStmt}
    (hStmt : stmt ∈ haltFiles) {w : Write} (hw : w ∈ stmt.writes k) :
    k.curPcb = some w.owner := by
  have hPcb : w ∈ k.curPcb.toList.map Write.pcb := by
    cases stmt with
    | clearFile | clearVidmap => exact hw
    | clearVmem => simp [HaltStmt.writes] at hw
    | _ => simp [haltFiles] at hStmt
  obtain ⟨p, hp, hEq⟩ := List.mem_map.1 hPcb
  subst hEq
  exact Option.mem_toList.1 hp

/-- A `halt` outside its window, with a statement to run. -/
theorem Ctx.Calm.halting_cons {tree : ProcessTree Slot} {owner ended : Slot}
    {temp : Task Ctx} {stmt : HaltStmt} {rest : List HaltStmt}
    (h : (Ctx.halting ended temp (stmt :: rest)).Calm tree owner) :
    ended = owner ∧ owner ≠ 0 ∧ (∃ q, tree.parent owner = some q) ∧
      ((stmt ∈ haltFiles ∧ ∃ files, (∀ s ∈ files, s ∈ haltFiles) ∧
          rest = files ++ haltSwitch) ∨
        stmt :: rest = haltSwitch) := by
  rcases h with hNil | ⟨hEnded, hNotZero, hParent, files, hFiles, hRest⟩
  · contradiction
  · refine ⟨hEnded, hNotZero, hParent, ?_⟩
    cases files with
    | nil => exact Or.inr hRest
    | cons s files =>
        injection hRest with hStmt hRest
        subst hStmt
        exact Or.inl ⟨hFiles stmt (List.mem_cons_self ..), files,
          fun s hs => hFiles s (List.mem_cons_of_mem _ hs), hRest⟩

/-- The kernel agrees with the process tree, and the calls in progress that can
go on are calm. -/
structure SteadyAt (m : Micro) (front : Task Ctx) (others : List (Task Ctx))
    (cur : Slot) : Prop where
  roots : ∀ p : Slot, p.val < 3 → m.tree.live p ∧ m.tree.parent p = none
  scheduled : Scheduled m.kernel m.tree front others cur
  running : m.ctx.Calm m.tree cur
  waiting : ∀ t ∈ others, t.enabled = true → ∀ p, t.pcb = some p →
    t.esp.Calm m.tree p

def Steady (m : Micro) : Prop := ∃ front others cur, SteadyAt m front others cur

namespace SteadyAt

variable {fs : FileSys} {m : Micro} {front : Task Ctx}
  {others : List (Task Ctx)} {cur : Slot}

theorem settled (h : SteadyAt m front others cur) : Settled m.kernel := by
  obtain ⟨rest, hHead⟩ := h.scheduled.head
  unfold Settled
  rw [h.scheduled.curPcb]
  refine ⟨?_, h.scheduled.cr3⟩
  rw [pcbAt, hHead]
  exact h.scheduled.front_pcb

theorem not_booting (h : SteadyAt m front others cur) : ¬ booting m.kernel :=
  h.scheduled.not_booting fun p hp => (h.roots p hp).1

/-- After boot the parent is the caller. -/
theorem executeParent_eq (h : SteadyAt m front others cur) :
    executeParent m.kernel = some cur := by
  unfold executeParent
  rw [h.scheduled.curPcb]
  simp only [h.scheduled.pid cur h.scheduled.cur_live]
  exact if_neg fun hShort => h.not_booting (Or.inr hShort)

/-- The call moves on and changes nothing. -/
theorem move (h : SteadyAt m front others cur) {ctx : Ctx}
    (hCalm : ctx.Calm m.tree cur) :
    SteadyAt { m with ctx := ctx } front others cur where
  roots := h.roots
  scheduled := h.scheduled
  running := hCalm
  waiting := h.waiting

/-- The call moves on and changes nothing that tells processes apart. -/
theorem moveQuiet (h : SteadyAt m front others cur) {k : Globals Ctx}
    {ctx : Ctx} (hQuiet : Quiet m.kernel k) (hCalm : ctx.Calm m.tree cur) :
    SteadyAt { m with kernel := k, ctx := ctx } front others cur where
  roots := h.roots
  scheduled := h.scheduled.quiet hQuiet
  running := hCalm
  waiting := h.waiting

/-- A timer interrupt goes on with some enabled task, which is calm. -/
theorem tick (h : SteadyAt m front others cur) : Steady (m.tick fs) := by
  obtain ⟨k, next, rest, p, hTick, hPerm, hp, hNext⟩ :=
    h.scheduled.tick fs { esp := m.ctx, ebp := m.ctx }
      { esp := .user, ebp := .user } h.not_booting
  have hAll : ∀ t ∈ next :: rest, t.enabled = true → ∀ q, t.pcb = some q →
      t.esp.Calm m.tree q := by
    intro t ht hOn q hq
    rcases List.mem_cons.1 (hPerm.mem_iff.1 ht) with hFront | hOther
    · subst hFront
      have hqc : q = cur := Option.some.inj (hq.symm.trans h.scheduled.front_pcb)
      subst hqc
      exact h.running
    · exact h.waiting t hOther hOn q hq
  obtain ⟨tail, hHead⟩ := hNext.head
  have hResume : resume k = next.esp := by
    unfold resume
    rw [hHead]
  refine ⟨{ next with state := 1 }, rest, p, ?_⟩
  unfold Micro.tick
  rw [hTick]
  exact
    { roots := h.roots
      scheduled := hNext
      running := by
        show (resume k).Calm m.tree p
        rw [hResume]
        exact hAll next (List.mem_cons_self ..) hNext.front_enabled p hp
      waiting := fun t ht => hAll t (List.mem_cons_of_mem _ ht) }

/-- A step of a call outside the windows. -/
theorem go (h : SteadyAt m front others cur)
    (hOut : m.entersWindow fs .go = false) : Steady (m.go fs) := by
  have hCalm := h.running
  unfold Micro.entersWindow at hOut
  cases hCtx : m.ctx with
  | user =>
      simp only [Micro.go, hCtx]
      exact ⟨front, others, cur, h⟩
  | execute strname =>
      simp only [Micro.go, hCtx]
      exact ⟨front, others, cur, h.move trivial⟩
  | parsed fname argstr =>
      simp only [Micro.go, hCtx]
      exact ⟨front, others, cur, h.move h.executeParent_eq⟩
  | parentSet fname argstr parent =>
      obtain ⟨rest, hHead⟩ := h.scheduled.head
      rw [hCtx] at hCalm
      simp only [Micro.go, hCtx, hHead]
      exact ⟨front, others, cur, h.move
        ⟨hCalm, h.scheduled.front_pcb, h.scheduled.front_enabled⟩⟩
  | curSaved fname argstr parent tempCur =>
      simp only [hCtx, takenSlot] at hOut
      simp only [Micro.go, hCtx, newProcessPtable]
      cases hCheck : checkExecutable fs fname with
      | none => exact ⟨front, others, cur, h.move trivial⟩
      | some header =>
          simp only [hCheck, Option.isSome_some, if_true] at hOut
          cases hFree : freeSlot m.kernel with
          | none => exact ⟨front, others, cur, h.move trivial⟩
          | some c =>
              rw [hFree] at hOut
              contradiction
  | copying child inode pass l =>
      rw [hCtx] at hCalm
      exact hCalm.elim
  | filling child l rest =>
      rw [hCtx] at hCalm
      have hNil : rest = [] := hCalm
      subst hNil
      simp only [Micro.go, hCtx]
      exact ⟨front, others, cur, h.move trivial⟩
  | halt temp =>
      simp only [Micro.go, hCtx, h.scheduled.curPcb]
      by_cases hRoot : haltsRoot m.kernel
      · rw [if_pos hRoot]
        exact ⟨front, others, cur, h.move trivial⟩
      · rw [if_neg hRoot]
        have hNotRoot := fun hOr => hRoot (h.scheduled.haltsRoot_iff.2 hOr)
        refine ⟨front, others, cur, h.move (Or.inr ⟨rfl,
          fun hZero => hNotRoot (Or.inr hZero), ?_, haltFiles,
          fun _ hs => hs, rfl⟩)⟩
        exact Option.ne_none_iff_exists'.1 fun hNone => hNotRoot (Or.inl hNone)
  | halting ended temp rest =>
      rw [hCtx] at hCalm
      cases rest with
      | nil =>
          simp only [Micro.go, hCtx]
          exact ⟨front, others, cur, h.move trivial⟩
      | cons stmt rest =>
          obtain ⟨hEnded, hNotZero, hParent, hClean | hSwitch⟩ :=
            hCalm.halting_cons
          · obtain ⟨hStmt, files, hFiles, hRest⟩ := hClean
            have hMore : rest ≠ [] := by
              rw [hRest]
              exact List.append_ne_nil_of_right_ne_nil _ (List.cons_ne_nil _ _)
            simp only [Micro.go, hCtx, if_neg hMore]
            exact ⟨front, others, cur, h.moveQuiet
              (Quiet.haltFiles temp m.kernel hStmt)
              (Or.inr ⟨hEnded, hNotZero, hParent, files, hFiles, hRest⟩)⟩
          · injection hSwitch with hStmt hRest
            subst hStmt
            simp [hCtx] at hOut
  | hung =>
      rw [hCtx] at hCalm
      exact hCalm.elim

/-- A step that does not enter a window keeps the kernel steady. -/
theorem step (h : SteadyAt m front others cur) {i : MicroStep}
    (hOut : m.entersWindow fs i = false) : Steady (m.step fs i) := by
  cases i with
  | tick => exact h.tick
  | go => exact h.go hOut
  | execute strname => exact ⟨front, others, cur, h.move trivial⟩
  | halt temp => exact ⟨front, others, cur, h.move trivial⟩

/-- Outside the windows only a `halt` writes, and what it writes is the PCB of
the process that ends. -/
theorem owned (h : SteadyAt m front others cur)
    (hOut : m.entersWindow fs .go = false) :
    ∀ w ∈ m.writes fs, m.subject fs = some w.owner := by
  have hCalm := h.running
  unfold Micro.entersWindow at hOut
  intro w hw
  unfold Micro.writes at hw
  unfold Micro.subject
  cases hCtx : m.ctx with
  | curSaved fname argstr parent tempCur =>
      simp only [hCtx] at hOut hw
      rw [Option.isSome_eq_false_iff, Option.isNone_iff_eq_none] at hOut
      simp [hOut] at hw
  | copying child inode pass l =>
      rw [hCtx] at hCalm
      exact hCalm.elim
  | filling child l rest =>
      rw [hCtx] at hCalm
      have hNil : rest = [] := hCalm
      subst hNil
      simp [hCtx] at hw
  | halting ended temp rest =>
      rw [hCtx] at hCalm
      cases rest with
      | nil => simp [hCtx] at hw
      | cons stmt rest =>
          obtain ⟨hEnded, _, _, hClean | hSwitch⟩ := hCalm.halting_cons
          · simp only [hCtx] at hw
            have hCur := HaltStmt.writes_haltFiles hClean.1 hw
            rw [h.scheduled.curPcb] at hCur
            show some ended = some w.owner
            rw [hEnded, hCur]
          · injection hSwitch with hStmt _
            subst hStmt
            simp [hCtx] at hOut
  | _ => simp [hCtx] at hw

/-- A step that does not enter a window is safe. -/
theorem stepSafe (h : SteadyAt m front others cur) {i : MicroStep}
    (hOut : m.entersWindow fs i = false) : StepSafe fs m i := by
  obtain ⟨front', others', cur', hNext⟩ := h.step hOut
  exact
    { settled := hNext.settled
      owned := by
        intro hGo
        subst hGo
        exact h.owned hOut
      restored := fun _ => hNext.scheduled.schedulerInvariant }

/-- A step that enters a window is not. -/
theorem not_stepSafe (h : SteadyAt m front others cur) {i : MicroStep}
    (hEnters : m.entersWindow fs i = true) : ¬ StepSafe fs m i := by
  intro hSafe
  have hSettled := hSafe.settled
  have hCalm := h.running
  cases i with
  | tick | execute | halt => contradiction
  | go =>
      unfold Micro.entersWindow at hEnters
      cases hCtx : m.ctx with
      | curSaved fname argstr parent tempCur =>
          simp only [hCtx, takenSlot] at hEnters
          simp only [Micro.step, Micro.go, hCtx, newProcessPtable] at hSettled
          cases hCheck : checkExecutable fs fname with
          | none => simp [hCheck] at hEnters
          | some header =>
              cases hFree : freeSlot m.kernel with
              | none => simp [hCheck, hFree] at hEnters
              | some c =>
                  simp only [hCheck, hFree] at hSettled
                  have hFront : pcbAt m.kernel.taskQueue 0 = some c :=
                    hSettled.1
                  obtain ⟨rest, hHead⟩ := h.scheduled.head
                  rw [pcbAt, hHead] at hFront
                  have hcc : c = cur := Option.some.inj
                    (hFront.symm.trans h.scheduled.front_pcb)
                  apply freeSlot_spec hFree
                  rw [h.scheduled.present_iff, hcc]
                  exact h.scheduled.cur_live
      | halting ended temp rest =>
          cases rest with
          | nil => simp [hCtx] at hEnters
          | cons stmt rest =>
              rw [hCtx] at hCalm
              obtain ⟨_, _, ⟨q, hq⟩, _⟩ := hCalm.halting_cons
              cases stmt with
              | loadParent =>
                  have hLink := (h.scheduled.parentPid cur
                    h.scheduled.cur_live).trans hq
                  simp only [Micro.step, Micro.go, hCtx, HaltStmt.run,
                    loadParentDir, h.scheduled.curPcb, hLink, Settled]
                    at hSettled
                  have hqc : q = cur := PageDir.process.inj hSettled.2
                  rw [hqc] at hq
                  exact h.scheduled.wellFormed.parent_ne cur
                    h.scheduled.cur_live hq
              | _ => simp [hCtx] at hEnters
      | _ => simp [hCtx] at hEnters

end SteadyAt

/-- After boot: the third shell runs, the other two were interrupted in their
user programs. -/
theorem Steady.boot {k : Globals Ctx} {front : Task Ctx}
    {others : List (Task Ctx)} (h : Scheduled k bootTree front others 2)
    (hWaiting : ∀ t ∈ others, t.esp = .user) :
    Steady { kernel := k, ctx := .user, tree := bootTree } := by
  refine ⟨front, others, 2, (SystemInv.boot h).roots, h, trivial, ?_⟩
  intro t ht _ p _
  rw [hWaiting t ht]
  trivial

end CompE.Kernel
