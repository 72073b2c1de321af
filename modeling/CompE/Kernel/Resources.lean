import CompE.Kernel.Lifecycle

/-!
# What a process finds, and what it leaves

Two things that belong to a process are kept in its slot and must be given
back: the open descriptors and the user mapping of the video memory.

`halt` clears the descriptors of a process that ends, so a child finds a free
table; but a root shell that halts is started again with the files it has
open.  And `halt` clears entry 0 of the page table, whichever slot the process
is in.  Both conditions under which nothing goes wrong are exact.
-/

namespace CompE.Kernel

open CompE.Library

variable {Sp : Type}

/-- The root shell that a `halt` starts again. -/
def restartedShell (s : Life Sp) : SystemStep Sp → Option Slot
  | .halt _ => if haltsRoot s.kernel then s.kernel.curPcb else none
  | _ => none

/-! ## Descriptors -/

/-- Exactly descriptors 0 and 1 are in use. -/
structure CleanTable (files : FileArray) : Prop where
  terminal : ∀ fd, fd < 2 → (files fd).inUse = true
  free : ∀ fd, 2 ≤ fd → fd < numFds → (files fd).inUse = false

/-- No file is open. -/
def NoneOpen (files : FileArray) : Prop :=
  ∀ fd, 2 ≤ fd → fd < numFds → (files fd).inUse = false

/-- Tables of processes are as `Kernel.Descriptors` has them, those of free
slots have no file open. -/
structure TablesInv (k : Globals Sp) (tree : ProcessTree Slot) : Prop where
  live : ∀ p, tree.live p →
    ∃ openedOn, TableInv ⟨(k.pcbs p).fileArray, openedOn⟩
  free : ∀ p, ¬ tree.live p → NoneOpen (k.pcbs p).fileArray

private theorem startFiles_start {files : FileArray} (h : NoneOpen files) :
    StartTable (startFiles files) where
  terminal := by
    intro fd hfd
    have hCases : fd = 0 ∨ fd = 1 := by omega
    rcases hCases with hZero | hOne
    · subst hZero; simp [startFiles]
    · subst hOne; simp [startFiles]
  free := by
    intro fd hLow hHigh
    have h0 : fd ≠ 0 := by omega
    have h1 : fd ≠ 1 := by omega
    simpa [startFiles, h0, h1] using h fd hLow hHigh

theorem StartTable.clean {files : FileArray} (h : StartTable files) :
    CleanTable files where
  terminal := fun fd hfd => (h.terminal fd hfd).1
  free := h.free

/-- The table of a live process is clean when no file is open. -/
theorem TableInv.clean_iff {t : Table} (h : TableInv t) :
    CleanTable t.files ↔ NoneOpen t.files :=
  ⟨CleanTable.free, fun hNone =>
    { terminal := fun fd hfd => (h.terminal fd hfd).1, free := hNone }⟩

private theorem clearedFiles_noneOpen (files : FileArray) :
    NoneOpen (clearedFiles files) := by
  intro fd _ hHigh
  rw [clearedFiles, if_pos hHigh]
  rfl

namespace TablesInv

variable {k k' : Globals Sp} {tree : ProcessTree Slot}

theorem same (h : TablesInv k tree) (hPcbs : k'.pcbs = k.pcbs) :
    TablesInv k' tree where
  live := by rw [hPcbs]; exact h.live
  free := by rw [hPcbs]; exact h.free

/-- A process that is started in a free slot. -/
theorem born (h : TablesInv k tree) {kExec : Globals Sp} {c : Slot}
    (hFree : ¬ tree.live c) (hBorn : Born kExec k' c)
    (hPcbs : kExec.pcbs = k.pcbs) (hOthers : ∀ p, p ≠ c → k'.pcbs p = k.pcbs p)
    (parent : Option Slot) :
    CleanTable (k'.pcbs c).fileArray ∧ TablesInv k' (tree.spawn parent c) := by
  have hStart : StartTable (k'.pcbs c).fileArray := by
    rw [hBorn.fileArray, hPcbs]
    exact startFiles_start (h.free c hFree)
  refine ⟨hStart.clean, ?_, ?_⟩
  · intro p hp
    by_cases hEq : p = c
    · subst hEq
      exact ⟨fun _ => none, hStart.tableInv _⟩
    · rw [hOthers p hEq]
      exact h.live p (hp.resolve_left hEq)
  · intro p hp
    have hNe : p ≠ c := fun hEq => hp (Or.inl hEq)
    rw [hOthers p hNe]
    exact h.free p fun hOld => hp (Or.inr hOld)

/-- A process that ends. -/
theorem ended (h : TablesInv k tree) {cur : Slot}
    (hEnded : Ended k k' cur) : TablesInv k' (tree.exit cur) where
  live := by
    rintro p ⟨hNe, hLive⟩
    rw [hEnded.pcbs, Function.update_of_ne hNe]
    exact h.live p hLive
  free := by
    intro p hp
    rw [hEnded.pcbs]
    by_cases hEq : p = cur
    · subst hEq
      rw [Function.update_self]
      exact clearedFiles_noneOpen _
    · rw [Function.update_of_ne hEq]
      exact h.free p fun hLive => hp ⟨hEq, hLive⟩

/-- A call on files by a live process. -/
theorem filed (h : TablesInv k tree) {fs : FileSys} {c : FileCall}
    {r : CallResult} {files : FileArray} {cur : Slot}
    (hCur : k.curPcb = some cur) (hLive : tree.live cur)
    (hRun : c.run fs (k.pcbs cur).fileArray = some (r, files)) :
    TablesInv (k.writePcb ({ · with fileArray := files })) tree := by
  rw [Globals.writePcb_some hCur]
  refine { live := ?_, free := ?_ }
  · intro p hp
    by_cases hEq : p = cur
    · subst hEq
      obtain ⟨openedOn, hInv⟩ := h.live p hp
      have hNext : TableInv (Table.step fs _ c) := hInv.step c
      simp only [Table.step, hRun] at hNext
      simp only [Function.update_self]
      exact ⟨_, hNext⟩
    · simp only [Function.update_of_ne hEq]
      exact h.live p hp
  · intro p hp
    have hNe : p ≠ cur := fun hEq => hp (hEq ▸ hLive)
    simp only [Function.update_of_ne hNe]
    exact h.free p hp

theorem mapped (h : TablesInv k tree) (cur : Slot) :
    TablesInv (mapVideo k cur) tree := by
  have hFiles : ∀ p, ((mapVideo k cur).pcbs p).fileArray =
      (k.pcbs p).fileArray := by
    intro p
    by_cases hEq : p = cur
    · subst hEq
      simp [mapVideo]
    · simp [mapVideo, hEq]
  exact
    { live := fun p hp => by rw [hFiles p]; exact h.live p hp
      free := fun p hp => by rw [hFiles p]; exact h.free p hp }

end TablesInv

/-- Every program that a step starts, a restarted shell included, finds
exactly descriptors 0 and 1 in use. -/
structure StartsClean (fs : FileSys) (s : Life Sp) (i : SystemStep Sp) :
    Prop where
  started : ∀ c, newProcess fs s i = some c →
    CleanTable (((lifeMachine fs).step s i).kernel.pcbs c).fileArray
  restarted : ∀ c, restartedShell s i = some c →
    CleanTable (((lifeMachine fs).step s i).kernel.pcbs c).fileArray

/-- A root shell that is started again has no file open. -/
def RestartsClosed (s : Life Sp) (i : SystemStep Sp) : Prop :=
  ∀ c, restartedShell s i = some c → NoneOpen (s.kernel.pcbs c).fileArray

/-- The restart of a root shell changes no PCB. -/
theorem restarted_step (fs : FileSys) {s : Life Sp} {i : SystemStep Sp}
    {c : Slot} (hRestart : restartedShell s i = some c) :
    s.kernel.curPcb = some c ∧
      ((lifeMachine fs).step s i).kernel.pcbs = s.kernel.pcbs := by
  cases i with
  | halt temp =>
      have hRoot : haltsRoot s.kernel := by
        by_contra hNot
        simp [restartedShell, hNot] at hRestart
      simp only [restartedShell, if_pos hRoot] at hRestart
      refine ⟨hRestart, ?_⟩
      show (halt temp s.kernel).pcbs = _
      rw [halt, if_pos hRoot]
  | tick | execute | file | vidmap => contradiction

/-- The invariant of the tables is kept, and every new process has a free
table. -/
theorem TablesInv.step {fs : FileSys} {s s' : Life Sp}
    {linked linked' : ProcessTree Slot} {i : SystemStep Sp}
    (h : TablesInv s.kernel s.callers) (hLife : LifeInv s linked)
    (hEffect : Effect fs s linked i s' linked') :
    (∀ c, newProcess fs s i = some c →
      CleanTable (s'.kernel.pcbs c).fileArray) ∧
      TablesInv s'.kernel s'.callers := by
  cases hEffect with
  | quiet i k' hNew hSame =>
      refine ⟨fun c hc => ?_, h.same hSame.pcbs⟩
      rw [hNew] at hc
      contradiction
  | bootFailed isr exec k' hNew _ _ hSame =>
      refine ⟨fun c hc => ?_, h.same hSame.pcbs⟩
      rw [hNew] at hc
      contradiction
  | bootStarted isr exec k' c hNew _ hFree hBorn hOthers =>
      have hFree' := fun hLive => hFree ((hLife.live_iff c).2 hLive)
      obtain ⟨hClean, hNext⟩ := h.born hFree' hBorn rfl hOthers none
      refine ⟨fun d hd => ?_, hNext⟩
      rw [hNew] at hd
      rw [← Option.some.inj hd]
      exact hClean
  | started strname temp k' cur c hNew _ hFree hBorn hOthers =>
      have hFree' := fun hLive => hFree ((hLife.live_iff c).2 hLive)
      obtain ⟨hClean, hNext⟩ := h.born hFree' hBorn rfl hOthers (some cur)
      refine ⟨fun d hd => ?_, hNext⟩
      rw [hNew] at hd
      rw [← Option.some.inj hd]
      exact hClean
  | ended temp k' cur _ _ _ hEnded =>
      exact ⟨fun c hc => (nomatch hc), h.ended hEnded⟩
  | filed c r files cur hCur hRun =>
      exact ⟨fun c hc => (nomatch hc), h.filed hCur (hLife.cur_live hCur) hRun⟩
  | mapped screenStart cur =>
      exact ⟨fun c hc => (nomatch hc), h.mapped cur⟩

/--
**What a program starts with.**  From boot on, whatever processes execute,
halt, open, close, read and write, all programs that start do so with exactly
descriptors 0 and 1 in use, if and only if no root shell halts with a file
open.
-/
theorem starts_clean {fs : FileSys} {k : Globals Sp} (hInit : AfterInit k)
    (hClear : ∀ p, NoneOpen (k.pcbs p).fileArray) (run : List (SystemStep Sp))
    (hLegal : (lifeMachine fs).Legal (lifeStart k) run) :
    (lifeMachine fs).Always (StartsClean fs) (lifeStart k) run ↔
      (lifeMachine fs).Always RestartsClosed (lifeStart k) run := by
  refine (lifeMachine fs).always_iff_of_invariant
    (I := fun s => ∃ linked, LifeInv s linked ∧ TablesInv s.kernel s.callers)
    ?_ ?_ run (lifeStart k) ⟨emptyTree, lifeStart_inv hInit, ?_⟩ hLegal
  · rintro s i ⟨linked, hLife, hTables⟩ hStep hClosed
    obtain ⟨s', linked', hEq, hNext, hEffect⟩ := hLife.step i hStep
    obtain ⟨hStarted, hKept⟩ := hTables.step hLife hEffect
    refine ⟨{ started := ?_, restarted := ?_ }, ?_⟩
    · rw [hEq]
      exact hStarted
    · intro c hc
      obtain ⟨hCur, hSame⟩ := restarted_step fs hc
      obtain ⟨openedOn, hInv⟩ := hTables.live c (hLife.cur_live hCur)
      rw [hSame]
      exact hInv.clean_iff.2 (hClosed c hc)
    · rw [hEq]
      exact ⟨linked', hNext, hKept⟩
  · rintro s i ⟨linked, hLife, hTables⟩ hStep hClean c hc
    obtain ⟨_, hSame⟩ := restarted_step fs hc
    have hTable := hClean.restarted c hc
    rw [hSame] at hTable
    exact hTable.free
  · exact { live := fun p hp => hp.elim, free := fun p _ => hClear p }

/-- Three timer interrupts. -/
def bootTicks : List (SystemStep Nat) :=
  List.replicate 3 (.tick ⟨0, 0⟩ ⟨0, 0⟩)

/-- The last shell starts another one, which opens a file and halts. -/
def childRun : List (SystemStep Nat) :=
  bootTicks ++ [.execute shell ⟨0, 0⟩, .file (.openFile (some shell)),
    .halt ⟨0, 0, 0, true, none⟩, .execute shell ⟨0, 0⟩]

/-- No shell is started again in it. -/
theorem childRun_quiet :
    (lifeMachine programImage).Legal (lifeStart (initGlobals 0)) childRun ∧
    (lifeMachine programImage).Always (fun s i => restartedShell s i = none)
      (lifeStart (initGlobals 0)) childRun := by
  decide +kernel

private theorem initGlobals_noneOpen (sp : Sp) (p : Slot) :
    NoneOpen ((initGlobals sp).pcbs p).fileArray :=
  fun _ _ _ => rfl

theorem starts_clean_child :
    (lifeMachine programImage).Always (StartsClean programImage)
      (lifeStart (initGlobals 0)) childRun := by
  obtain ⟨hLegal, hNoRestart⟩ := childRun_quiet
  refine (starts_clean (initGlobals_afterInit 0) (initGlobals_noneOpen 0)
    childRun hLegal).2 (Machine.always_mono _ ?_ hNoRestart)
  intro s i hNone c hc
  rw [hNone] at hc
  cases hc

/-- The first shell opens a file and halts. -/
def restartRun : List (SystemStep Nat) :=
  [.tick ⟨0, 0⟩ ⟨0, 0⟩, .file (.openFile (some shell)),
    .halt ⟨0, 0, 0, true, none⟩]

/-- It is started again with descriptor 2 in use. -/
theorem restartRun_notClean :
    (lifeMachine programImage).Legal (lifeStart (initGlobals 0)) restartRun ∧
    ¬ (lifeMachine programImage).Always (StartsClean programImage)
      (lifeStart (initGlobals 0)) restartRun := by
  refine ⟨by decide +kernel, ?_⟩
  rintro ⟨_, _, hClean, _⟩
  have hTable := hClean.restarted 0 (by decide +kernel)
  have hFree := hTable.free 2 (Nat.le_refl 2) (by decide)
  revert hFree
  decide +kernel

/-! ## The user mapping of the video memory -/

/-- Present, for user mode too. -/
def userPresent (pte : BitVec 32) : Prop := pte &&& 0x5#32 = 0x5#32

instance (pte : BitVec 32) : Decidable (userPresent pte) :=
  inferInstanceAs (Decidable (_ = _))

private theorem userVideoPte_present : userPresent userVideoPte := by decide

/-- The entries of the slots after `init_paging`. -/
def VideoInit (k : Globals Sp) : Prop := ∀ p : Slot, k.vmemTable2 p.val = 0#32

/-- The user entry of a slot is present exactly when its process has mapped
the video memory. -/
def VideoMap (k : Globals Sp) (tree : ProcessTree Slot) : Prop :=
  ∀ p : Slot, userPresent (k.vmemTable2 p.val) ↔
    tree.live p ∧ (k.pcbs p).vidmapCheck = true

/-- The entries are as `VideoMap` has them, and the absent ones are zero. -/
structure VideoInv (k : Globals Sp) (tree : ProcessTree Slot) : Prop where
  mapped : ∀ p : Slot, tree.live p → (k.pcbs p).vidmapCheck = true →
    k.vmemTable2 p.val = userVideoPte
  unmapped : ∀ p : Slot, ¬ (tree.live p ∧ (k.pcbs p).vidmapCheck = true) →
    k.vmemTable2 p.val = 0#32

/-- A successful `vidmap` of process `p`. -/
def Maps (s : Life Sp) (i : SystemStep Sp) (p : Slot) : Prop :=
  ∃ screenStart, i = .vidmap screenStart ∧ s.kernel.curPcb = some p ∧
    (vidmap screenStart s.kernel).1 = 0

/-- What a step has to do with the mappings: they agree with the flags; a flag
is set once the process has mapped the video memory; and a `halt` changes
nothing but the entry of the process that ends. -/
structure VideoStep (fs : FileSys) (s : Life Sp) (i : SystemStep Sp) :
    Prop where
  map : VideoMap ((lifeMachine fs).step s i).kernel
    ((lifeMachine fs).step s i).callers
  flag : ∀ p, ((lifeMachine fs).step s i).callers.live p →
    ((((lifeMachine fs).step s i).kernel.pcbs p).vidmapCheck = true ↔
      newProcess fs s i ≠ some p ∧
        ((s.kernel.pcbs p).vidmapCheck = true ∨ Maps s i p))
  halt : ∀ temp cur, i = .halt temp → s.kernel.curPcb = some cur →
    ∀ p : Slot, p ≠ cur →
      ((lifeMachine fs).step s i).kernel.vmemTable2 p.val =
        s.kernel.vmemTable2 p.val

/-- Neither a process that ends nor the first shell has mapped the video
memory. -/
def HaltsUnmapped (s : Life Sp) : SystemStep Sp → Prop
  | .halt _ => ¬ haltsRoot s.kernel → ∀ cur, s.kernel.curPcb = some cur →
      (s.kernel.pcbs cur).vidmapCheck = false ∧
        (s.kernel.pcbs 0).vidmapCheck = false
  | _ => True

namespace VideoInv

variable {k k' : Globals Sp} {tree : ProcessTree Slot}

private theorem videoMap (h : VideoInv k tree) : VideoMap k tree := by
  intro p
  constructor
  · intro hPresent
    by_contra hNot
    rw [h.unmapped p hNot] at hPresent
    revert hPresent
    decide
  · rintro ⟨hLive, hFlag⟩
    rw [h.mapped p hLive hFlag]
    exact userVideoPte_present

theorem same (h : VideoInv k tree) (hSame : SameProcesses k k') :
    VideoInv k' tree where
  mapped := by rw [hSame.pcbs, hSame.vmemTable2]; exact h.mapped
  unmapped := by rw [hSame.pcbs, hSame.vmemTable2]; exact h.unmapped

/-- A process that is started in a free slot has nothing mapped. -/
theorem born (h : VideoInv k tree) {kExec : Globals Sp} {c : Slot}
    (hFree : ¬ tree.live c) (hBorn : Born kExec k' c)
    (hVideo : kExec.vmemTable2 = k.vmemTable2)
    (hOthers : ∀ p, p ≠ c → k'.pcbs p = k.pcbs p) (parent : Option Slot) :
    VideoInv k' (tree.spawn parent c) where
  mapped := by
    intro p hLive hFlag
    have hNe : p ≠ c := by
      intro hEq
      rw [hEq, hBorn.vidmapCheck] at hFlag
      contradiction
    rw [hOthers p hNe] at hFlag
    rw [hBorn.vmemTable2, hVideo]
    exact h.mapped p (hLive.resolve_left hNe) hFlag
  unmapped := by
    intro p hNot
    rw [hBorn.vmemTable2, hVideo]
    apply h.unmapped p
    rintro ⟨hLive, hFlag⟩
    have hNe : p ≠ c := fun hEq => hFree (hEq ▸ hLive)
    exact hNot ⟨Or.inr hLive, by rw [hOthers p hNe]; exact hFlag⟩

/-- A `vidmap` of a live process. -/
theorem mapVideo (h : VideoInv k tree) {cur : Slot} (hLive : tree.live cur) :
    VideoInv (mapVideo k cur) tree where
  mapped := by
    intro p hp hFlag
    by_cases hEq : p = cur
    · subst hEq
      simp [Kernel.mapVideo]
    · have hVal : p.val ≠ cur.val := fun hEqVal => hEq (Fin.ext hEqVal)
      simp only [Kernel.mapVideo, Function.update_of_ne hEq] at hFlag
      simp only [Kernel.mapVideo, Function.update_of_ne hVal]
      exact h.mapped p hp hFlag
  unmapped := by
    intro p hNot
    have hEq : p ≠ cur := by
      intro hEq
      subst hEq
      exact hNot ⟨hLive, by simp [Kernel.mapVideo]⟩
    have hVal : p.val ≠ cur.val := fun hEqVal => hEq (Fin.ext hEqVal)
    simp only [Kernel.mapVideo, Function.update_of_ne hEq] at hNot
    simp only [Kernel.mapVideo, Function.update_of_ne hVal]
    exact h.unmapped p hNot

/-- What is left after a process ended: entry 0 cleared, its own entry as it
was. -/
theorem ended (h : VideoInv k tree) {cur : Slot} (hEnded : Ended k k' cur)
    (hCur : (k.pcbs cur).vidmapCheck = false)
    (hZero : (k.pcbs 0).vidmapCheck = false) :
    k'.vmemTable2 = k.vmemTable2 ∧ VideoInv k' (tree.exit cur) := by
  have hEntry : k.vmemTable2 (0 : Slot).val = 0#32 :=
    h.unmapped 0 fun hMapped => by rw [hZero] at hMapped; simp at hMapped
  have hSame : k'.vmemTable2 = k.vmemTable2 := by
    rw [hEnded.vmemTable2]
    exact Function.update_eq_self_iff.2 hEntry.symm
  refine ⟨hSame, ?_, ?_⟩
  · rintro p ⟨hNe, hLive⟩ hFlag
    rw [hEnded.pcbs, Function.update_of_ne hNe] at hFlag
    rw [hSame]
    exact h.mapped p hLive hFlag
  · intro p hNot
    rw [hSame]
    apply h.unmapped p
    rintro ⟨hLive, hFlag⟩
    by_cases hEq : p = cur
    · rw [hEq, hCur] at hFlag
      contradiction
    · refine hNot ⟨⟨hEq, hLive⟩, ?_⟩
      rw [hEnded.pcbs, Function.update_of_ne hEq]
      exact hFlag

end VideoInv

/-- `vidmap` sets the flag of its caller exactly when it succeeds. -/
theorem vidmap_flag {k : Globals Sp} {p : Slot} (hCur : k.curPcb = some p)
    (screenStart : Nat) :
    ((vidmap screenStart k).2.pcbs p).vidmapCheck = true ↔
      (k.pcbs p).vidmapCheck = true ∨ (vidmap screenStart k).1 = 0 := by
  unfold vidmap
  by_cases hCheck : screenStart = 0 ∨ screenStart = videoLoc ∨
      screenStart = kernelLoc
  · simp [if_pos hCheck]
  · rw [if_neg hCheck, hCur]
    cases hFlag : (k.pcbs p).vidmapCheck with
    | true => simp [hFlag]
    | false => simp [hFlag, Globals.writePcb]

/-- A call on files leaves every flag as it is. -/
theorem filed_flag {k : Globals Sp} {cur : Slot} (hCur : k.curPcb = some cur)
    (files : FileArray) (p : Slot) :
    ((k.writePcb ({ · with fileArray := files })).pcbs p).vidmapCheck =
      (k.pcbs p).vidmapCheck := by
  rw [Globals.writePcb_some hCur]
  by_cases hEq : p = cur
  · subst hEq
    simp
  · simp [hEq]

/-- A successful call sets the flag, whatever else is known about the step. -/
theorem Maps.flag {fs : FileSys} {s s' : Life Sp} {i : SystemStep Sp} {p : Slot}
    (hStep : (lifeMachine fs).step s i = s') (hMaps : Maps s i p) :
    (s'.kernel.pcbs p).vidmapCheck = true := by
  obtain ⟨screenStart, hCall, hCur, hRet⟩ := hMaps
  subst hStep hCall
  exact (vidmap_flag hCur screenStart).2 (Or.inr hRet)

/-- When the flag of a process is set. -/
theorem flag_step {fs : FileSys} {s s' : Life Sp}
    {linked linked' : ProcessTree Slot} {i : SystemStep Sp}
    (hStep : (lifeMachine fs).step s i = s')
    (hEffect : Effect fs s linked i s' linked') {p : Slot}
    (hLive : s'.callers.live p) :
    (s'.kernel.pcbs p).vidmapCheck = true ↔
      newProcess fs s i ≠ some p ∧
        ((s.kernel.pcbs p).vidmapCheck = true ∨ Maps s i p) := by
  have hKept : newProcess fs s i ≠ some p →
      s'.kernel.pcbs p = s.kernel.pcbs p →
      ((s'.kernel.pcbs p).vidmapCheck = true ↔
        newProcess fs s i ≠ some p ∧
          ((s.kernel.pcbs p).vidmapCheck = true ∨ Maps s i p)) := by
    intro hNew hSame
    refine ⟨fun hFlag => ⟨hNew, Or.inl (hSame ▸ hFlag)⟩, ?_⟩
    rintro ⟨_, hFlag | hSet⟩
    · rw [hSame]
      exact hFlag
    · exact hSet.flag hStep
  have hBornFlag : ∀ c (kExec : Globals Sp), newProcess fs s i = some c →
      Born kExec s'.kernel c →
      (∀ q, q ≠ c → s'.kernel.pcbs q = s.kernel.pcbs q) →
      ((s'.kernel.pcbs p).vidmapCheck = true ↔
        newProcess fs s i ≠ some p ∧
          ((s.kernel.pcbs p).vidmapCheck = true ∨ Maps s i p)) := by
    intro c kExec hNew hBorn hOthers
    by_cases hEq : p = c
    · subst hEq
      simp [hNew, hBorn.vidmapCheck]
    · refine hKept ?_ (hOthers p hEq)
      rw [hNew]
      exact fun hc => hEq (Option.some.inj hc).symm
  cases hEffect with
  | quiet i k' hNew hSame =>
      exact hKept (by rw [hNew]; exact nofun) (by rw [hSame.pcbs])
  | bootFailed isr exec k' hNew _ _ hSame =>
      exact hKept (by rw [hNew]; exact nofun) (by rw [hSame.pcbs])
  | bootStarted isr exec k' c hNew _ _ hBorn hOthers =>
      exact hBornFlag c _ hNew hBorn hOthers
  | started strname temp k' cur c hNew _ _ hBorn hOthers =>
      exact hBornFlag c _ hNew hBorn hOthers
  | ended temp k' cur _ _ _ hEnded =>
      refine hKept nofun ?_
      rw [hEnded.pcbs, Function.update_of_ne hLive.1]
  | filed c r files cur hCur =>
      show ((s.kernel.writePcb _).pcbs p).vidmapCheck = true ↔ _
      rw [filed_flag hCur]
      refine ⟨fun h => ⟨nofun, Or.inl h⟩, ?_⟩
      rintro ⟨_, h | ⟨_, hCall, _⟩⟩
      · exact h
      · contradiction
  | mapped screenStart cur hCur =>
      by_cases hEq : p = cur
      · subst hEq
        have hIff := vidmap_flag hCur screenStart
        have hKernel := congrArg Life.kernel hStep
        change (vidmap screenStart s.kernel).2 = _ at hKernel
        rw [hKernel] at hIff
        refine hIff.trans ⟨?_, ?_⟩
        · rintro (hFlag | hRet)
          · exact ⟨nofun, Or.inl hFlag⟩
          · exact ⟨nofun, Or.inr ⟨screenStart, rfl, hCur, hRet⟩⟩
        · rintro ⟨_, hFlag | ⟨a, hCall, _, hRet⟩⟩
          · exact Or.inl hFlag
          · injection hCall with hCall
            subst hCall
            exact Or.inr hRet
      · exact hKept nofun (by simp [Kernel.mapVideo, hEq])

/-- Under the condition, the mappings stay as they should be, and a `halt`
changes no entry at all. -/
theorem VideoInv.step {fs : FileSys} {s s' : Life Sp}
    {linked linked' : ProcessTree Slot} {i : SystemStep Sp}
    (h : VideoInv s.kernel s.callers) (hLife : LifeInv s linked)
    (hEffect : Effect fs s linked i s' linked') (hUnmapped : HaltsUnmapped s i) :
    VideoInv s'.kernel s'.callers ∧
      ∀ temp, i = .halt temp → s'.kernel.vmemTable2 = s.kernel.vmemTable2 := by
  cases hEffect with
  | quiet i k' _ hSame => exact ⟨h.same hSame, fun _ _ => hSame.vmemTable2⟩
  | bootFailed isr exec k' _ _ _ hSame => exact ⟨h.same hSame, nofun⟩
  | bootStarted isr exec k' c _ _ hFree hBorn hOthers =>
      have hFree' := fun hLive => hFree ((hLife.live_iff c).2 hLive)
      exact ⟨h.born hFree' hBorn rfl hOthers none, nofun⟩
  | started strname temp k' cur c _ _ hFree hBorn hOthers =>
      have hFree' := fun hLive => hFree ((hLife.live_iff c).2 hLive)
      exact ⟨h.born hFree' hBorn rfl hOthers (some cur), nofun⟩
  | ended temp k' cur hRoot _ hCur hEnded =>
      obtain ⟨hOwn, hZero⟩ := hUnmapped hRoot cur hCur
      obtain ⟨hSame, hNext⟩ := h.ended hEnded hOwn hZero
      exact ⟨hNext, fun _ _ => hSame⟩
  | filed c r files cur hCur =>
      refine ⟨?_, nofun⟩
      have hFlag := filed_flag hCur files
      rw [Globals.writePcb_some hCur] at hFlag ⊢
      exact
        { mapped := fun p hp hSet => h.mapped p hp (hFlag p ▸ hSet)
          unmapped := fun p hNot =>
            h.unmapped p fun hBoth => hNot ⟨hBoth.1, (hFlag p).trans hBoth.2⟩ }
  | mapped screenStart cur hCur =>
      exact ⟨h.mapVideo (hLife.cur_live hCur), nofun⟩

/-- A `halt` after which the mappings are right. -/
theorem VideoInv.only {fs : FileSys} {s s' : Life Sp}
    {linked linked' : ProcessTree Slot} {i : SystemStep Sp}
    (h : VideoInv s.kernel s.callers) (hLife : LifeInv s linked)
    (hEffect : Effect fs s linked i s' linked')
    (hMap : VideoMap s'.kernel s'.callers) : HaltsUnmapped s i := by
  cases hEffect with
  | quiet i k' _ _ _ _ hRoot =>
      cases i with
      | halt temp => exact fun hNot => absurd (hRoot temp rfl) hNot
      | tick | execute | file | vidmap => trivial
  | ended temp k' cur hRoot hNotZero hCur hEnded =>
      intro _ p hp
      have hpc : p = cur := Option.some.inj (hp.symm.trans hCur)
      subst hpc
      constructor
      · by_contra hFlag
        have hSet : (s.kernel.pcbs p).vidmapCheck = true := by simpa using hFlag
        have hVal : p.val ≠ 0 := fun hEq => hNotZero (Fin.ext hEq)
        have hEntry : k'.vmemTable2 p.val = userVideoPte := by
          rw [hEnded.vmemTable2, Function.update_of_ne hVal]
          exact h.mapped p (hLife.cur_live hCur) hSet
        have hLive := ((hMap p).1 (by rw [hEntry]; exact userVideoPte_present)).1
        exact hLive.1 rfl
      · by_contra hFlag
        have hSet : (s.kernel.pcbs 0).vidmapCheck = true := by simpa using hFlag
        have hNe : (0 : Slot) ≠ p := fun hEq => hNotZero hEq.symm
        have hPresent := (hMap 0).2 ⟨⟨hNe, hLife.zero_live hCur⟩, by
          rw [hEnded.pcbs, Function.update_of_ne hNe]
          exact hSet⟩
        rw [hEnded.vmemTable2] at hPresent
        revert hPresent
        simp only [Fin.val_zero, Function.update_self]
        decide
  | bootFailed | bootStarted | started | filed | mapped => trivial

/--
**The user mapping of the video memory.**  From boot on, after every step the
user entries that are present are those of the live processes that have mapped
the video memory, and no `halt` touches another process's entry, if and only if
no process that ends has mapped it and, when one ends, neither has the first
shell.
-/
theorem video_map {fs : FileSys} {k : Globals Sp} (hInit : AfterInit k)
    (hVideo : VideoInit k) (run : List (SystemStep Sp))
    (hLegal : (lifeMachine fs).Legal (lifeStart k) run) :
    (lifeMachine fs).Always (VideoStep fs) (lifeStart k) run ↔
      (lifeMachine fs).Always HaltsUnmapped (lifeStart k) run := by
  refine (lifeMachine fs).always_iff_of_invariant
    (I := fun s => ∃ linked, LifeInv s linked ∧ VideoInv s.kernel s.callers)
    ?_ ?_ run (lifeStart k) ⟨emptyTree, lifeStart_inv hInit, ?_⟩ hLegal
  · rintro s i ⟨linked, hLife, hInv⟩ hStep hUnmapped
    obtain ⟨s', linked', hEq, hNext, hEffect⟩ := hLife.step i hStep
    obtain ⟨hKept, hHalt⟩ := hInv.step hLife hEffect hUnmapped
    refine ⟨{ map := ?_, flag := ?_, halt := ?_ }, ?_⟩
    · rw [hEq]
      exact hKept.videoMap
    · rw [hEq]
      exact fun p hLive => flag_step hEq hEffect hLive
    · rw [hEq]
      intro temp cur hCall _ p _
      rw [hHalt temp hCall]
    · rw [hEq]
      exact ⟨linked', hNext, hKept⟩
  · rintro s i ⟨linked, hLife, hInv⟩ hStep hMaps
    obtain ⟨s', linked', hEq, _, hEffect⟩ := hLife.step i hStep
    have hMap := hMaps.map
    rw [hEq] at hMap
    exact hInv.only hLife hEffect hMap
  · exact { mapped := fun p hp => hp.elim, unmapped := fun p _ => hVideo p }

instance (s : Life Sp) (i : SystemStep Sp) : Decidable (HaltsUnmapped s i) := by
  cases i <;> unfold HaltsUnmapped <;> infer_instance

/-- The third shell maps the video memory, and the first one starts another, which
halts. -/
def keptRun : List (SystemStep Nat) :=
  bootTicks ++ [.vidmap 0x8048000, .tick ⟨0, 0⟩ ⟨0, 0⟩, .execute shell ⟨0, 0⟩,
    .halt ⟨0, 0, 0, true, none⟩]

/-- The mapping of the third shell is there before and after. -/
theorem video_map_kept :
    (userPresent (((lifeMachine programImage).run (lifeStart (initGlobals 0))
        keptRun.dropLast).kernel.vmemTable2 2) ∧
      userPresent (((lifeMachine programImage).run (lifeStart (initGlobals 0))
        keptRun).kernel.vmemTable2 2)) ∧
    (lifeMachine programImage).Always (VideoStep programImage)
      (lifeStart (initGlobals 0)) keptRun :=
  ⟨by decide +kernel, (video_map (initGlobals_afterInit 0) (fun _ => rfl) keptRun
    (by decide +kernel)).2 (by decide +kernel)⟩

/-- The child of a shell maps the video memory and halts. -/
def mappedRun : List (SystemStep Nat) :=
  bootTicks ++ [.execute shell ⟨0, 0⟩, .vidmap 0x8048000,
    .halt ⟨0, 0, 0, true, none⟩]

/-- Its entry stays, with nobody in the slot. -/
theorem mappedRun_stays :
    (lifeMachine programImage).Legal (lifeStart (initGlobals 0)) mappedRun ∧
    ¬ (lifeMachine programImage).Always (VideoStep programImage)
      (lifeStart (initGlobals 0)) mappedRun := by
  obtain ⟨hLegal, hPresent, hFlag⟩ :
      (lifeMachine programImage).Legal (lifeStart (initGlobals 0)) mappedRun ∧
      userPresent (((lifeMachine programImage).run
        (lifeStart (initGlobals 0)) mappedRun).kernel.vmemTable2 3) ∧
      (((lifeMachine programImage).run
        (lifeStart (initGlobals 0)) mappedRun).kernel.pcbs 3).vidmapCheck =
          false := by
    decide +kernel
  refine ⟨hLegal, ?_⟩
  rintro ⟨_, _, _, _, _, hHalt, _⟩
  have hMapped := ((hHalt.map 3).1 hPresent).2
  exact absurd (hFlag.symm.trans hMapped) Bool.false_ne_true

end CompE.Kernel
