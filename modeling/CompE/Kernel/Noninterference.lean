import CompE.Library.Unwinding
import CompE.Kernel.Lifecycle

/-!
# Descriptors do not interfere

What the calls on one descriptor return depends on nothing but the calls on
that descriptor.  There are two runs to compare: the run of a process and the
calls in it that are about descriptor `f`; and the run of the whole kernel and
the calls of process `p` in it, on its table alone.  Both are instances of
`Machine.unwinding`.

For the first one it is enough that the two tables agree on entry `f`: a call
on `f` reads no other entry (`FileCall.run_entry`), and no other call writes
it.  That `f` is given the same number is a condition on the shorter run, in
which the descriptors below `f` may be free.
-/

namespace CompE.Kernel

open CompE.Library

variable {Sp : Type}

/-! ## A call depends on the entry of its descriptor -/

/-- Two outcomes of a call that nobody can tell apart who only has descriptor
`f`. -/
inductive SameOn (f : Nat) : Option (CallResult × FileArray) →
    Option (CallResult × FileArray) → Prop where
  | hangs : SameOn f none none
  | returns (r : CallResult) (files files' : FileArray)
      (hEntry : files f = files' f) : SameOn f (some (r, files)) (some (r, files'))

section Calls

variable {fs : FileSys} {f : Nat} {files files' : FileArray}

private theorem sysOpen_entry {filename : Option CString}
    (hTarget : (FileCall.openFile filename).target fs files = some f)
    (hTarget' : (FileCall.openFile filename).target fs files' = some f)
    (hEntry : files f = files' f) :
    SameOn f ((FileCall.openFile filename).run fs files)
      ((FileCall.openFile filename).run fs files') := by
  have hOpens : ∀ files : FileArray,
      (FileCall.openFile filename).target fs files = some f →
      ∃ d ops, filename.bind (readDentryByName fs) = some d ∧
        fileOpsOf d.ftype = some ops ∧ sysOpen fs filename files =
          ((f : Int), Function.update files f (openedDesc d ops (files f))) := by
    intro files hTarget
    rcases sysOpen_spec fs filename files with
      ⟨_, hSame⟩ | ⟨d, ops, fd, hOpens, hOpen⟩
    · simp [FileCall.target, hSame] at hTarget
    · have hReturned : ¬ (fd : Int) = -1 := by omega
      simp only [FileCall.target, hOpen, if_neg hReturned, Int.toNat_natCast]
        at hTarget
      have hfd : fd = f := Option.some.inj hTarget
      subst hfd
      exact ⟨d, ops, hOpens.found, hOpens.type, hOpen⟩
  obtain ⟨d, ops, hFound, hType, hOpen⟩ := hOpens files hTarget
  obtain ⟨d', ops', hFound', hType', hOpen'⟩ := hOpens files' hTarget'
  have hd : d = d' := Option.some.inj (hFound.symm.trans hFound')
  subst hd
  have hOps : ops = ops' := Option.some.inj (hType.symm.trans hType')
  subst hOps
  simp only [FileCall.run, hOpen, hOpen']
  exact .returns _ _ _ (by simp [hEntry])

theorem FileOps.close_entry (optbl : FileOps) (hEntry : files f = files' f) :
    (optbl.close f files = none ∧ optbl.close f files' = none) ∨
    ∃ ret after after', optbl.close f files = some (ret, after) ∧
      optbl.close f files' = some (ret, after') ∧ after f = after' f := by
  cases optbl with
  | null => exact Or.inl ⟨rfl, rfl⟩
  | stdio | dir | rtc => exact Or.inr ⟨_, files, files', rfl, rfl, hEntry⟩
  | regfile =>
      right
      by_cases hRange : f = 0 ∨ f = 1 ∨ f > 7
      · simp only [FileOps.close, fileClose, if_pos hRange]
        exact ⟨_, _, _, rfl, rfl, hEntry⟩
      · simp only [FileOps.close, fileClose, if_neg hRange]
        exact ⟨_, _, _, rfl, rfl, by simp [hEntry]⟩

private theorem sysClose_entry (hEntry : files f = files' f) :
    SameOn f ((sysClose f files).map fun r => (⟨r.1, none⟩, r.2))
      ((sysClose f files').map fun r => (⟨r.1, none⟩, r.2)) := by
  unfold sysClose
  rw [← hEntry]
  split
  · exact .returns _ _ _ hEntry
  · rcases FileOps.close_entry (files f).optbl hEntry with
      ⟨hNone, hNone'⟩ | ⟨ret, after, after', hSome, hSome', hAfter⟩
    · rw [hNone, hNone']
      exact .hangs
    · rw [hSome, hSome']
      simp only
      split
      · exact .returns _ _ _ hAfter
      · exact .returns _ _ _ (by simp [hAfter])

private theorem sysRead_same (buf : Buffer) (nbytes : BitVec 32) (line : Line)
    (hEntry : files f = files' f) :
    SameOn f (sysRead fs f buf nbytes line files)
      (sysRead fs f buf nbytes line files') := by
  unfold sysRead
  rw [← hEntry]
  split
  · exact .returns _ _ _ hEntry
  · cases (files f).optbl with
    | null => exact .hangs
    | stdio | rtc => exact .returns _ _ _ hEntry
    | regfile =>
        simp only [FileOps.read, fileRead, ← hEntry]
        exact .returns _ _ _ (by simp)
    | dir =>
        simp only [FileOps.read, dirRead, ← hEntry]
        split
        · exact .returns _ _ _ hEntry
        · split
          · exact .returns _ _ _ hEntry
          · exact .returns _ _ _ (by simp)

private theorem sysWrite_same (buf : Option Buffer) (nbytes : BitVec 32)
    (hEntry : files f = files' f) :
    SameOn f ((sysWrite f buf nbytes files).map fun ret => (⟨ret, none⟩, files))
      ((sysWrite f buf nbytes files').map fun ret => (⟨ret, none⟩, files')) := by
  have hSame : sysWrite f buf nbytes files = sysWrite f buf nbytes files' := by
    unfold sysWrite
    rw [hEntry]
  rw [hSame]
  cases sysWrite f buf nbytes files' with
  | none => exact .hangs
  | some ret => exact .returns _ _ _ hEntry

/-- A call on `f` reads no entry but that of `f`. -/
theorem FileCall.run_entry {c : FileCall}
    (hTarget : c.target fs files = some f)
    (hTarget' : c.target fs files' = some f) (hEntry : files f = files' f) :
    SameOn f (c.run fs files) (c.run fs files') := by
  cases c with
  | openFile filename => exact sysOpen_entry hTarget hTarget' hEntry
  | close fd =>
      have hfd : fd.val = f := Option.some.inj hTarget
      subst hfd
      exact sysClose_entry hEntry
  | read fd buf nbytes line =>
      have hfd : fd.val = f := Option.some.inj hTarget
      subst hfd
      exact sysRead_same buf nbytes line hEntry
  | write fd buf nbytes =>
      have hfd : fd.val = f := Option.some.inj hTarget
      subst hfd
      exact sysWrite_same buf nbytes hEntry

end Calls

/-! ## One process -/

/-- The call, if it is about descriptor `f`. -/
def onDescriptor (fs : FileSys) (f : Nat) (s : Table) (c : FileCall) :
    Option FileCall :=
  if c.target fs s.files = some f then some c else none

/-- The calls about `f` alone, where every `open` returns `f`. -/
def singleMachine (fs : FileSys) (f : Nat) :
    Machine Table FileCall CallResult where
  step := Table.step fs
  emit := (descriptorMachine fs).emit
  legal := fun s c => c.target fs s.files = some f

instance decidableSingleLegal (fs : FileSys) (f : Nat) (s : Table)
    (c : FileCall) : Decidable ((singleMachine fs f).legal s c) :=
  inferInstanceAs (Decidable (_ = _))

/-- One call about `f`, in two tables that agree on `f`. -/
theorem Table.step_on {fs : FileSys} {f : Nat} {s t : Table} {c : FileCall}
    (hTarget : c.target fs s.files = some f)
    (hTarget' : c.target fs t.files = some f)
    (hEntry : s.files f = t.files f) :
    (descriptorMachine fs).emit s c = (singleMachine fs f).emit t c ∧
      (s.step fs c).files f = (t.step fs c).files f := by
  have hSame := FileCall.run_entry hTarget hTarget' hEntry
  show ((c.run fs s.files).map Prod.fst).toList =
    ((c.run fs t.files).map Prod.fst).toList ∧ _
  unfold Table.step
  cases hRun : c.run fs s.files with
  | none =>
      rw [hRun] at hSame
      cases hRun' : c.run fs t.files with
      | none => exact ⟨rfl, hEntry⟩
      | some r =>
          rw [hRun'] at hSame
          contradiction
  | some r =>
      rw [hRun] at hSame
      cases hRun' : c.run fs t.files with
      | none =>
          rw [hRun'] at hSame
          contradiction
      | some r' =>
          rw [hRun'] at hSame
          cases hSame with
          | returns r files files' hAfter => exact ⟨rfl, hAfter⟩

/-- A call about something else leaves `f` alone. -/
theorem Table.step_off {fs : FileSys} {f : Nat} {s : Table} {c : FileCall}
    (hTarget : c.target fs s.files ≠ some f) :
    (s.step fs c).files f = s.files f := by
  unfold Table.step
  cases hRun : c.run fs s.files with
  | none => rfl
  | some r => exact FileCall.run_other hRun hTarget

/-- The calls about `f` return the same with all others deleted. -/
theorem descriptor_alone (fs : FileSys) (f : Nat) {s t : Table}
    (hEntry : s.files f = t.files f) (calls : List FileCall)
    (hNumber : (singleMachine fs f).Legal t
      ((descriptorMachine fs).project (onDescriptor fs f) s calls)) :
    (descriptorMachine fs).viewEvents (onDescriptor fs f) s calls =
      (singleMachine fs f).events t
        ((descriptorMachine fs).project (onDescriptor fs f) s calls) := by
  refine ((descriptorMachine fs).unwinding (singleMachine fs f)
    (R := fun s t => s.files f = t.files f) ?_ ?_ calls s t hEntry
    ((descriptorMachine fs).always_of_forall (fun _ _ => trivial) _ _)
    hNumber).1
  · intro s t c d hR _ hView hOther
    unfold onDescriptor at hView
    by_cases hTarget : c.target fs s.files = some f
    · rw [if_pos hTarget] at hView
      have hcd : c = d := Option.some.inj hView
      subst hcd
      exact Table.step_on hTarget hOther hR
    · rw [if_neg hTarget] at hView
      contradiction
  · intro s t c hR _ hView
    unfold onDescriptor at hView
    by_cases hTarget : c.target fs s.files = some f
    · rw [if_pos hTarget] at hView
      contradiction
    · exact (Table.step_off hTarget).trans hR

/-! ## All processes -/

/-- The call, if process `p` makes it. -/
def callOf (p : Slot) (s : Life Sp) : SystemStep Sp → Option FileCall
  | .file c => if s.kernel.curPcb = some p then some c else none
  | _ => none

/-- Process `p` does not end. -/
def Stays (p : Slot) (s : Life Sp) : SystemStep Sp → Prop
  | .halt _ => s.kernel.curPcb = some p → haltsRoot s.kernel
  | _ => True

/-- A live process, and a table like its own. -/
structure SameTable (p : Slot) (s : Life Sp) (t : Table) : Prop where
  life : ∃ linked, LifeInv s linked
  live : s.callers.live p
  files : (s.kernel.pcbs p).fileArray = t.files

/-- A call of process `p`. -/
theorem SameTable.keep {fs : FileSys} {p : Slot} {s : Life Sp} {t : Table}
    {i : SystemStep Sp} {c : FileCall} (h : SameTable p s t)
    (hLegal : (lifeMachine fs).legal s i) (hView : callOf p s i = some c) :
    (lifeMachine fs).emit s i = (descriptorMachine fs).emit t c ∧
      SameTable p ((lifeMachine fs).step s i) (t.step fs c) := by
  obtain ⟨linked, hLife⟩ := h.life
  obtain ⟨s', linked', hStep, hNext, _⟩ := hLife.step i hLegal
  cases i with
  | file d =>
      have hCur : s.kernel.curPcb = some p := by
        by_contra hNot
        simp [callOf, hNot] at hView
      simp only [callOf, if_pos hCur, Option.some.injEq] at hView
      subst hView
      cases hRun : d.run fs t.files with
      | none =>
          have hCall : fileCall fs d s.kernel = none := by
            simp only [fileCall, hCur, h.files, hRun]
          refine ⟨?_, ⟨linked', hStep ▸ hNext⟩, ?_, ?_⟩
          · show ((fileCall fs d s.kernel).map Prod.fst).toList =
              ((d.run fs t.files).map Prod.fst).toList
            rw [hCall, hRun]
            rfl
          · show (Life.step fs s (.file d)).callers.live p
            simp only [Life.step, hCall]
            exact h.live
          · show ((Life.step fs s (.file d)).kernel.pcbs p).fileArray = _
            simp only [Life.step, hCall, Table.step, hRun]
            exact h.files
      | some r =>
          have hCall : fileCall fs d s.kernel = some
              (r.1, s.kernel.writePcb ({ · with fileArray := r.2 })) := by
            simp only [fileCall, hCur, h.files, hRun]
          refine ⟨?_, ⟨linked', hStep ▸ hNext⟩, ?_, ?_⟩
          · show ((fileCall fs d s.kernel).map Prod.fst).toList =
              ((d.run fs t.files).map Prod.fst).toList
            rw [hCall, hRun]
            rfl
          · show (Life.step fs s (.file d)).callers.live p
            simp only [Life.step, hCall]
            exact h.live
          · show ((Life.step fs s (.file d)).kernel.pcbs p).fileArray = _
            simp only [Life.step, hCall, Table.step, hRun,
              Globals.writePcb_some hCur, Function.update_self]
  | tick | execute | halt | vidmap => contradiction

/-- Anything else leaves its table alone. -/
theorem SameTable.drop {fs : FileSys} {p : Slot} {s : Life Sp} {t : Table}
    {i : SystemStep Sp} (h : SameTable p s t)
    (hLegal : (lifeMachine fs).legal s i) (hStays : Stays p s i)
    (hView : callOf p s i = none) :
    SameTable p ((lifeMachine fs).step s i) t := by
  obtain ⟨linked, hLife⟩ := h.life
  obtain ⟨s', linked', hStep, hNext, hEffect⟩ := hLife.step i hLegal
  rw [hStep]
  have hOld : linked.live p := (hLife.live_iff p).2 h.live
  cases hEffect with
  | quiet i k' _ hSame =>
      exact { life := ⟨_, hNext⟩, live := h.live
              files := by rw [hSame.pcbs]; exact h.files }
  | bootFailed isr exec k' _ _ _ hSame =>
      exact { life := ⟨_, hNext⟩, live := h.live
              files := by rw [hSame.pcbs]; exact h.files }
  | bootStarted isr exec k' c _ _ hFree _ hOthers =>
      have hNe : p ≠ c := fun hEq => hFree (hEq ▸ hOld)
      exact { life := ⟨_, hNext⟩, live := Or.inr h.live
              files := by rw [hOthers p hNe]; exact h.files }
  | started strname temp k' cur c _ _ hFree _ hOthers =>
      have hNe : p ≠ c := fun hEq => hFree (hEq ▸ hOld)
      exact { life := ⟨_, hNext⟩, live := Or.inr h.live
              files := by rw [hOthers p hNe]; exact h.files }
  | ended temp k' cur hRoot _ hCur hEnded =>
      have hNe : p ≠ cur := fun hEq => hRoot (hStays (hEq ▸ hCur))
      exact { life := ⟨_, hNext⟩, live := ⟨hNe, h.live⟩
              files := by
                rw [hEnded.pcbs, Function.update_of_ne hNe]
                exact h.files }
  | filed c r files cur hCur =>
      have hNe : p ≠ cur := by
        intro hEq
        simp [callOf, hCur, hEq] at hView
      refine { life := ⟨_, hNext⟩, live := h.live, files := ?_ }
      simp only [Globals.writePcb_some hCur, Function.update_of_ne hNe]
      exact h.files
  | mapped screenStart cur =>
      refine { life := ⟨_, hNext⟩, live := h.live, files := ?_ }
      rw [← h.files]
      by_cases hEq : p = cur
      · subst hEq
        simp [mapVideo]
      · simp [mapVideo, hEq]

/-- The state after a legal run from boot. -/
theorem lifeInv_of_run {fs : FileSys} {k : Globals Sp} (hInit : AfterInit k)
    {run : List (SystemStep Sp)}
    (hLegal : (lifeMachine fs).Legal (lifeStart k) run) :
    ∃ linked, LifeInv ((lifeMachine fs).run (lifeStart k) run) linked := by
  refine (lifeMachine fs).run_invariant (I := fun s => ∃ linked, LifeInv s linked)
    ?_ run (lifeStart k) ⟨emptyTree, lifeStart_inv hInit⟩ hLegal
  rintro s i ⟨linked, hLife⟩ hStep
  obtain ⟨s', linked', hEq, hNext, _⟩ := hLife.step i hStep
  exact ⟨linked', hEq ▸ hNext⟩

/-- The calls of a process return what they return with all that the other
processes do deleted. -/
theorem process_alone {fs : FileSys} {p : Slot} {s : Life Sp} {t : Table}
    (hSame : SameTable p s t) (run : List (SystemStep Sp))
    (hLegal : (lifeMachine fs).Legal s run)
    (hStays : (lifeMachine fs).Always (Stays p) s run) :
    (lifeMachine fs).viewEvents (callOf p) s run =
      (descriptorMachine fs).events t
        ((lifeMachine fs).project (callOf p) s run) := by
  rw [← (lifeMachine fs).restrict_viewEvents (Stays p),
    ← (lifeMachine fs).restrict_project (Stays p)]
  refine (((lifeMachine fs).restrict (Stays p)).unwinding (descriptorMachine fs)
    (R := SameTable p) ?_ ?_ run s t hSame
    (((lifeMachine fs).restrict_legal (Stays p) s run).2 ⟨hLegal, hStays⟩)
    ((descriptorMachine fs).always_of_forall (fun _ _ => trivial) _ _)).1
  · intro s t i c hR hStep hView _
    exact hR.keep hStep.1 hView
  · intro s t i hR hStep hView
    exact hR.drop hStep.1 hStep.2 hView

/--
**Noninterference of descriptors.**  In any run of a process, from any table,
the calls about descriptor `f`, reads and their bytes included, return the same
as in the run, from any table with the same entry, from which every other call
is deleted, as long as `f` is given the same number there.  And in any run of
the kernel from boot on, as long as process `p` lives, its calls return the
same as in the run of `p` alone.
-/
theorem descriptor_noninterference (Sp : Type) (fs : FileSys) :
    (∀ (f : Nat) (s t : Table) (calls : List FileCall), s.files f = t.files f →
      (singleMachine fs f).Legal t
        ((descriptorMachine fs).project (onDescriptor fs f) s calls) →
      (descriptorMachine fs).viewEvents (onDescriptor fs f) s calls =
        (singleMachine fs f).events t
          ((descriptorMachine fs).project (onDescriptor fs f) s calls)) ∧
    ∀ (k : Globals Sp) (before run : List (SystemStep Sp)) (s : Life Sp)
      (p : Slot) (openedOn : Nat → Option Dentry), AfterInit k →
      (lifeMachine fs).Legal (lifeStart k) (before ++ run) →
      s = (lifeMachine fs).run (lifeStart k) before → s.callers.live p →
      (lifeMachine fs).Always (Stays p) s run →
      (lifeMachine fs).viewEvents (callOf p) s run =
        (descriptorMachine fs).events ⟨(s.kernel.pcbs p).fileArray, openedOn⟩
          ((lifeMachine fs).project (callOf p) s run) := by
  constructor
  · intro f s t calls hEntry hNumber
    exact descriptor_alone fs f hEntry calls hNumber
  · intro k before run s p openedOn hInit hLegal hs hLive hStays
    subst hs
    obtain ⟨hBefore, hRun⟩ := (Machine.legal_append _ _ _ _).1 hLegal
    exact process_alone ⟨lifeInv_of_run hInit hBefore, hLive, rfl⟩ run hRun
      hStays

/-- Two files are open; what is read from the first one, 2, with the calls
about the second one in between. -/
def mixedCalls : List FileCall :=
  [.openFile (some [0x61#8]), .openFile (some [0x61#8]),
    .read 3 (fun _ => 0#8) 2 ⟨fun _ => 0#8, 0⟩,
    .read 2 (fun _ => 0#8) 4 ⟨fun _ => 0#8, 0⟩, .close 3,
    .read 2 (fun _ => 0#8) 4 ⟨fun _ => 0#8, 0⟩]

/-- The first shell is up. -/
def firstShell : Life Nat :=
  (lifeMachine programImage).run (lifeStart (initGlobals 0))
    [.tick ⟨0, 0⟩ ⟨0, 0⟩]

/-- It opens a file, and reads it after the second shell has opened one too. -/
def mixedRun : List (SystemStep Nat) :=
  [.file (.openFile (some shell)), .tick ⟨0, 0⟩ ⟨0, 0⟩,
    .file (.openFile (some shell)), .tick ⟨0, 0⟩ ⟨0, 0⟩,
    .tick ⟨0, 0⟩ ⟨0, 0⟩, .file (.read 2 (fun _ => 0#8) 4 ⟨fun _ => 0#8, 0⟩)]

theorem descriptor_noninterference_mixed :
    ((descriptorMachine tinyImage).viewEvents (onDescriptor tinyImage 2)
        ⟨freshFiles, fun _ => none⟩ mixedCalls =
      (singleMachine tinyImage 2).events ⟨freshFiles, fun _ => none⟩
        ((descriptorMachine tinyImage).project (onDescriptor tinyImage 2)
          ⟨freshFiles, fun _ => none⟩ mixedCalls)) ∧
    (lifeMachine programImage).viewEvents (callOf 0) firstShell mixedRun =
      (descriptorMachine programImage).events
        ⟨(firstShell.kernel.pcbs 0).fileArray, fun _ => none⟩
        ((lifeMachine programImage).project (callOf 0) firstShell mixedRun) := by
  have hLegal : (lifeMachine programImage).Legal (lifeStart (initGlobals 0))
      ([.tick ⟨0, 0⟩ ⟨0, 0⟩] ++ mixedRun) := by decide +kernel
  have hLive : firstShell.callers.live 0 := by
    obtain ⟨linked, hLife⟩ := lifeInv_of_run (initGlobals_afterInit (0 : Nat))
      ((Machine.legal_append _ _ _ _).1 hLegal).1
    exact hLife.cur_live (by decide +kernel)
  have hStays : (lifeMachine programImage).Always (Stays 0) firstShell
      mixedRun := ⟨trivial, trivial, trivial, trivial, trivial, trivial, trivial⟩
  exact
    ⟨(descriptor_noninterference Nat tinyImage).1 2 _ _ mixedCalls rfl
      (by decide +kernel),
    (descriptor_noninterference Nat programImage).2 (initGlobals 0)
      [.tick ⟨0, 0⟩ ⟨0, 0⟩] mixedRun firstShell 0 (fun _ => none)
      (initGlobals_afterInit 0) hLegal rfl hLive hStays⟩

end CompE.Kernel
