import CompE.Library.ProcessTree
import CompE.Kernel.Transitions

/-!
# The process and scheduler invariant, one operation at a time

Who is live, who started whom and who waits is a `ProcessTree`, which the
kernel keeps nowhere as such: it is spread over the queue, the `enabled`
flags, the PCBs and the present bits.  `Scheduled` says that all of them agree
with one tree.  The tree is what a run of the kernel is followed with: a
successful `execute` is a `spawn`, a `halt` an `exit`, a timer interrupt
leaves it alone.
-/

namespace CompE.Kernel

open CompE.Library

variable {Sp : Type}

/-! ## The queue and the tree -/

/-- The tasks are the live processes, once each; those that wait are
disabled. -/
structure QueueInv (tree : ProcessTree Slot) (ts : List (Task Sp)) : Prop where
  distinct : (ts.map Task.pcb).Nodup
  live_iff : ∀ p, tree.live p ↔ some p ∈ ts.map Task.pcb
  disabled_iff : ∀ t ∈ ts, ∀ p, t.pcb = some p →
    (t.enabled = false ↔ tree.HasChild p)

section Queue

variable {tree : ProcessTree Slot} {ts : List (Task Sp)}

theorem QueueInv.perm (h : QueueInv tree ts) {ts' : List (Task Sp)}
    (hPerm : ts'.Perm ts) : QueueInv tree ts' where
  distinct := (hPerm.map Task.pcb).nodup_iff.2 h.distinct
  live_iff := fun p => (h.live_iff p).trans (hPerm.map Task.pcb).mem_iff.symm
  disabled_iff := fun t ht => h.disabled_iff t (hPerm.mem_iff.1 ht)

/-- Only the PCB and the flag of the front task matter. -/
theorem QueueInv.set_front {t t' : Task Sp} (h : QueueInv tree (t :: ts))
    (hPcb : t'.pcb = t.pcb) (hEnabled : t'.enabled = t.enabled) :
    QueueInv tree (t' :: ts) where
  distinct := by simpa [hPcb] using h.distinct
  live_iff := by simpa [hPcb] using h.live_iff
  disabled_iff := by
    intro x hx p hp
    rcases List.mem_cons.1 hx with hx | hx
    · subst hx
      rw [hEnabled]
      exact h.disabled_iff t (List.mem_cons_self ..) p (hPcb ▸ hp)
    · exact h.disabled_iff x (List.mem_cons_of_mem _ hx) p hp

/-- The PCB of another task is another process. -/
theorem QueueInv.front_ne {t : Task Sp} {p : Slot} (h : QueueInv tree (t :: ts))
    (ht : t.pcb = some p) : ∀ x ∈ ts, x.pcb ≠ some p := by
  intro x hx hxp
  have hDistinct := h.distinct
  rw [List.map_cons, List.nodup_cons, ht] at hDistinct
  exact hDistinct.1 (List.mem_map.2 ⟨x, hx, hxp⟩)

/-- A free slot means that an entry of the queue is free. -/
theorem QueueInv.room (h : QueueInv tree ts) (hFull : ∀ t ∈ ts, t.pcb ≠ none)
    {c : Slot} (hc : ¬ tree.live c) : ts.length < maxProcess := by
  have hNew : some c ∉ ts.map Task.pcb := fun hMem => hc ((h.live_iff c).2 hMem)
  have hSome : some c :: ts.map Task.pcb ⊆ (List.finRange maxProcess).map some := by
    intro x hx
    have hx' : x ≠ none := by
      rcases List.mem_cons.1 hx with hx | hx
      · simp [hx]
      · obtain ⟨t, ht, hPcb⟩ := List.mem_map.1 hx
        exact hPcb ▸ hFull t ht
    obtain ⟨p, hp⟩ := Option.ne_none_iff_exists'.1 hx'
    rw [hp]
    exact List.mem_map_of_mem (List.mem_finRange p)
  have hLe := (List.nodup_cons.2 ⟨hNew, h.distinct⟩).length_le_of_subset hSome
  simp only [List.length_cons, List.length_map, List.length_finRange] at hLe
  exact hLe

/-- Three live processes are three entries of the queue. -/
theorem QueueInv.three (h : QueueInv tree ts)
    (hLive : ∀ p : Slot, p.val < 3 → tree.live p) : 2 < ts.length := by
  have hThree : [some (0 : Slot), some 1, some 2] ⊆ ts.map Task.pcb := by
    intro x hx
    simp only [List.mem_cons, List.not_mem_nil, or_false] at hx
    rcases hx with hx | hx | hx
    · rw [hx]; exact (h.live_iff 0).1 (hLive 0 (by decide))
    · rw [hx]; exact (h.live_iff 1).1 (hLive 1 (by decide))
    · rw [hx]; exact (h.live_iff 2).1 (hLive 2 (by decide))
  have hLe := List.Nodup.length_le_of_subset (by decide) hThree
  simp only [List.length_cons, List.length_nil, List.length_map] at hLe
  exact hLe

/-- A new process goes in front, the caller behind the others, asleep if it is
the parent. -/
theorem QueueInv.spawn {front child : Task Sp} {others : List (Task Sp)}
    {parent : Option Slot} {c : Slot}
    (h : QueueInv tree (front :: others)) (hTree : tree.WellFormed)
    (hNew : ¬ tree.live c) (hChild : child.pcb = some c)
    (hChildOn : child.enabled = true)
    (hParent : ∀ p, parent = some p → front.pcb = some p) :
    QueueInv (tree.spawn parent c)
      (child :: others ++ [sleepingTask parent front]) where
  distinct := by
    have hPerm : ((child :: others ++ [sleepingTask parent front]).map
        Task.pcb).Perm (some c :: (front :: others).map Task.pcb) := by
      simp only [List.cons_append, List.map_cons, List.map_append,
        List.map_nil, sleepingTask_pcb, hChild]
      have hSwap : (others.map Task.pcb ++ [front.pcb]).Perm
          ([front.pcb] ++ others.map Task.pcb) := List.perm_append_comm
      exact hSwap.cons _
    refine hPerm.nodup_iff.2 (List.nodup_cons.2 ⟨?_, h.distinct⟩)
    exact fun hMem => hNew ((h.live_iff c).2 hMem)
  live_iff := by
    intro p
    show (p = c ∨ tree.live p) ↔ _
    rw [h.live_iff p]
    simp only [List.cons_append, List.map_cons, List.map_append, List.map_nil,
      List.mem_cons, List.mem_append, List.not_mem_nil, or_false,
      sleepingTask_pcb, hChild, Option.some.injEq]
    grind
  disabled_iff := by
    intro t ht p hp
    rw [ProcessTree.hasChild_spawn hNew]
    have hOld : t ∈ child :: others ∨ t = sleepingTask parent front := by
      simpa [or_assoc] using ht
    rcases hOld with hOld | hFront
    · rcases List.mem_cons.1 hOld with hFirst | hOther
      · subst hFirst
        have hpc : p = c := Option.some.inj (hp.symm.trans hChild)
        subst hpc
        have hNone : ¬ (parent = some p ∨ tree.HasChild p) := by
          rintro (hSelf | hWaits)
          · have hFrontPcb := hParent p hSelf
            exact hNew ((h.live_iff p).2 (by simp [hFrontPcb]))
          · exact hTree.not_hasChild hNew hWaits
        simp [hChildOn, hNone]
      · have hNotFront : ¬ parent = some p := by
          intro hSelf
          exact h.front_ne (hParent p hSelf) t hOther hp
        rw [h.disabled_iff t (List.mem_cons_of_mem _ hOther) p hp]
        simp [hNotFront]
    · subst hFront
      rw [sleepingTask_pcb] at hp
      have hOldFlag := h.disabled_iff front (List.mem_cons_self ..) p hp
      unfold sleepingTask
      split
      · rename_i hRoot
        rw [hOldFlag, hRoot]
        simp
      · rename_i hSome
        obtain ⟨q, hq⟩ := Option.ne_none_iff_exists'.1 hSome
        have hqp : q = p := Option.some.inj ((hParent q hq).symm.trans hp)
        simp [hq, hqp]

/-- The front process ends, and its parent goes in front, enabled. -/
theorem QueueInv.exit {front waiting woken : Task Sp}
    {before after : List (Task Sp)} {p q : Slot}
    (h : QueueInv tree (front :: (before ++ waiting :: after)))
    (hTree : tree.WellFormed) (hLink : tree.parent p = some q)
    (hFront : front.pcb = some p) (hWaiting : waiting.pcb = some q)
    (hWoken : woken.pcb = some q) (hOn : woken.enabled = true) :
    QueueInv (tree.exit p) (woken :: (before ++ after)) := by
  have hLive : tree.live p := (h.live_iff p).2 (by simp [hFront])
  have hPerm : (front :: waiting :: (before ++ after)).Perm
      (front :: (before ++ waiting :: after)) :=
    (List.perm_middle.symm).cons _
  have h' := h.perm hPerm
  have hRest : ∀ x ∈ waiting :: (before ++ after), x.pcb ≠ some p :=
    h'.front_ne hFront
  have hDistinct := h'.distinct
  rw [List.map_cons, List.nodup_cons] at hDistinct
  have hOthers : ∀ x ∈ before ++ after, x.pcb ≠ some q := by
    intro x hx hxq
    have hTwo := hDistinct.2
    rw [List.map_cons, List.nodup_cons, hWaiting] at hTwo
    exact hTwo.1 (List.mem_map.2 ⟨x, hx, hxq⟩)
  refine { distinct := ?_, live_iff := ?_, disabled_iff := ?_ }
  · have hSame : (woken :: (before ++ after)).map Task.pcb =
        (waiting :: (before ++ after)).map Task.pcb := by
      simp [hWoken, hWaiting]
    rw [hSame]
    exact hDistinct.2
  · intro r
    show (r ≠ p ∧ tree.live r) ↔ _
    have hSame : (woken :: (before ++ after)).map Task.pcb =
        (waiting :: (before ++ after)).map Task.pcb := by
      simp [hWoken, hWaiting]
    rw [hSame, h'.live_iff r, List.map_cons, List.mem_cons, hFront]
    constructor
    · rintro ⟨hNe, hSelf | hMem⟩
      · exact absurd (Option.some.inj hSelf) hNe
      · exact hMem
    · intro hMem
      refine ⟨?_, Or.inr hMem⟩
      intro hrp
      obtain ⟨x, hx, hxp⟩ := List.mem_map.1 hMem
      exact hRest x hx (hrp ▸ hxp)
  · intro t ht r hr
    rw [hTree.hasChild_exit hLive hLink]
    rcases List.mem_cons.1 ht with hFirst | hOther
    · subst hFirst
      have hrq : r = q := Option.some.inj (hr.symm.trans hWoken)
      simp [hOn, hrq]
    · have hNe : r ≠ q := fun hrq => hOthers t hOther (hrq ▸ hr)
      rw [h'.disabled_iff t (by simp [List.mem_append.1 hOther]) r hr]
      simp [hNe]

end Queue

/-! ## The present bit -/

private theorem present_iff_odd (pde : BitVec 32) :
    present pde ↔ pde.toNat % 2 = 1 := by
  have hBit : (pde &&& 0x1#32).toNat = pde.toNat % 2 := by
    rw [BitVec.toNat_and]
    exact Nat.and_one_is_mod _
  unfold present
  constructor
  · intro h
    have hNe : (pde &&& 0x1#32).toNat ≠ 0 := fun h0 => h (BitVec.eq_of_toNat_eq h0)
    omega
  · intro h h0
    rw [h0] at hBit
    simp only [BitVec.toNat_ofNat] at hBit
    omega

/-- Allocating a slot sets its present bit. -/
theorem present_or (pde : BitVec 32) : present (pde ||| 0x1#32) := by
  rw [present_iff_odd, BitVec.toNat_or, Nat.or_mod_two_eq_one]
  exact Or.inr rfl

/-- Subtracting 1 clears a present bit that is set. -/
theorem not_present_sub {pde : BitVec 32} (h : present pde) :
    ¬ present (pde - 0x1#32) := by
  rw [present_iff_odd] at h ⊢
  have := pde.isLt
  have hOne : (0x1#32 : BitVec 32).toNat = 1 := rfl
  rw [BitVec.toNat_sub, hOne]
  omega

/-! ## The invariant -/

/-- The kernel agrees with the process tree; `cur` runs. -/
structure Scheduled (k : Globals Sp) (tree : ProcessTree Slot)
    (front : Task Sp) (others : List (Task Sp)) (cur : Slot) : Prop where
  lists : Lists k.taskQueue (front :: others)
  queue : QueueInv tree (front :: others)
  front_pcb : front.pcb = some cur
  front_enabled : front.enabled = true
  curPcb : k.curPcb = some cur
  cr3 : k.cr3 = .process cur
  present_iff : ∀ p, present (k.userPde p) ↔ tree.live p
  wellFormed : tree.WellFormed
  pid : ∀ p, tree.live p → (k.pcbs p).pid = p
  parentPid : ∀ p, tree.live p → (k.pcbs p).parentPid = tree.parent p
  zero_live : tree.live 0

namespace Scheduled

variable {k k' : Globals Sp} {tree : ProcessTree Slot} {front : Task Sp}
  {others : List (Task Sp)} {cur : Slot}

/-- Nothing but what the invariant reads matters. -/
theorem quiet (h : Scheduled k tree front others cur) (hQuiet : Quiet k k') :
    Scheduled k' tree front others cur where
  lists := hQuiet.taskQueue ▸ h.lists
  queue := h.queue
  front_pcb := h.front_pcb
  front_enabled := h.front_enabled
  curPcb := hQuiet.curPcb.trans h.curPcb
  cr3 := hQuiet.cr3.trans h.cr3
  present_iff := hQuiet.userPde ▸ h.present_iff
  wellFormed := h.wellFormed
  pid := fun p hLive => (hQuiet.pid p).trans (h.pid p hLive)
  parentPid := fun p hLive => (hQuiet.parentPid p).trans (h.parentPid p hLive)
  zero_live := h.zero_live

theorem cur_live (h : Scheduled k tree front others cur) : tree.live cur :=
  (h.queue.live_iff cur).2 (by simp [h.front_pcb])

/-- The running process does not wait. -/
theorem cur_idle (h : Scheduled k tree front others cur) :
    ¬ tree.HasChild cur := by
  have hFlag := h.queue.disabled_iff front (List.mem_cons_self ..) cur
    h.front_pcb
  intro hWaits
  have hOff := hFlag.2 hWaits
  rw [h.front_enabled] at hOff
  contradiction

theorem head (h : Scheduled k tree front others cur) :
    ∃ rest, k.taskQueue = front :: rest := h.lists.head

/-- The parent that `execute` gives to a child is the caller, if any. -/
theorem executeParent_eq (h : Scheduled k tree front others cur) {p : Slot}
    (hParent : executeParent k = some p) : p = cur := by
  unfold executeParent at hParent
  rw [h.curPcb] at hParent
  simp only at hParent
  split at hParent
  · contradiction
  · rw [h.pid cur h.cur_live] at hParent
    exact (Option.some.inj hParent).symm

/-- Only the front task's saved registers and state changed. -/
theorem saveTask (isr : Regs Sp) (h : Scheduled k tree front others cur) :
    Scheduled (saveTask isr k) tree
      { front with esp := isr.esp, ebp := isr.ebp, state := 0 } others cur where
  lists := by
    have hFull := h.lists.full front (List.mem_cons_self ..)
    obtain ⟨rest, hHead⟩ := h.head
    have hSet : Lists (k.taskQueue.set 0
        { front with esp := isr.esp, ebp := isr.ebp, state := 0 })
        ({ front with esp := isr.esp, ebp := isr.ebp, state := 0 } :: others) :=
      h.lists.set_head hFull
    have hEq : (Kernel.saveTask isr k).taskQueue = k.taskQueue.set 0
        { front with esp := isr.esp, ebp := isr.ebp, state := 0 } := by
      simp [Kernel.saveTask, hHead]
    rw [hEq]
    exact hSet
  queue := h.queue.set_front rfl rfl
  front_pcb := h.front_pcb
  front_enabled := h.front_enabled
  curPcb := h.curPcb
  cr3 := h.cr3
  present_iff := h.present_iff
  wellFormed := h.wellFormed
  pid := h.pid
  parentPid := h.parentPid
  zero_live := h.zero_live

/-- The end of a timer interrupt: any rotation of the queue with an enabled
task in front. -/
theorem switchTask {queue : List (Task Sp)} {next : Task Sp}
    {rest : List (Task Sp)} (h : Scheduled k tree front others cur)
    (hLists : Lists queue (next :: rest)) (hOn : next.enabled = true)
    (hPerm : (next :: rest).Perm (front :: others)) :
    ∃ p, next.pcb = some p ∧
      Scheduled (switchTask queue k) tree { next with state := 1 } rest p := by
  obtain ⟨p, hp⟩ := Option.ne_none_iff_exists'.1
    (hLists.full next (List.mem_cons_self ..))
  have hQueue := h.queue.perm hPerm
  have hLive : tree.live p := (hQueue.live_iff p).2 (by simp [hp])
  obtain ⟨tail, hTail⟩ := hLists.head
  have hPid := h.pid p hLive
  have hSlot : ¬ p.val > maxProcess := Nat.not_lt.2 (Nat.le_of_lt p.isLt)
  have hSwitch : Kernel.switchTask queue k =
      { k with
        taskQueue := { next with state := 1 } :: tail
        esp0 := kernelStack (some p)
        cr3 := .process p
        curPcb := some p } := by
    simp only [Kernel.switchTask, hTail, hp, swapTaskPaging, hPid, if_neg hSlot]
  have hSet : Lists (queue.set 0 { next with state := 1 })
      ({ next with state := 1 } :: rest) :=
    hLists.set_head (hLists.full next (List.mem_cons_self ..))
  rw [hTail] at hSet
  refine ⟨p, hp, ?_⟩
  rw [hSwitch]
  exact
    { lists := hSet
      queue := hQueue.set_front rfl rfl
      front_pcb := hp
      front_enabled := hOn
      curPcb := rfl
      cr3 := rfl
      present_iff := h.present_iff
      wellFormed := h.wellFormed
      pid := h.pid
      parentPid := h.parentPid
      zero_live := h.zero_live }

/-- A timer interrupt after boot returns in some live process; the tasks stay
the same. -/
theorem tick (h : Scheduled k tree front others cur) (fs : FileSys)
    (isr exec : Regs Sp) (hUp : ¬ booting k) :
    ∃ k' next rest p, pitInterrupt fs isr exec k = some k' ∧
      (next :: rest).Perm
        ({ front with esp := isr.esp, ebp := isr.ebp, state := 0 } :: others) ∧
      next.pcb = some p ∧
      Scheduled k' tree { next with state := 1 } rest p := by
  have hSaved := h.saveTask isr
  obtain ⟨tail, hHead⟩ := hSaved.head
  obtain ⟨queue, next, rest, hRotate, hLists, hOn, hPerm⟩ :=
    hSaved.lists.rotate_some hSaved.front_enabled
  obtain ⟨p, hp, hNext⟩ := hSaved.switchTask hLists hOn hPerm
  have hStillUp : ¬ booting (Kernel.saveTask isr k) := by
    obtain ⟨rest, hRest⟩ := h.head
    intro hBoot
    apply hUp
    rcases hBoot with hNone | hShort
    · exact Or.inl hNone
    · right
      simpa [pcbAt, Kernel.saveTask, hRest] using hShort
  refine ⟨_, next, rest, p, ?_, hPerm, hp, hNext⟩
  unfold pitInterrupt
  simp only [if_neg hStillUp]
  rw [hHead] at hRotate ⊢
  simp only [hRotate]

/-- A successful `execute`.  The copy of the caller's entry that is pushed may
have been taken before the entry got its present stack pointers. -/
theorem started {c : Slot} {caller child : Task Sp}
    (h : Scheduled k tree front others cur) (hFree : freeSlot k = some c)
    (hCaller : caller.pcb = front.pcb) (hOn : caller.enabled = front.enabled)
    (hStart : Started k k' c caller child) :
    Scheduled k' (tree.spawn (executeParent k) c) child
      (others ++ [sleepingTask (executeParent k) caller]) c := by
  have hNew : ¬ tree.live c := fun hLive =>
    freeSlot_spec hFree ((h.present_iff c).2 hLive)
  have hNotZero : c.val ≠ 0 := by
    intro hZero
    have : c = 0 := Fin.ext hZero
    exact hNew (this ▸ h.zero_live)
  have hPush := h.lists.push (h.queue.room h.lists.full hNew)
    (t := sleepingTask (executeParent k) caller)
    (by simp [hCaller, h.front_pcb])
  exact
    { lists := by
        rw [hStart.taskQueue, if_neg hNotZero]
        exact hPush.set_head (by simp [hStart.child_pcb])
      queue := by
        refine (h.queue.set_front hCaller hOn).spawn h.wellFormed hNew
          hStart.child_pcb hStart.child_enabled ?_
        intro p hp
        rw [h.executeParent_eq hp, hCaller]
        exact h.front_pcb
      front_pcb := hStart.child_pcb
      front_enabled := hStart.child_enabled
      curPcb := hStart.curPcb
      cr3 := hStart.cr3
      present_iff := by
        intro p
        rw [hStart.userPde]
        by_cases hp : p = c
        · subst hp
          rw [Function.update_self]
          exact ⟨fun _ => Or.inl rfl, fun _ => present_or _⟩
        · rw [Function.update_of_ne hp, h.present_iff p]
          exact ⟨Or.inr, fun hLive => hLive.resolve_left hp⟩
      wellFormed := by
        refine h.wellFormed.spawn hNew ?_
        intro p hp
        rw [h.executeParent_eq hp]
        exact ⟨h.cur_live, h.cur_idle⟩
      pid := by
        intro p hLive
        by_cases hp : p = c
        · subst hp; exact hStart.pid
        · rw [hStart.others p hp]
          exact h.pid p (hLive.resolve_left hp)
      parentPid := by
        intro p hLive
        by_cases hp : p = c
        · subst hp
          rw [hStart.parentPid, ProcessTree.spawn_parent_self]
        · rw [hStart.others p hp, ProcessTree.spawn_parent_of_ne hp]
          exact h.parentPid p (hLive.resolve_left hp)
      zero_live := Or.inr h.zero_live }

theorem haltsRoot_iff (h : Scheduled k tree front others cur) :
    haltsRoot k ↔ tree.parent cur = none ∨ cur = 0 := by
  unfold haltsRoot
  rw [h.curPcb]
  simp only [h.parentPid cur h.cur_live, h.pid cur h.cur_live,
    Fin.val_eq_zero_iff]

/-- The parent of the running process has an entry behind the front one. -/
theorem parent_entry (h : Scheduled k tree front others cur) {q : Slot}
    (hq : tree.parent cur = some q) :
    ∃ waiting before after, others = before ++ waiting :: after ∧
      waiting.pcb = some q ∧ ∀ x ∈ front :: before, x.pcb ≠ some q := by
  have hqLive := h.wellFormed.parent_live cur q h.cur_live hq
  have hqNe : q ≠ cur := by
    intro hEq
    exact h.wellFormed.parent_ne cur h.cur_live (hEq ▸ hq)
  have hMem : some q ∈ others.map Task.pcb := by
    have hTask := (h.queue.live_iff q).1 hqLive
    rw [List.map_cons, List.mem_cons, h.front_pcb] at hTask
    exact hTask.resolve_left fun hSelf => hqNe (Option.some.inj hSelf)
  obtain ⟨waiting, hWaitMem, hWaitPcb⟩ := List.mem_map.1 hMem
  obtain ⟨before, after, hSplit⟩ := List.append_of_mem hWaitMem
  refine ⟨waiting, before, after, hSplit, hWaitPcb, ?_⟩
  intro x hx hxq
  rcases List.mem_cons.1 hx with hFirst | hLater
  · rw [hFirst, h.front_pcb] at hxq
    exact hqNe (Option.some.inj hxq).symm
  · have hDistinct := h.queue.distinct
    rw [hSplit, List.map_cons, List.nodup_cons, List.map_append,
      List.map_cons, List.nodup_append] at hDistinct
    exact hDistinct.2.2.2 (some q) (List.mem_map.2 ⟨x, hLater, hxq⟩) (some q)
      (by simp [hWaitPcb]) rfl

/-- The statements of `halt` that go over to the parent. -/
theorem haltSwitch (h : Scheduled k tree front others cur) (temp : Task Sp)
    {q : Slot} (hq : tree.parent cur = some q) (hNotZero : cur ≠ 0) :
    ∃ woken rest, (∀ t ∈ rest, t ∈ others) ∧ woken.pcb = some q ∧
      Scheduled (runHalt temp haltSwitch k) (tree.exit cur) woken rest q := by
  obtain ⟨waiting, before, after, hSplit, hWaitPcb, hBefore⟩ :=
    h.parent_entry hq
  subst hSplit
  have hSwitch := runHalt_haltSwitch temp h.curPcb (h.pid cur h.cur_live)
    ((h.parentPid cur h.cur_live).trans hq)
  obtain ⟨free, hQueue, _⟩ := h.lists.gap
  have hGrab : taskGrab { temp with pcb := some q } k.taskQueue =
      { temp with ebp := waiting.ebp, esp := waiting.esp, state := 1
                  pcb := some q } := by
    have hCut : k.taskQueue = (front :: before) ++ waiting :: (after ++ free) := by
      rw [hQueue]; simp
    exact taskGrab_eq hCut hWaitPcb hBefore
  have hLists : Lists k.taskQueue ((front :: before) ++ waiting :: after) :=
    h.lists
  have hPop := hLists.pop (by rw [hWaitPcb]; exact hBefore)
  rw [hWaitPcb] at hPop
  refine ⟨{ esp := waiting.esp, ebp := waiting.ebp, state := 1
            enabled := true, pcb := some q }, before ++ after, ?_, rfl, ?_⟩
  · intro t ht
    rcases List.mem_append.1 ht with ht | ht
    · exact List.mem_append_left _ ht
    · exact List.mem_append_right _ (List.mem_cons_of_mem _ ht)
  rw [hSwitch]
  unfold wakeParent
  simp only [hGrab]
  exact
    { lists := hPop.set_head (by simp)
      queue := h.queue.exit h.wellFormed hq h.front_pcb hWaitPcb rfl rfl
      front_pcb := rfl
      front_enabled := rfl
      curPcb := rfl
      cr3 := rfl
      present_iff := by
        intro p
        show present (Function.update k.userPde cur _ p) ↔ p ≠ cur ∧ tree.live p
        by_cases hp : p = cur
        · subst hp
          rw [Function.update_self]
          have hClear := not_present_sub ((h.present_iff p).2 h.cur_live)
          exact ⟨fun hPresent => absurd hPresent hClear,
            fun hNe => absurd rfl hNe.1⟩
        · rw [Function.update_of_ne hp, h.present_iff p]
          exact ⟨fun hLive => ⟨hp, hLive⟩, fun hBoth => hBoth.2⟩
      wellFormed := h.wellFormed.exit h.cur_idle
      pid := by
        rintro p ⟨_, hLive⟩
        exact h.pid p hLive
      parentPid := by
        rintro p ⟨_, hLive⟩
        exact h.parentPid p hLive
      zero_live := ⟨fun hZero => hNotZero hZero.symm, h.zero_live⟩ }

/-- A `halt` of a process with a parent. -/
theorem halted (h : Scheduled k tree front others cur) (temp : Task Sp)
    (hRoot : ¬ haltsRoot k) :
    ∃ q woken rest, tree.parent cur = some q ∧
      Scheduled (halt temp k) (tree.exit cur) woken rest q := by
  have hNotRoot := fun hOr => hRoot (h.haltsRoot_iff.2 hOr)
  obtain ⟨q, hq⟩ := Option.ne_none_iff_exists'.1
    (fun hNone => hNotRoot (Or.inl hNone))
  have hClean := h.quiet (Quiet.runHalt temp (fun _ hStmt => hStmt) k)
  obtain ⟨woken, rest, _, _, hNext⟩ :=
    hClean.haltSwitch temp hq (fun hZero => hNotRoot (Or.inr hZero))
  refine ⟨q, woken, rest, hq, ?_⟩
  unfold halt
  rw [if_neg hRoot, haltBody, runHalt_append]
  exact hNext

end Scheduled

end CompE.Kernel
