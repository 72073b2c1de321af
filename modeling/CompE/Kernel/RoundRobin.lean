import CompE.Kernel.SchedulerInvariant

/-!
# Round-robin scheduling

A timer interrupt that does not start a shell moves the running task to the
end of the queue, and the tasks behind it, until an enabled one is in front.
So it is one turn of `Library.RoundRobin` on the tasks in use: `Served.tick`.
The names and the enabled flags of the tasks go around unchanged, and over any
number of ticks the tasks are served in the cyclic order of the queue.
-/

namespace CompE.Kernel

open CompE.Library

variable {Sp : Type}

/-! ## One tick -/

/-- The tasks with the interrupted task's context saved. -/
def saved (isr : Regs Sp) (ts : List (Task Sp)) : List (Task Sp) :=
  ts.modifyHead fun t => { t with esp := isr.esp, ebp := isr.ebp, state := 0 }

/-- The tasks with the front one marked as running. -/
def running (ts : List (Task Sp)) : List (Task Sp) :=
  ts.modifyHead fun t => { t with state := 1 }

/-- What a task is known by, and whether it may run. -/
def Task.ident (t : Task Sp) : Option Slot × Bool := (t.pcb, t.enabled)

@[simp] theorem map_ident_saved (isr : Regs Sp) (ts : List (Task Sp)) :
    (saved isr ts).map Task.ident = ts.map Task.ident := by
  cases ts <;> rfl

@[simp] theorem map_ident_running (ts : List (Task Sp)) :
    (running ts).map Task.ident = ts.map Task.ident := by
  cases ts <;> rfl

private theorem exists_enabled_iff {ts : List (Task Sp)} :
    (∃ t ∈ ts, t.enabled = true) ↔
      ∃ x ∈ ts.map Task.ident, x.2 = true := by
  simp [Task.ident]

/-- A queue that the interrupt serves: three tasks or more, one of which is
enabled, and a process runs. -/
structure Served (k : Globals Sp) (ts : List (Task Sp)) : Prop where
  lists : Lists k.taskQueue ts
  up : ¬ booting k
  on : ∃ t ∈ ts, t.enabled = true

theorem Lists.booting_iff {k : Globals Sp} {ts : List (Task Sp)}
    (h : Lists k.taskQueue ts) :
    booting k ↔ k.curPcb = none ∨ ts.length < 3 := by
  rw [booting]
  refine or_congr_right ⟨fun hNone => ?_, fun hShort => ?_⟩
  · by_contra hLong
    exact h.pcbAt_eq (Nat.not_lt.1 hLong) hNone
  · obtain ⟨free, hQueue, hFree⟩ := h.gap
    rw [pcbAt, hQueue, List.getElem?_append_right (Nat.le_of_lt_succ hShort)]
    cases hEntry : free[2 - ts.length]? with
    | none => rfl
    | some e => exact hFree e (List.mem_of_getElem? hEntry)

/-- The end of the interrupt: the front task runs. -/
theorem Lists.switchTask {queue rest : List (Task Sp)} {next : Task Sp}
    (h : Lists queue (next :: rest)) (k : Globals Sp) :
    Lists (switchTask queue k).taskQueue (running (next :: rest)) ∧
      (switchTask queue k).curPcb = next.pcb := by
  have hNext := h.full next (List.mem_cons_self ..)
  have hSet : Lists (queue.set 0 { next with state := 1 })
      (running (next :: rest)) :=
    h.set_head hNext
  obtain ⟨p, hp⟩ := Option.ne_none_iff_exists'.1 hNext
  obtain ⟨tail, rfl⟩ := h.head
  have hSlot : ∀ q : Slot, ¬ q.val > maxProcess := fun q =>
    Nat.not_lt.2 (Nat.le_of_lt q.isLt)
  simp only [Kernel.switchTask, hp, swapTaskPaging, if_neg (hSlot _)]
  rw [← hp]
  exact ⟨hSet, trivial⟩

theorem Served.three_le {k : Globals Sp} {ts : List (Task Sp)} (h : Served k ts) :
    3 ≤ ts.length := by
  have hUp := h.up
  rw [h.lists.booting_iff, not_or] at hUp
  exact Nat.not_lt.1 hUp.2

/-- Saving the context of the running task. -/
theorem Served.save {k : Globals Sp} {ts : List (Task Sp)} (h : Served k ts)
    (isr : Regs Sp) : Served (saveTask isr k) (saved isr ts) := by
  have hUp := h.up
  rw [h.lists.booting_iff] at hUp
  have hOn : ∃ x ∈ saved isr ts, x.enabled = true := by
    rw [exists_enabled_iff, map_ident_saved, ← exists_enabled_iff]
    exact h.on
  obtain ⟨t, ts, rfl⟩ : ∃ t rest, ts = t :: rest :=
    List.exists_cons_of_ne_nil fun hNil => by simp [hNil] at hUp
  obtain ⟨tail, hHead⟩ := h.lists.head
  have hSave : Lists (saveTask isr k).taskQueue (saved isr (t :: ts)) := by
    have hSet : Lists (k.taskQueue.set 0
        { t with esp := isr.esp, ebp := isr.ebp, state := 0 })
        (saved isr (t :: ts)) :=
      h.lists.set_head (h.lists.full t (List.mem_cons_self ..))
    simpa [saveTask, hHead] using hSet
  refine ⟨hSave, ?_, hOn⟩
  rw [hSave.booting_iff]
  simpa [saveTask, saved] using hUp

/-- Three tasks or more, an enabled one in front, are served after the
switch. -/
theorem Lists.served_switchTask {queue rest : List (Task Sp)} {next : Task Sp}
    (h : Lists queue (next :: rest)) (hOn : next.enabled = true)
    (hThree : 3 ≤ (next :: rest).length) (k : Globals Sp) :
    Served (Kernel.switchTask queue k) (running (next :: rest)) := by
  obtain ⟨hLists, hCur⟩ := h.switchTask k
  refine ⟨hLists, ?_, ?_⟩
  · rw [hLists.booting_iff, hCur]
    rintro (hNone | hShort)
    · exact h.full next (List.mem_cons_self ..) hNone
    · exact absurd hThree (Nat.not_le.2 hShort)
  · rw [exists_enabled_iff, map_ident_running, ← exists_enabled_iff]
    exact ⟨next, List.mem_cons_self .., hOn⟩

/-- The tick saves the context of the task that ran, rotates the queue up to
the next enabled task and runs that one. -/
theorem Served.tick {k : Globals Sp} {ts : List (Task Sp)} (h : Served k ts)
    (fs : FileSys) (isr exec : Regs Sp) :
    ∃ k', pitInterrupt fs isr exec k = some k' ∧
      Served k' (running (RoundRobin.next Task.enabled (saved isr ts))) ∧
      k'.curPcb =
        (RoundRobin.next Task.enabled (saved isr ts)).head?.bind Task.pcb := by
  have hSaved := h.save isr
  have hThree := hSaved.three_le
  obtain ⟨t, rest, hTask⟩ : ∃ t rest, saved isr ts = t :: rest :=
    List.exists_cons_of_ne_nil fun hNil => by simp [hNil] at hThree
  rw [hTask] at hSaved hThree ⊢
  obtain ⟨queue, hRotate, hQueue⟩ := hSaved.lists.rotate_next hSaved.on
  obtain ⟨before, next, after, hTurn⟩ := RoundRobin.exists_turn hSaved.on
  rw [← List.length_rotate (t :: rest)
    (RoundRobin.distance Task.enabled (t :: rest))] at hThree
  change 3 ≤ (RoundRobin.next Task.enabled (t :: rest)).length at hThree
  rw [hTurn.next_eq] at hQueue hThree ⊢
  refine ⟨switchTask queue (saveTask isr k), ?_,
    hQueue.served_switchTask hTurn.on hThree _, (hQueue.switchTask _).2⟩
  unfold pitInterrupt
  simp only [if_neg hSaved.up]
  obtain ⟨tail, hTail⟩ := hSaved.lists.head
  rw [hTail] at hRotate ⊢
  simp only [hRotate]

/-! ## Consecutive ticks -/

/-- Consecutive ticks, with the context that each of them saves: the last
state, and the process chosen by each tick. -/
def ticks (fs : FileSys) (exec : Regs Sp) :
    List (Regs Sp) → Globals Sp → Option (Globals Sp × List (Option Slot))
  | [], k => some (k, [])
  | isr :: isrs, k =>
      (pitInterrupt fs isr exec k).bind fun k' =>
        (ticks fs exec isrs k').map fun (k'', chosen) =>
          (k'', k'.curPcb :: chosen)

/-- The enabled tasks in cyclic queue order, from behind the front around to
the front. -/
def service (ts : List (Task Sp)) : List (Option Slot) :=
  (RoundRobin.order Task.enabled ts).map Task.pcb

private theorem service_eq (ts : List (Task Sp)) :
    service ts =
      (RoundRobin.order Prod.snd (ts.map Task.ident)).map Prod.fst := by
  rw [← RoundRobin.map_order, List.map_map]
  rfl

/-- A tick moves the identities as a turn does. -/
theorem ident_tick (isr : Regs Sp) (ts : List (Task Sp)) :
    (running (RoundRobin.next Task.enabled (saved isr ts))).map Task.ident =
      RoundRobin.next Prod.snd (ts.map Task.ident) := by
  rw [map_ident_running, ← map_ident_saved isr ts, ← RoundRobin.map_next]
  rfl

/-- The run of any number of ticks. -/
theorem Served.ticks (fs : FileSys) (exec : Regs Sp) (isrs : List (Regs Sp))
    {k : Globals Sp} {ts : List (Task Sp)} (h : Served k ts) :
    ∃ k' ts' chosen, ticks fs exec isrs k = some (k', chosen) ∧
      Served k' ts' ∧
      ts'.map Task.ident =
        (RoundRobin.next Prod.snd)^[isrs.length] (ts.map Task.ident) ∧
      chosen = (List.range isrs.length).map fun n =>
        ((RoundRobin.next Prod.snd)^[n + 1] (ts.map Task.ident)).head?.bind
          Prod.fst := by
  induction isrs generalizing k ts with
  | nil => exact ⟨k, ts, [], rfl, h, rfl, rfl⟩
  | cons isr isrs ih =>
      obtain ⟨k1, hTick, hServed, hCur⟩ := h.tick fs isr exec
      obtain ⟨k', ts', chosen, hTicks, hEnd, hIdent, hChosen⟩ := ih hServed
      refine ⟨k', ts', k1.curPcb :: chosen, ?_, hEnd, ?_, ?_⟩
      · rw [Kernel.ticks, hTick, Option.bind_some, hTicks]
        rfl
      · rw [hIdent, ident_tick]
        rfl
      · rw [hChosen, ident_tick, List.length_cons, List.range_succ_eq_map,
          List.map_cons, List.map_map]
        congr 1
        rw [hCur, Function.iterate_one, ← ident_tick isr ts, map_ident_running,
          List.head?_map]
        cases (RoundRobin.next Task.enabled (saved isr ts)).head? <;> rfl

/-- The process in front after some turns, in the order of service. -/
theorem service_getElem? {ts : List (Task Sp)}
    (hOn : ∃ t ∈ ts, t.enabled = true) (n : Nat) :
    (service ts)[n % (service ts).length]? =
      some (((RoundRobin.next Prod.snd)^[n + 1]
        (ts.map Task.ident)).head?.bind Prod.fst) := by
  have hHead := RoundRobin.head_iterate (exists_enabled_iff.1 hOn) n
  have hRotated := RoundRobin.iterate_isRotated Prod.snd (ts.map Task.ident)
    (n + 1)
  rw [service_eq, List.length_map, List.getElem?_map, ← hHead]
  cases hList : (RoundRobin.next Prod.snd)^[n + 1] (ts.map Task.ident) with
  | nil =>
      rw [hList, List.isRotated_nil_iff', eq_comm, List.map_eq_nil_iff]
        at hRotated
      obtain ⟨t, ht, -⟩ := hOn
      rw [hRotated] at ht
      cases ht
  | cons x rest => rfl

private theorem mem_service {ts : List (Task Sp)} {p : Option Slot} :
    p ∈ service ts ↔ ∃ t ∈ ts, t.enabled = true ∧ t.pcb = p := by
  simp [service, RoundRobin.order, and_assoc]

private theorem service_nodup {ts : List (Task Sp)}
    (hDistinct : (ts.map Task.pcb).Nodup) : (service ts).Nodup := by
  have hRotate : ((ts.rotate 1).map Task.pcb).Nodup := by
    rw [List.map_rotate]
    exact List.nodup_rotate.2 hDistinct
  exact hRotate.sublist (List.filter_sublist.map _)

/-- The service has every enabled task, and no other. -/
theorem mem_service_iff {ts : List (Task Sp)}
    (hDistinct : (ts.map Task.pcb).Nodup) {t : Task Sp} (ht : t ∈ ts) :
    t.pcb ∈ service ts ↔ t.enabled = true := by
  rw [mem_service]
  constructor
  · rintro ⟨t', ht', hOn, hSame⟩
    rw [← List.inj_on_of_nodup_map hDistinct ht' ht hSame]
    exact hOn
  · intro hEnabled
    exact ⟨t, ht, hEnabled, rfl⟩

/-- The loop on a queue with an enabled task. -/
theorem Lists.loop_ends {queue ts : List (Task Sp)} (h : Lists queue ts)
    (hOn : ∃ t ∈ ts, t.enabled = true) :
    ∃ temp rest queue' m, queue = temp :: rest ∧
      rotate maxProcess temp queue = some queue' ∧ Lists queue' (ts.rotate m) := by
  obtain ⟨t, rest, rfl⟩ : ∃ t rest, ts = t :: rest := by
    obtain ⟨t, ht, -⟩ := hOn
    exact List.exists_cons_of_ne_nil (List.ne_nil_of_mem ht)
  obtain ⟨tail, hHead⟩ := h.head
  obtain ⟨queue', hRotate, hQueue⟩ := h.rotate_next hOn
  exact ⟨t, tail, queue', _, hHead, hRotate, hQueue⟩

/-- The processes that the ticks choose. -/
theorem Served.chosen {k : Globals Sp} {ts : List (Task Sp)} (h : Served k ts)
    (fs : FileSys) (exec : Regs Sp) (isrs : List (Regs Sp)) :
    ∃ k' ts' chosen, Kernel.ticks fs exec isrs k = some (k', chosen) ∧
      Lists k'.taskQueue ts' ∧
      ts'.map Task.ident ~r ts.map Task.ident ∧
      chosen.length = isrs.length ∧
      ∀ n < isrs.length,
        chosen[n]? = (service ts)[n % (service ts).length]? := by
  obtain ⟨k', ts', chosen, hTicks, hServed, hIdent, hChosen⟩ :=
    Served.ticks fs exec isrs h
  refine ⟨k', ts', chosen, hTicks, hServed.lists, ?_, ?_, fun n hn => ?_⟩
  · rw [hIdent]
    exact RoundRobin.iterate_isRotated _ _ _
  · rw [hChosen, List.length_map, List.length_range]
  · rw [service_getElem? h.on, hChosen, List.getElem?_map,
      List.getElem?_range hn]
    rfl

/--
**Round robin.**  For every queue that is a gap-free prefix of distinct tasks,
one of them enabled: the loop ends and rotates the tasks.  When all three
shells are up, a tick does that to the tasks with the running one's context
saved, and marks the new front task as running.  Over any number of ticks the
processes chosen are the enabled ones in cyclic queue order.
-/
theorem round_robin {k : Globals Sp} {ts : List (Task Sp)}
    (hLists : Lists k.taskQueue ts) (hDistinct : (ts.map Task.pcb).Nodup)
    (hOn : ∃ t ∈ ts, t.enabled = true) :
    (∃ temp rest queue m, k.taskQueue = temp :: rest ∧
        rotate maxProcess temp k.taskQueue = some queue ∧
        Lists queue (ts.rotate m)) ∧
      (¬ booting k → ∀ fs isr exec, ∃ k' m,
        pitInterrupt fs isr exec k = some k' ∧
          Lists k'.taskQueue (running ((saved isr ts).rotate m))) ∧
      (¬ booting k → ∀ fs exec isrs, ∃ k' ts' chosen,
        ticks fs exec isrs k = some (k', chosen) ∧
          Lists k'.taskQueue ts' ∧
          ts'.map Task.ident ~r ts.map Task.ident ∧
          chosen.length = isrs.length ∧
          ∀ n < isrs.length,
            chosen[n]? = (service ts)[n % (service ts).length]?) ∧
      (service ts).Nodup ∧
      ∀ t ∈ ts, (t.pcb ∈ service ts ↔ t.enabled = true) := by
  refine ⟨hLists.loop_ends hOn, fun hUp fs isr exec => ?_,
    fun hUp fs exec isrs => Served.chosen ⟨hLists, hUp, hOn⟩ fs exec isrs,
    service_nodup hDistinct, fun t ht => mem_service_iff hDistinct ht⟩
  obtain ⟨k', hTick, hServed, -⟩ :=
    Served.tick ⟨hLists, hUp, hOn⟩ fs isr exec
  exact ⟨k', _, hTick, hServed.lists⟩

/-- A fourth shell in front, and last the first one, which sleeps until the
fourth ends. -/
def fourTasks : List (Task Nat) :=
  [⟨0, 0, 1, true, some 3⟩, ⟨0, 0, 0, true, some 1⟩, ⟨0, 0, 0, true, some 2⟩,
    ⟨0, 0, 0, false, some 0⟩]

def fourRunning : Globals Nat :=
  { initGlobals 0 with
    curPcb := some 3
    taskQueue := fourTasks ++ List.replicate 2 ⟨0, 0, 0, true, none⟩ }

private theorem fourRunning_lists : Lists fourRunning.taskQueue fourTasks where
  length := rfl
  full := by decide
  gap := ⟨List.replicate 2 ⟨0, 0, 0, true, none⟩, rfl, by decide⟩

theorem round_robin_fourRunning :
    ∃ k', ticks programImage ⟨0, 0⟩ (List.replicate 4 ⟨0, 0⟩) fourRunning =
      some (k', [some 1, some 2, some 3, some 1]) := by
  have hTicks := (round_robin fourRunning_lists (by decide) (by decide)).2.2.1
    (by decide) programImage ⟨0, 0⟩ (List.replicate 4 ⟨0, 0⟩)
  obtain ⟨k', -, chosen, hRun, -, -, hLength, hChosen⟩ := hTicks
  refine ⟨k', hRun.trans ?_⟩
  have hEq : chosen = [some 1, some 2, some 3, some 1] := by
    apply List.ext_getElem?
    intro n
    by_cases hn : n < 4
    · rw [hChosen n hn]
      revert n
      decide
    · rw [List.getElem?_eq_none (hLength.trans_le (Nat.not_lt.1 hn)),
        List.getElem?_eq_none (Nat.not_lt.1 hn)]
  rw [hEq]

end CompE.Kernel
