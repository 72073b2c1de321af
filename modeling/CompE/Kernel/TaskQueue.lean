import CompE.Kernel.FileRead
import CompE.Library.RoundRobin

/-!
# The task queue

`task_queue` is an array of which the scheduler uses the first six entries; an
entry is free when its `pcb` is `NULL`.  `task_push` takes the first free
entry, `task_pop` closes the gap it makes by shifting the entries behind it.
A freed entry keeps its other fields.

`Lists q ts` says that the entries in use are `ts`, in front.  The three
operations and the rotation of the timer interrupt have one lemma each about
it.
-/

namespace CompE.Kernel

/-- `MAX_PROCESS`. -/
abbrev maxProcess : Nat := 6

/-- A process slot: the index of a page directory and of a PCB. -/
abbrev Slot := Fin maxProcess

scoped instance maxProcess_neZero : NeZero maxProcess := ⟨by decide⟩

/-- `task_t`.  A pointer to a PCB is its slot, `none` is `NULL`; what a stack
pointer points to is left open. -/
structure Task (Sp : Type) where
  esp : Sp
  ebp : Sp
  state : Nat
  enabled : Bool
  pcb : Option Slot

variable {Sp : Type}

/-- `task_queue[i].pcb`. -/
def pcbAt (queue : List (Task Sp)) (i : Nat) : Option Slot :=
  queue[i]?.bind Task.pcb

/-- `task_push`: into the first free entry, if there is one. -/
def taskPush (currentTask : Task Sp) : List (Task Sp) → List (Task Sp)
  | [] => []
  | t :: queue =>
      if t.pcb = none then currentTask :: queue
      else t :: taskPush currentTask queue

/-- The inner loop of `task_pop`: every entry moves one down, and the last one
is marked free. -/
def shiftDown : List (Task Sp) → List (Task Sp)
  | [] => []
  | [t] => [{ t with pcb := none }]
  | _ :: t :: queue => t :: shiftDown (t :: queue)

/-- `task_pop`: the first entry with this PCB. -/
def taskPop (pcb : Option Slot) : List (Task Sp) → List (Task Sp)
  | [] => []
  | t :: queue =>
      if t.pcb = pcb then shiftDown (t :: queue)
      else t :: taskPop pcb queue

/-- `task_grab`: the stack pointers of the entry with the PCB of
`current_task`. -/
def taskGrab (currentTask : Task Sp) : List (Task Sp) → Task Sp
  | [] => { currentTask with pcb := none }
  | t :: queue =>
      if t.pcb = currentTask.pcb then
        { currentTask with ebp := t.ebp, esp := t.esp, state := 1 }
      else taskGrab currentTask queue

/-- The do-while loop of `pit_interrupt`, for at most the given number of
rounds; `none` when that is not enough. -/
def rotate : Nat → Task Sp → List (Task Sp) → Option (List (Task Sp))
  | 0, _, _ => none
  | n + 1, temp, queue =>
      let queue := taskPush temp (taskPop temp.pcb queue)
      match queue with
      | [] => none
      | temp :: _ => if temp.enabled = false then rotate n temp queue
          else some queue

/-! ## Gap-free queues -/

/-- The entries in use are `ts`, and they come first. -/
structure Lists (queue ts : List (Task Sp)) : Prop where
  length : queue.length = maxProcess
  full : ∀ t ∈ ts, t.pcb ≠ none
  gap : ∃ free, queue = ts ++ free ∧ ∀ t ∈ free, t.pcb = none

/-- The entries before the first free one. -/
def tasks (queue : List (Task Sp)) : List (Task Sp) :=
  queue.takeWhile fun t => t.pcb.isSome

theorem Lists.tasks_eq {queue ts : List (Task Sp)} (h : Lists queue ts) :
    tasks queue = ts := by
  obtain ⟨free, hQueue, hFree⟩ := h.gap
  have hFull : ∀ t ∈ ts, t.pcb.isSome = true := fun t ht =>
    Option.isSome_iff_ne_none.2 (h.full t ht)
  rw [tasks, hQueue, List.takeWhile_append_of_pos hFull]
  cases free with
  | nil => simp
  | cons t free =>
      have hNone := hFree t (List.mem_cons_self ..)
      simp [hNone]

theorem Lists.length_le {queue ts : List (Task Sp)} (h : Lists queue ts) :
    ts.length ≤ maxProcess := by
  obtain ⟨free, hQueue, _⟩ := h.gap
  have := h.length
  rw [hQueue, List.length_append] at this
  omega

/-- The queue behind its entries in use is free. -/
theorem Lists.drop_free {queue ts : List (Task Sp)} (h : Lists queue ts) :
    ∀ t ∈ queue.drop (tasks queue).length, t.pcb = none := by
  obtain ⟨free, hQueue, hFree⟩ := h.gap
  rw [h.tasks_eq, hQueue, List.drop_left]
  exact hFree

/-- The same for the entry in front. -/
theorem Lists.head {queue ts : List (Task Sp)} {t : Task Sp}
    (h : Lists queue (t :: ts)) : ∃ rest, queue = t :: rest := by
  obtain ⟨free, hQueue, _⟩ := h.gap
  exact ⟨ts ++ free, hQueue⟩

theorem Lists.pcbAt_eq {queue ts : List (Task Sp)} (h : Lists queue ts)
    {i : Nat} (hi : i < ts.length) : pcbAt queue i ≠ none := by
  obtain ⟨free, hQueue, _⟩ := h.gap
  rw [pcbAt, hQueue, List.getElem?_append_left hi, List.getElem?_eq_getElem hi]
  exact h.full _ (List.getElem_mem hi)

/-! ### The operations -/

/-- A push on a queue that is not full puts the task behind the others. -/
theorem Lists.push {queue ts : List (Task Sp)} (h : Lists queue ts)
    (hRoom : ts.length < maxProcess) {t : Task Sp} (ht : t.pcb ≠ none) :
    Lists (taskPush t queue) (ts ++ [t]) := by
  obtain ⟨free, hQueue, hFree⟩ := h.gap
  have hLength := h.length
  subst hQueue
  cases free with
  | nil => simp at hLength; omega
  | cons e free =>
      have hPush : ∀ l : List (Task Sp), (∀ x ∈ l, x.pcb ≠ none) →
          taskPush t (l ++ e :: free) = l ++ t :: free := by
        intro l
        induction l with
        | nil =>
            intro _
            have hNone := hFree e (List.mem_cons_self ..)
            simp [taskPush, hNone]
        | cons x l ih =>
            intro hl
            have hx := hl x (List.mem_cons_self ..)
            rw [List.cons_append, taskPush, if_neg hx,
              ih fun y hy => hl y (List.mem_cons_of_mem _ hy)]
            rfl
      rw [hPush ts h.full]
      refine { length := ?_, full := ?_, gap := ?_ }
      · simpa using hLength
      · intro x hx
        rcases List.mem_append.1 hx with hx | hx
        · exact h.full x hx
        · rw [List.mem_singleton.1 hx]
          exact ht
      · exact ⟨free, by simp, fun x hx => hFree x (List.mem_cons_of_mem _ hx)⟩

/-- Shifting drops the entry it starts at and frees one at the end. -/
theorem shiftDown_eq (t : Task Sp) (queue : List (Task Sp)) :
    ∃ e : Task Sp, e.pcb = none ∧ shiftDown (t :: queue) = queue ++ [e] := by
  induction queue generalizing t with
  | nil => exact ⟨{ t with pcb := none }, rfl, rfl⟩
  | cons t' queue ih =>
      obtain ⟨e, hNone, hShift⟩ := ih t'
      exact ⟨e, hNone, by rw [shiftDown, hShift]; rfl⟩

/-- A pop takes the task out and keeps the order of the others. -/
theorem Lists.pop {queue before after : List (Task Sp)} {t : Task Sp}
    (h : Lists queue (before ++ t :: after))
    (hFirst : ∀ x ∈ before, x.pcb ≠ t.pcb) :
    Lists (taskPop t.pcb queue) (before ++ after) := by
  obtain ⟨free, hQueue, hFree⟩ := h.gap
  have hLength := h.length
  subst hQueue
  obtain ⟨e, hNone, hShift⟩ := shiftDown_eq t (after ++ free)
  have hPop : ∀ l : List (Task Sp), (∀ x ∈ l, x.pcb ≠ t.pcb) →
      taskPop t.pcb (l ++ t :: (after ++ free)) = l ++ (after ++ free ++ [e]) := by
    intro l
    induction l with
    | nil =>
        intro _
        rw [List.nil_append, List.nil_append, taskPop, if_pos rfl, hShift]
    | cons x l ih =>
        intro hl
        have hx := hl x (List.mem_cons_self ..)
        rw [List.cons_append, taskPop, if_neg hx,
          ih fun y hy => hl y (List.mem_cons_of_mem _ hy)]
        rfl
  rw [List.append_assoc, List.cons_append, hPop before hFirst]
  refine { length := ?_, full := ?_, gap := ?_ }
  · simp only [List.length_append, List.length_cons, List.length_nil]
      at hLength ⊢
    omega
  · intro x hx
    apply h.full x
    rcases List.mem_append.1 hx with hx | hx
    · exact List.mem_append_left _ hx
    · exact List.mem_append_right _ (List.mem_cons_of_mem _ hx)
  · refine ⟨free ++ [e], by simp, ?_⟩
    intro x hx
    rcases List.mem_append.1 hx with hx | hx
    · exact hFree x hx
    · rw [List.mem_singleton.1 hx]
      exact hNone

/-- Writing the entry in front. -/
theorem Lists.set_head {queue ts : List (Task Sp)} {t t' : Task Sp}
    (h : Lists queue (t :: ts)) (ht : t'.pcb ≠ none) :
    Lists (queue.set 0 t') (t' :: ts) := by
  obtain ⟨free, hQueue, hFree⟩ := h.gap
  have hLength := h.length
  subst hQueue
  refine { length := by simpa using hLength, full := ?_,
           gap := ⟨free, by simp, hFree⟩ }
  intro x hx
  rcases List.mem_cons.1 hx with hx | hx
  · rw [hx]; exact ht
  · exact h.full x (List.mem_cons_of_mem _ hx)

/-- The entry that `task_grab` finds. -/
theorem taskGrab_eq {queue before after : List (Task Sp)} {t temp : Task Sp}
    (hQueue : queue = before ++ t :: after) (hPcb : t.pcb = temp.pcb)
    (hFirst : ∀ x ∈ before, x.pcb ≠ temp.pcb) :
    taskGrab temp queue =
      { temp with ebp := t.ebp, esp := t.esp, state := 1 } := by
  subst hQueue
  induction before with
  | nil => rw [List.nil_append, taskGrab, if_pos hPcb]
  | cons x before ih =>
      have hx := hFirst x (List.mem_cons_self ..)
      rw [List.cons_append, taskGrab, if_neg hx]
      exact ih fun y hy => hFirst y (List.mem_cons_of_mem _ hy)

/-! ### Rotation -/

/-- One round of the loop moves the front task to the end. -/
theorem Lists.rotate_once {queue ts : List (Task Sp)} {t : Task Sp}
    (h : Lists queue (t :: ts)) :
    Lists (taskPush t (taskPop t.pcb queue)) (ts ++ [t]) := by
  have hPop : Lists (taskPop t.pcb queue) ([] ++ ts) := Lists.pop h (by simp)
  have hRoom := h.length_le
  refine hPop.push ?_ (h.full t (List.mem_cons_self ..))
  rw [List.length_cons] at hRoom
  exact hRoom

/-- The loop stops at the first enabled task behind the front one, with the
tasks before it moved to the end. -/
theorem Lists.rotate_eq {before : List (Task Sp)}
    (hOff : ∀ x ∈ before, x.enabled = false) {next : Task Sp}
    (hOn : next.enabled = true) :
    ∀ {queue ts after : List (Task Sp)} {t : Task Sp}, Lists queue (t :: ts) →
      ts ++ [t] = before ++ next :: after →
      ∃ queue', rotate (before.length + 1) t queue = some queue' ∧
        Lists queue' (next :: after ++ before) := by
  induction before with
  | nil =>
      intro queue ts after t h hTurn
      have hOnce := h.rotate_once
      rw [hTurn, List.nil_append] at hOnce
      obtain ⟨rest, hHead⟩ := hOnce.head
      refine ⟨_, ?_, by simpa using hOnce⟩
      rw [List.length_nil, rotate]
      simp only [hHead, hOn, Bool.true_eq_false, if_false]
  | cons x before ih =>
      intro queue ts after t h hTurn
      have hOnce := h.rotate_once
      rw [hTurn, List.cons_append] at hOnce
      obtain ⟨rest, hHead⟩ := hOnce.head
      have hx := hOff x (List.mem_cons_self ..)
      obtain ⟨queue', hRest, hLists⟩ :=
        ih (fun y hy => hOff y (List.mem_cons_of_mem _ hy)) hOnce
          (show _ = before ++ next :: (after ++ [x]) by simp)
      refine ⟨queue', ?_, by simpa using hLists⟩
      rw [List.length_cons, rotate]
      simp only [hHead, hx, if_true] at hRest ⊢
      exact hRest

/-- More rounds than needed change nothing. -/
theorem rotate_mono {t : Task Sp} {queue queue' : List (Task Sp)} :
    ∀ (m n : Nat), m ≤ n → rotate m t queue = some queue' →
      rotate n t queue = some queue' := by
  intro m
  induction m generalizing t queue with
  | zero => intro n _ h; contradiction
  | succ m ih =>
      intro n hLe h
      obtain ⟨n, rfl⟩ : ∃ k, n = k + 1 := ⟨n - 1, by omega⟩
      unfold rotate at h ⊢
      simp only at h ⊢
      cases hQueue : taskPush t (taskPop t.pcb queue) with
      | nil => rw [hQueue] at h; contradiction
      | cons temp rest =>
          rw [hQueue] at h
          simp only at h ⊢
          split
          · rename_i hOff
            rw [if_pos hOff] at h
            exact ih n (by omega) h
          · rename_i hOn
            rwa [if_neg hOn] at h

/-- The loop ends after at most six rounds, and the queue is rotated up to the
next enabled task. -/
theorem Lists.rotate_next {queue ts : List (Task Sp)} {t : Task Sp}
    (h : Lists queue (t :: ts)) (hOn : ∃ x ∈ t :: ts, x.enabled = true) :
    ∃ queue', rotate maxProcess t queue = some queue' ∧
      Lists queue' (Library.RoundRobin.next Task.enabled (t :: ts)) := by
  obtain ⟨before, next, after, hTurn⟩ := Library.RoundRobin.exists_turn hOn
  have hSplit : ts ++ [t] = before ++ next :: after := by
    simpa using hTurn.split
  obtain ⟨queue', hRotate, hQueue⟩ := h.rotate_eq hTurn.off hTurn.on hSplit
  have hRounds : before.length + 1 ≤ maxProcess := by
    rw [← hTurn.distance_eq]
    exact Nat.le_trans hTurn.distance_le h.length_le
  refine ⟨queue', rotate_mono _ _ hRounds hRotate, ?_⟩
  rw [hTurn.next_eq]
  exact hQueue

/-- An enabled front task is a candidate of its own search, so that six rounds
always end it. -/
theorem Lists.rotate_some {queue ts : List (Task Sp)} {t : Task Sp}
    (h : Lists queue (t :: ts)) (hOn : t.enabled = true) :
    ∃ queue' next rest, rotate maxProcess t queue = some queue' ∧
      Lists queue' (next :: rest) ∧ next.enabled = true ∧
      (next :: rest).Perm (t :: ts) := by
  have hExists : ∃ x ∈ t :: ts, x.enabled = true :=
    ⟨t, List.mem_cons_self .., hOn⟩
  obtain ⟨queue', hRotate, hQueue⟩ := h.rotate_next hExists
  obtain ⟨before, next, after, hTurn⟩ := Library.RoundRobin.exists_turn hExists
  have hPerm : (Library.RoundRobin.next Task.enabled (t :: ts)).Perm (t :: ts) :=
    List.rotate_perm _ _
  rw [hTurn.next_eq] at hQueue hPerm
  exact ⟨queue', next, after ++ before, hRotate, hQueue, hTurn.on, hPerm⟩

end CompE.Kernel
