import CompE.Library.Machine
import CompE.Adventure.World

/-!
# The status message and its helper thread

The game's thread posts messages (`show_status`) and draws the status bar;
the helper thread (`status_thread`) deletes a message 1.5 seconds after it was
posted.  Both use `status_msg` under `msg_lock`, and the helper sleeps on
`msg_cv`.

A `Move` is a step of one thread between two uses of the lock, the condition
variable or the clock, so the runs are all interleavings, with wake-ups that
no signal caused.  The abstract status bar (`statusBar`) knows the message and
when it was posted.  A message that is posted when the helper's sleep has timed
out, but before the helper has the lock again, is `late`: its signal wakes
nobody, and the helper deletes it at once.
-/

namespace CompE.Adventure

open CompE.Library

/-! ## The wake-up time -/

/-- `struct timespec`. -/
structure Timespec where
  tvSec : Nat
  tvNsec : Nat
  deriving DecidableEq

/-- The time in nanoseconds. -/
def Timespec.nanos (ts : Timespec) : Nat := ts.tvSec * 1000000000 + ts.tvNsec

/-- `clock_gettime`, of a clock that counts nanoseconds. -/
def clockGettime (now : Nat) : Timespec :=
  ⟨now / 1000000000, now % 1000000000⟩

/-- Add 1.5 seconds. -/
def Timespec.add1500 (ts : Timespec) : Timespec :=
  if 500000000 ≤ ts.tvNsec then ⟨ts.tvSec + 2, ts.tvNsec - 500000000⟩
  else ⟨ts.tvSec + 1, ts.tvNsec + 500000000⟩

/-- How long a message stays, in nanoseconds. -/
def messageTime : Nat := 1500000000

/-- The wake-up time is normalised and 1.5 seconds away. -/
theorem add1500_clockGettime (now : Nat) :
    (clockGettime now).add1500.tvNsec < 1000000000 ∧
      (clockGettime now).add1500.nanos = now + messageTime := by
  have hMod := Nat.mod_lt now (show 0 < 1000000000 by decide)
  have hDiv := Nat.div_add_mod now 1000000000
  show (Timespec.add1500 ⟨now / 1000000000, now % 1000000000⟩).tvNsec < _ ∧
    (Timespec.add1500 ⟨now / 1000000000, now % 1000000000⟩).nanos = _
  rw [Timespec.add1500]
  by_cases hHalf : 500000000 ≤ now % 1000000000
  · rw [if_pos hHalf]
    simp only [Timespec.nanos, messageTime]
    omega
  · rw [if_neg hHalf]
    simp only [Timespec.nanos, messageTime]
    omega

/-! ## The threads -/

/-- Where the helper is in `status_thread`. -/
inductive HelperAt where
  /-- At `pthread_mutex_lock`. -/
  | locking
  /-- With the lock, at `while ('\0' == status_msg[0])`. -/
  | checking
  /-- Asleep in `pthread_cond_wait`. -/
  | waiting
  /-- Awake in `pthread_cond_wait`, without the lock. -/
  | woken
  /-- With the lock, at `clock_gettime`. -/
  | timing
  /-- Asleep in `pthread_cond_timedwait`. -/
  | sleeping (ts : Timespec)
  /-- Awake in `pthread_cond_timedwait`, which is going to return 0. -/
  | notified
  /-- Awake in `pthread_cond_timedwait`, which is going to return
  `ETIMEDOUT`. -/
  | timedOut
  /-- With the lock, at `status_msg[0] = '\0'`. -/
  | clearing
  /-- At `pthread_mutex_unlock`. -/
  | unlocking
  deriving DecidableEq

/-- Where the game's thread is with respect to the message. -/
inductive GameAt where
  | outside
  /-- In `game_loop`, about to draw the status bar. -/
  | drawing
  /-- In `show_status`, at `strncpy`. -/
  | copying (s : String)
  /-- In `show_status`, at `pthread_cond_signal`. -/
  | signalling
  /-- At `pthread_mutex_unlock`. -/
  | unlocking
  deriving DecidableEq

inductive Thread where
  | game
  | helper
  deriving DecidableEq

/-- The shared state and the threads' places.  `msg` is `status_msg` up to its
terminator. -/
structure Status where
  now : Nat
  msg : List Char
  owner : Option Thread
  helper : HelperAt
  game : GameAt
  deriving DecidableEq

/-- The helper is created while the game's thread is outside. -/
def Status.start : Status := ⟨0, [], none, .locking, .outside⟩

inductive Move where
  /-- Time passes. -/
  | pass (d : Nat)
  /-- `game_loop` takes the lock to draw the status bar. -/
  | draw
  /-- `show_status (s)` takes the lock. -/
  | show (s : String)
  /-- The next step of the game's thread with the lock. -/
  | game
  /-- The next step of the helper. -/
  | helper
  /-- The helper's sleep times out. -/
  | timeOut
  /-- The helper wakes up without a signal. -/
  | wake
  deriving DecidableEq

/-- What a run shows of the message. -/
inductive StatusEvent where
  | drawn (msg : List Char)
  | posted (now : Nat) (msg : List Char) (late : Bool)
  | cleared (now : Nat)
  deriving DecidableEq

namespace Status

/-- The helper can take its next step: it is awake and does not wait for the
lock. -/
def helperRuns (s : Status) : Bool :=
  match s.helper with
  | .locking | .woken | .notified | .timedOut => s.owner == none
  | .checking | .timing | .clearing | .unlocking => true
  | .waiting | .sleeping _ => false

/-- The wake-up time of the helper has come. -/
def sleepOver (s : Status) : Bool :=
  match s.helper with
  | .sleeping ts => ts.nanos ≤ s.now
  | _ => false

/-- The helper sleeps on `msg_cv`. -/
def asleep (s : Status) : Bool :=
  match s.helper with
  | .waiting | .sleeping _ => true
  | _ => false

def Enabled (s : Status) : Move → Prop
  | .pass _ => True
  | .draw | .show _ => s.game = .outside ∧ s.owner = none
  | .game => s.game ≠ .outside
  | .helper => s.helperRuns = true
  | .timeOut => s.sleepOver = true
  | .wake => s.asleep = true

instance decidableEnabled (s : Status) (m : Move) : Decidable (s.Enabled m) :=
  match m with
  | .pass _ => .isTrue trivial
  | .draw | .show _ => inferInstanceAs (Decidable (_ ∧ _))
  | .game => inferInstanceAs (Decidable (_ ≠ _))
  | .helper | .timeOut | .wake => inferInstanceAs (Decidable (_ = true))

/-- `pthread_cond_signal`, or a wake-up without it. -/
def notify : HelperAt → HelperAt
  | .waiting => .woken
  | .sleeping _ => .notified
  | other => other

/-- A step of the game's thread with the lock. -/
def gameStep (s : Status) : Status :=
  match s.game with
  | .outside => s
  | .drawing => { s with game := .unlocking }
  | .copying m =>
      { s with msg := m.toList.take statusMsgLen, game := .signalling }
  | .signalling => { s with helper := notify s.helper, game := .unlocking }
  | .unlocking => { s with owner := none, game := .outside }

/-- A step of the helper.  With a malformed time `pthread_cond_timedwait`
returns `EINVAL` at once and keeps the lock. -/
def helperStep (s : Status) : Status :=
  match s.helper with
  | .locking | .woken => { s with owner := some .helper, helper := .checking }
  | .checking =>
      if s.msg = [] then { s with owner := none, helper := .waiting }
      else { s with helper := .timing }
  | .timing =>
      let ts := (clockGettime s.now).add1500
      if ts.tvNsec < 1000000000 then
        { s with owner := none, helper := .sleeping ts }
      else s
  | .notified => { s with owner := some .helper, helper := .timing }
  | .timedOut => { s with owner := some .helper, helper := .clearing }
  | .clearing => { s with msg := [], helper := .unlocking }
  | .unlocking => { s with owner := none, helper := .locking }
  | .waiting | .sleeping _ => s

def next (s : Status) : Move → Status
  | .pass d => { s with now := s.now + d }
  | .draw => { s with owner := some .game, game := .drawing }
  | .show m => { s with owner := some .game, game := .copying m }
  | .game => s.gameStep
  | .helper => s.helperStep
  | .timeOut => { s with helper := .timedOut }
  | .wake => { s with helper := notify s.helper }

def emit (s : Status) : Move → List StatusEvent
  | .game =>
      match s.game with
      | .drawing => [.drawn s.msg]
      | .signalling => [.posted s.now s.msg (s.helper == .timedOut)]
      | _ => []
  | .helper =>
      match s.helper with
      | .clearing => [.cleared s.now]
      | _ => []
  | _ => []

end Status

/-- All interleavings of the two threads and the clock. -/
def statusThreads : Machine Status Move StatusEvent where
  step := Status.next
  emit := Status.emit
  legal := Status.Enabled

instance decidableStatusLegal (s : Status) (m : Move) :
    Decidable (statusThreads.legal s m) :=
  Status.decidableEnabled s m

/-! ## The status bar -/

/-- The message, when it was posted, and whether it was posted too late to
be seen by the helper. -/
structure StatusBar where
  msg : List Char
  postedAt : Nat
  late : Bool

/-- The status bar draws what was posted last, unless it was cleared, and
clears a message that is not late after 1.5 seconds. -/
def statusBar : Acceptor StatusBar StatusEvent where
  good b
    | .drawn msg => msg = b.msg
    | .posted _ msg _ => msg.length ≤ statusMsgLen
    | .cleared now => b.late = true ∨ b.postedAt + messageTime ≤ now
  next b
    | .drawn _ => b
    | .posted now msg late => ⟨msg, now, late⟩
    | .cleared _ => { b with msg := [] }

/-! ## The invariant -/

/-- The threads against the status bar. -/
structure Agreed (s : Status) (b : StatusBar) : Prop where
  /-- The game's thread has the lock inside its critical sections. -/
  game : s.owner = some .game ↔ s.game ≠ .outside
  /-- So has the helper. -/
  helper : s.owner = some .helper ↔
    s.helper = .checking ∨ s.helper = .timing ∨ s.helper = .clearing ∨
      s.helper = .unlocking
  msg : s.game ≠ .signalling → s.msg = b.msg
  short : s.msg.length ≤ statusMsgLen
  past : b.postedAt ≤ s.now
  /-- The helper waits without a time while there is no message. -/
  waiting : s.helper = .waiting → s.game ≠ .signalling → s.msg = []
  sleeping : ∀ ts, s.helper = .sleeping ts →
    b.postedAt + messageTime ≤ ts.nanos ∧ ts.nanos ≤ s.now + messageTime
  timedOut : s.helper = .timedOut ∨ s.helper = .clearing →
    b.late = true ∨ b.postedAt + messageTime ≤ s.now

theorem Agreed.start : Agreed .start ⟨[], 0, false⟩ := by
  constructor <;> simp [Status.start]

section Step

variable {s : Status} {b : StatusBar}

theorem Agreed.pass (h : Agreed s b) (d : Nat) :
    Agreed { s with now := s.now + d } b where
  game := h.game
  helper := h.helper
  msg := h.msg
  short := h.short
  past := Nat.le_add_right_of_le h.past
  waiting := h.waiting
  sleeping ts hAt := by
    have hTs := h.sleeping ts hAt
    show _ ∧ ts.nanos ≤ s.now + d + messageTime
    omega
  timedOut hAt := by
    rcases h.timedOut hAt with hLate | hOver
    · exact Or.inl hLate
    · exact Or.inr (Nat.le_add_right_of_le hOver)

/-- The game's thread takes the lock. -/
theorem Agreed.acquire (h : Agreed s b) (hOut : s.game = .outside)
    (hFree : s.owner = none) {place : GameAt} (hIn : place ≠ .outside) :
    Agreed { s with owner := some .game, game := place } b where
  game := by simp [hIn]
  helper := by
    have hNot := h.helper
    rw [hFree] at hNot
    simpa using hNot
  msg := fun _ => h.msg (by simp [hOut])
  short := h.short
  past := h.past
  waiting := fun hAt _ => h.waiting hAt (by simp [hOut])
  sleeping := h.sleeping
  timedOut := h.timedOut

/-- Inside a critical section of the game's thread the helper is outside its
own. -/
theorem Agreed.helper_outside (h : Agreed s b) (hIn : s.game ≠ .outside) :
    ¬ (s.helper = .checking ∨ s.helper = .timing ∨ s.helper = .clearing ∨
      s.helper = .unlocking) := by
  rw [← h.helper, h.game.2 hIn]
  simp

/-- A wake-up of the helper. -/
theorem Agreed.notify_helper (h : Agreed s b) {place : GameAt}
    {b' : StatusBar} (hIn : place ≠ .outside ↔ s.game ≠ .outside)
    (hMsg : place ≠ .signalling → s.msg = b'.msg)
    (hPast : b'.postedAt ≤ s.now)
    (hLate : s.helper = .timedOut ∨ s.helper = .clearing →
      b'.late = true ∨ b'.postedAt + messageTime ≤ s.now) :
    Agreed { s with helper := Status.notify s.helper, game := place } b' where
  game := h.game.trans hIn.symm
  helper := by
    refine h.helper.trans ?_
    cases hAt : s.helper <;> simp [Status.notify]
  msg := hMsg
  short := h.short
  past := hPast
  waiting := by cases hAt : s.helper <;> simp [Status.notify]
  sleeping := by cases hAt : s.helper <;> simp [Status.notify]
  timedOut := by
    cases hAt : s.helper <;> simp_all [Status.notify]

/-- A step of the game's thread in a critical section. -/
theorem Agreed.gameStep (h : Agreed s b) (hIn : s.game ≠ .outside) :
    statusBar.Accepts b (s.emit .game) ∧
      Agreed s.gameStep (statusBar.after b (s.emit .game)) := by
  have hOutside := h.helper_outside hIn
  cases hAt : s.game with
  | outside => exact absurd hAt hIn
  | drawing =>
      simp only [Status.emit, Status.gameStep, hAt]
      refine ⟨⟨h.msg (by simp [hAt]), trivial⟩, ?_⟩
      exact { h with
        game := by simpa [hAt] using h.game
        msg := fun _ => h.msg (by simp [hAt])
        waiting := fun hWait _ => h.waiting hWait (by simp [hAt]) }
  | copying m =>
      simp only [Status.emit, Status.gameStep, hAt]
      refine ⟨trivial, ?_⟩
      exact { h with
        game := by simpa [hAt] using h.game
        msg := fun hNot => absurd rfl hNot
        short := List.length_take_le _ _
        waiting := fun _ hNot => absurd rfl hNot }
  | signalling =>
      simp only [Status.emit, Status.gameStep, hAt]
      refine ⟨⟨h.short, trivial⟩, ?_⟩
      refine h.notify_helper (by simp [hAt]) (fun _ => rfl) (Nat.le_refl _) ?_
      intro hOver
      refine Or.inl ?_
      show (s.helper == .timedOut) = true
      simp_all
  | unlocking =>
      simp only [Status.emit, Status.gameStep, hAt]
      refine ⟨trivial, ?_⟩
      exact { h with
        game := by simp
        helper := by simpa using hOutside
        msg := fun _ => h.msg (by simp [hAt])
        waiting := fun hWait _ => h.waiting hWait (by simp [hAt]) }

/-- With a free lock the game's thread is outside. -/
theorem Agreed.game_outside (h : Agreed s b) (hOwner : s.owner ≠ some .game) :
    s.game = .outside := by
  rw [ne_eq, h.game, Decidable.not_not] at hOwner
  exact hOwner

/-- The helper takes the lock. -/
theorem Agreed.acquire_helper (h : Agreed s b) (hFree : s.owner = none)
    {place : HelperAt}
    (hIn : place = .checking ∨ place = .timing ∨
      place = .clearing ∧ s.helper = .timedOut) :
    Agreed { s with owner := some .helper, helper := place } b := by
  have hGame := h.game_outside (by simp [hFree])
  refine { h with
    game := by simp [hGame]
    helper := ?_
    waiting := ?_
    sleeping := ?_
    timedOut := ?_ }
  · rcases hIn with rfl | rfl | ⟨rfl, -⟩ <;> simp
  · rcases hIn with rfl | rfl | ⟨rfl, -⟩ <;> simp
  · rcases hIn with rfl | rfl | ⟨rfl, -⟩ <;> simp
  · rcases hIn with rfl | rfl | ⟨rfl, hAt⟩
    · simp
    · simp
    · exact fun _ => h.timedOut (Or.inl hAt)

/-- The helper gives up the lock, or goes on with it. -/
theorem Agreed.helperStep (h : Agreed s b) (hRuns : s.helperRuns = true) :
    statusBar.Accepts b (s.emit .helper) ∧
      Agreed s.helperStep (statusBar.after b (s.emit .helper)) := by
  rw [Status.helperRuns] at hRuns
  have hNotGame (hIn : s.owner = some .helper) : s.game = .outside :=
    h.game_outside (by simp [hIn])
  cases hAt : s.helper with
  | locking | woken =>
      simp only [hAt, beq_iff_eq] at hRuns
      simp only [Status.emit, Status.helperStep, hAt]
      exact ⟨trivial, h.acquire_helper hRuns (by simp)⟩
  | notified =>
      simp only [hAt, beq_iff_eq] at hRuns
      simp only [Status.emit, Status.helperStep, hAt]
      exact ⟨trivial, h.acquire_helper hRuns (by simp)⟩
  | timedOut =>
      simp only [hAt, beq_iff_eq] at hRuns
      simp only [Status.emit, Status.helperStep, hAt]
      exact ⟨trivial, h.acquire_helper hRuns (by simp [hAt])⟩
  | checking =>
      have hGame := hNotGame (h.helper.2 (by simp [hAt]))
      simp only [Status.emit, Status.helperStep, hAt]
      refine ⟨trivial, ?_⟩
      split
      · next hEmpty =>
          exact { h with
            game := by simp [hGame]
            helper := by simp
            waiting := fun _ _ => hEmpty
            sleeping := by simp
            timedOut := by simp }
      · exact { h with
          helper := by simpa [hAt] using h.helper
          waiting := by simp
          sleeping := by simp
          timedOut := by simp }
  | timing =>
      have hGame := hNotGame (h.helper.2 (by simp [hAt]))
      obtain ⟨hNsec, hNanos⟩ := add1500_clockGettime s.now
      simp only [Status.emit, Status.helperStep, hAt, if_pos hNsec]
      refine ⟨trivial, ?_⟩
      exact { h with
        game := by simp [hGame]
        helper := by simp
        waiting := by simp
        sleeping := by
          rintro ts ⟨⟩
          rw [hNanos]
          exact ⟨Nat.add_le_add_right h.past _, Nat.le_refl _⟩
        timedOut := by simp }
  | clearing =>
      have hGame := hNotGame (h.helper.2 (by simp [hAt]))
      simp only [Status.emit, Status.helperStep, hAt]
      refine ⟨⟨h.timedOut (Or.inr hAt), trivial⟩, ?_⟩
      exact { h with
        helper := by simpa [hAt] using h.helper
        msg := fun _ => rfl
        short := Nat.zero_le _
        waiting := by simp
        sleeping := by simp
        timedOut := by simp }
  | unlocking =>
      have hGame := hNotGame (h.helper.2 (by simp [hAt]))
      simp only [Status.emit, Status.helperStep, hAt]
      refine ⟨trivial, ?_⟩
      exact { h with
        game := by simp [hGame]
        helper := by simp
        waiting := by simp
        sleeping := by simp
        timedOut := by simp }
  | waiting => simp [hAt] at hRuns
  | sleeping ts => simp [hAt] at hRuns

/-- One move follows the status bar. -/
theorem Agreed.step (h : Agreed s b) {m : Move} (hEnabled : s.Enabled m) :
    statusBar.Accepts b (s.emit m) ∧
      Agreed (s.next m) (statusBar.after b (s.emit m)) := by
  cases m with
  | pass d => exact ⟨trivial, h.pass d⟩
  | draw => exact ⟨trivial, h.acquire hEnabled.1 hEnabled.2 (by simp)⟩
  | «show» m => exact ⟨trivial, h.acquire hEnabled.1 hEnabled.2 (by simp)⟩
  | game => exact h.gameStep hEnabled
  | helper => exact h.helperStep hEnabled
  | timeOut =>
      refine ⟨trivial, ?_⟩
      have hOver : s.sleepOver = true := hEnabled
      rw [Status.sleepOver] at hOver
      cases hAt : s.helper with
      | sleeping ts =>
          simp only [hAt, decide_eq_true_eq] at hOver
          exact { h with
            helper := by simpa [Status.next, hAt] using h.helper
            waiting := by simp [Status.next]
            sleeping := by simp [Status.next]
            timedOut := fun _ =>
              Or.inr (Nat.le_trans (h.sleeping ts hAt).1 hOver) }
      | _ => simp [hAt] at hOver
  | wake =>
      refine ⟨trivial, ?_⟩
      exact h.notify_helper Iff.rfl h.msg h.past h.timedOut

end Step

/-! ## The result -/

/-- A run of the threads follows the status bar. -/
theorem Agreed.run {s : Status} {b : StatusBar} (h : Agreed s b)
    (ms : List Move) (hLegal : statusThreads.Legal s ms) :
    statusBar.Accepts b (statusThreads.events s ms) ∧
      Agreed (statusThreads.run s ms)
        (statusBar.after b (statusThreads.events s ms)) :=
  statusThreads.simulates statusBar (fun _ _ _ h hEnabled => h.step hEnabled)
    ms s b h hLegal

/--
**The status message.**  In every interleaving of the game's thread, the helper
and the clock, also with wake-ups that no signal caused: the status bar draws
the message posted last, cut to 40 characters, unless it was cleared; a message
is cleared no earlier than 1.5 seconds after it was posted, but for one whose
signal came after the helper's sleep had timed out; and no wake-up is lost:
with the lock free and a message posted, the helper does not wait for a signal.
-/
theorem statusThreads_correct (ms : List Move)
    (hLegal : statusThreads.Legal .start ms) :
    statusBar.Accepts ⟨[], 0, false⟩ (statusThreads.events .start ms) ∧
      let s := statusThreads.run .start ms
      (s.owner = none → s.msg ≠ [] → s.helper ≠ .waiting) ∧
        (s.owner = some .game → s.helper ≠ .clearing) := by
  obtain ⟨hAccepts, hEnd⟩ := Agreed.start.run ms hLegal
  refine ⟨hAccepts, ?_, ?_⟩
  · intro hFree hMsg hWaiting
    have hOutside := hEnd.game_outside (by simp [hFree])
    exact hMsg (hEnd.waiting hWaiting (by simp [hOutside]))
  · intro hOwner hClearing
    rw [hEnd.helper.2 (by simp [hClearing])] at hOwner
    cases hOwner

/-- Two messages are posted, the second a second after the first; the helper
clears it at 2.5 seconds. -/
def twoMessages : List Move :=
  [.helper, .helper, .show "You buy a Dew.", .game, .game, .game, .helper,
    .helper, .helper, .pass 1000000000, .show "So tasty and delicious!", .game,
    .game, .game, .helper, .helper, .draw, .game, .game, .pass messageTime,
    .timeOut, .helper, .helper, .helper]

theorem statusThreads_correct_twoMessages :
    statusBar.Accepts ⟨[], 0, false⟩ (statusThreads.events .start twoMessages) ∧
      let s := statusThreads.run .start twoMessages
      (s.owner = none → s.msg ≠ [] → s.helper ≠ .waiting) ∧
        (s.owner = some .game → s.helper ≠ .clearing) :=
  statusThreads_correct twoMessages (by decide)

/-! ## How a message ends -/

/-- A move that needs no player and no stray wake-up. -/
def Move.prompt : Move → Bool
  | .pass _ | .game | .helper | .timeOut => true
  | .draw | .show _ | .wake => false

/-- The time that a move takes. -/
def Move.elapsed : Move → Nat
  | .pass d => d
  | _ => 0

/-- The time that moves take. -/
def Move.timeTaken : List Move → Nat
  | [] => 0
  | m :: ms => m.elapsed + timeTaken ms

/-- The threads can clear the message within a time. -/
def Clears (time : Nat) (s : Status) : Prop :=
  ∃ ms : List Move, (∀ m ∈ ms, m.prompt = true) ∧
    Move.timeTaken ms ≤ time ∧ statusThreads.Legal s ms ∧
    (statusThreads.run s ms).msg = []

theorem Clears.of_empty {s : Status} (h : s.msg = []) (time : Nat) :
    Clears time s :=
  ⟨[], by simp, Nat.zero_le _, trivial, h⟩

theorem Clears.of_move {time : Nat} {s : Status} (m : Move)
    (hEnabled : s.Enabled m) (hPrompt : m.prompt = true)
    (h : Clears time (s.next m)) : Clears (m.elapsed + time) s := by
  obtain ⟨ms, hAll, hTime, hLegal, hEnd⟩ := h
  refine ⟨m :: ms, ?_, ?_, ⟨hEnabled, hLegal⟩, hEnd⟩
  · rintro m' (_ | ⟨_, hMem⟩)
    · exact hPrompt
    · exact hAll m' hMem
  · exact Nat.add_le_add_left hTime _

/-- The helper's steps take no time. -/
theorem Clears.of_helper {time : Nat} {s : Status}
    (hRuns : s.helperRuns = true) (h : Clears time s.helperStep) :
    Clears time s := by
  have hMove := Clears.of_move .helper hRuns rfl h
  rwa [show Move.helper.elapsed = 0 from rfl, Nat.zero_add] at hMove

/-- Nor do the game's. -/
theorem Clears.of_game {time : Nat} {s : Status} (hIn : s.game ≠ .outside)
    (h : Clears time s.gameStep) : Clears time s := by
  have hMove := Clears.of_move .game hIn rfl h
  rwa [show Move.game.elapsed = 0 from rfl, Nat.zero_add] at hMove

section Helper

variable {s : Status}

private theorem clears_clearing (h : s.helper = .clearing) (time : Nat) :
    Clears time s := by
  refine Clears.of_helper (by simp [Status.helperRuns, h]) ?_
  exact Clears.of_empty (by simp [Status.helperStep, h]) time

private theorem clears_timedOut (h : s.helper = .timedOut) (hFree : s.owner = none)
    (time : Nat) : Clears time s := by
  refine Clears.of_helper (by simp [Status.helperRuns, h, hFree]) ?_
  exact clears_clearing (by simp [Status.helperStep, h]) time

/-- The time goes by, and the sleep times out. -/
theorem clears_sleeping {ts : Timespec} {d : Nat}
    (h : s.helper = .sleeping ts) (hFree : s.owner = none)
    (hLater : ts.nanos ≤ s.now + d) : Clears d s := by
  let awake : Status := { s with now := s.now + d }
  have hOver : awake.Enabled .timeOut := by
    show awake.sleepOver = true
    simp only [awake, Status.sleepOver, h, decide_eq_true_eq]
    exact hLater
  have hClears : Clears 0 (awake.next .timeOut) :=
    clears_timedOut (s := awake.next .timeOut) rfl hFree 0
  exact Clears.of_move (.pass d) trivial rfl
    (Clears.of_move .timeOut hOver rfl hClears)

private theorem clears_timing (h : s.helper = .timing) : Clears messageTime s := by
  obtain ⟨hNsec, hNanos⟩ := add1500_clockGettime s.now
  have hStep : s.helperStep =
      { s with
        owner := none
        helper := .sleeping (clockGettime s.now).add1500 } := by
    simp only [Status.helperStep, h, if_pos hNsec]
  refine Clears.of_helper (by simp [Status.helperRuns, h]) ?_
  refine @clears_sleeping s.helperStep (clockGettime s.now).add1500 messageTime
    ?_ ?_ ?_
  · rw [hStep]
  · rw [hStep]
  · rw [hStep, hNanos]

private theorem clears_checking (h : s.helper = .checking) : Clears messageTime s := by
  by_cases hEmpty : s.msg = []
  · exact Clears.of_empty hEmpty _
  · refine Clears.of_helper (by simp [Status.helperRuns, h]) ?_
    exact clears_timing (by simp [Status.helperStep, h, hEmpty])

private theorem clears_locking (h : s.helper = .locking ∨ s.helper = .woken)
    (hFree : s.owner = none) : Clears messageTime s := by
  refine Clears.of_helper ?_ (clears_checking ?_)
  · rcases h with h | h <;> simp [Status.helperRuns, h, hFree]
  · rcases h with h | h <;> simp [Status.helperStep, h]

end Helper

section Ends

variable {s : Status} {b : StatusBar}

/-- Between the game's critical sections. -/
theorem Agreed.clears_outside (h : Agreed s b) (hOut : s.game = .outside) :
    Clears messageTime s := by
  have hNotGame : s.owner ≠ some .game := by
    rw [ne_eq, h.game, hOut]
    simp
  have hFree (hNot : ¬ (s.helper = .checking ∨ s.helper = .timing ∨
      s.helper = .clearing ∨ s.helper = .unlocking)) : s.owner = none := by
    rw [← h.helper] at hNot
    cases hOwner : s.owner with
    | none => rfl
    | some owner => cases owner <;> simp_all
  cases hAt : s.helper with
  | locking => exact clears_locking (Or.inl hAt) (hFree (by simp [hAt]))
  | woken => exact clears_locking (Or.inr hAt) (hFree (by simp [hAt]))
  | checking => exact clears_checking hAt
  | timing => exact clears_timing hAt
  | clearing => exact clears_clearing hAt _
  | waiting => exact Clears.of_empty (h.waiting hAt (by simp [hOut])) _
  | timedOut => exact clears_timedOut hAt (hFree (by simp [hAt])) _
  | notified =>
      refine Clears.of_helper ?_ (clears_timing ?_)
      · simp [Status.helperRuns, hAt, hFree]
      · simp [Status.helperStep, hAt]
  | sleeping ts =>
      exact clears_sleeping hAt (hFree (by simp [hAt])) (h.sleeping ts hAt).2
  | unlocking =>
      refine Clears.of_helper ?_ (clears_locking (Or.inl ?_) ?_)
      · simp [Status.helperRuns, hAt]
      · simp [Status.helperStep, hAt]
      · simp [Status.helperStep, hAt]

/-- A critical section of the game's thread ends by itself. -/
theorem Agreed.clears (h : Agreed s b) : Clears messageTime s := by
  have hUnlocking {s : Status} {b : StatusBar} (h : Agreed s b)
      (hAt : s.game = .unlocking) : Clears messageTime s := by
    have hIn : s.game ≠ .outside := by simp [hAt]
    refine Clears.of_game hIn ((h.gameStep hIn).2.clears_outside ?_)
    simp [Status.gameStep, hAt]
  have hSignalling {s : Status} {b : StatusBar} (h : Agreed s b)
      (hAt : s.game = .signalling) : Clears messageTime s := by
    have hIn : s.game ≠ .outside := by simp [hAt]
    refine Clears.of_game hIn (hUnlocking (h.gameStep hIn).2 ?_)
    simp [Status.gameStep, hAt]
  cases hAt : s.game with
  | outside => exact h.clears_outside hAt
  | unlocking => exact hUnlocking h hAt
  | signalling => exact hSignalling h hAt
  | drawing =>
      have hIn : s.game ≠ .outside := by simp [hAt]
      refine Clears.of_game hIn (hUnlocking (h.gameStep hIn).2 ?_)
      simp [Status.gameStep, hAt]
  | copying m =>
      have hIn : s.game ≠ .outside := by simp [hAt]
      refine Clears.of_game hIn (hSignalling (h.gameStep hIn).2 ?_)
      simp [Status.gameStep, hAt]

end Ends

/--
**Every message can end.**  From every state of every run, the two threads'
own steps, without another message or a stray wake-up, clear the message after
1.5 seconds at most: the threads never block each other, and the helper never
sleeps without a time while there is a message.
-/
theorem message_ends (ms : List Move)
    (hLegal : statusThreads.Legal .start ms) :
    Clears messageTime (statusThreads.run .start ms) :=
  (Agreed.start.run ms hLegal).2.clears

theorem message_ends_twoMessages :
    Clears messageTime (statusThreads.run .start (twoMessages.take 12)) :=
  message_ends (twoMessages.take 12) (by decide)

/-! ## The late message -/

def StatusEvent.isPosted : StatusEvent → Bool
  | .posted _ _ _ => true
  | .drawn _ | .cleared _ => false

/-- Without another message the status bar keeps the time. -/
theorem after_of_not_posted (es : List StatusEvent)
    (h : ∀ e ∈ es, e.isPosted = false) (b : StatusBar) :
    (statusBar.after b es).postedAt = b.postedAt ∧
      (statusBar.after b es).late = b.late := by
  induction es generalizing b with
  | nil => exact ⟨rfl, rfl⟩
  | cons e es ih =>
      have hNext := ih (fun e' hMem => h e' (List.mem_cons_of_mem e hMem))
        (statusBar.next b e)
      have hHere := h e List.mem_cons_self
      rw [Acceptor.after, hNext.1, hNext.2]
      cases e with
      | posted now msg late => cases hHere
      | drawn msg => exact ⟨rfl, rfl⟩
      | cleared now => exact ⟨rfl, rfl⟩

/-- The message that is being posted can be cleared before its time. -/
def ClearedEarly (s : Status) : Prop :=
  ∃ (ms : List Move) (before : List StatusEvent) (now : Nat),
    statusThreads.Legal s (.game :: ms) ∧
      statusThreads.events (s.next .game) ms = before ++ [.cleared now] ∧
      (∀ e ∈ before, e.isPosted = false) ∧ now < s.now + messageTime

/--
**The late message.**  In every run, at the signal of `show_status`: the
message can be cleared before its 1.5 seconds are over, without another one
being posted, if and only if the helper's sleep has timed out and it is waiting
for the lock.
-/
theorem clearedEarly_iff (ms : List Move)
    (hLegal : statusThreads.Legal .start ms) :
    let s := statusThreads.run .start ms
    s.game = .signalling → (ClearedEarly s ↔ s.helper = .timedOut) := by
  intro s hAt
  have hAgreed : Agreed s _ := (Agreed.start.run ms hLegal).2
  generalize statusBar.after _ _ = b at hAgreed
  have hIn : s.game ≠ .outside := by simp [hAt]
  constructor
  · rintro ⟨rest, before, now, hRest, hEvents, hNone, hEarly⟩
    have hNext := (hAgreed.step (m := .game) hIn).2
    have hAccepts := (hNext.run rest hRest.2).1
    rw [hEvents] at hAccepts
    have hGood : _ ∨ _ := hAccepts.good_of_split
    obtain ⟨hPosted, hLate⟩ := after_of_not_posted before hNone
      (statusBar.after b (s.emit .game))
    rw [hPosted, hLate] at hGood
    have hEmit : s.emit .game =
        [.posted s.now s.msg (s.helper == .timedOut)] := by
      simp [Status.emit, hAt]
    rw [hEmit] at hGood
    rcases hGood with hOver | hTime
    · exact beq_iff_eq.1 hOver
    · exact absurd hTime (Nat.not_le.2 hEarly)
  · intro hOver
    have hSignal : s.next .game = { s with game := .unlocking } := by
      simp only [Status.next, Status.gameStep, hAt, hOver, Status.notify]
    refine ⟨[.game, .helper, .helper], [], s.now, ⟨hIn, ?_⟩, ?_, by simp, ?_⟩
    · rw [show statusThreads.step s .game = _ from hSignal]
      refine ⟨GameAt.noConfusion, ?_, ?_, trivial⟩
      · simp [statusThreads, Status.Enabled, Status.next, Status.gameStep,
          Status.helperRuns, hOver]
      · simp [statusThreads, Status.Enabled, Status.next, Status.gameStep,
          Status.helperStep, Status.helperRuns, hOver]
    · rw [hSignal]
      simp [statusThreads, Machine.events, Status.emit, Status.next,
        Status.gameStep, Status.helperStep, hOver]
    · exact Nat.lt_add_of_pos_right (by decide)

/-- The second message is posted between the end of the helper's sleep and its
return to the lock. -/
def lateMessage : List Move :=
  [.helper, .helper, .show "You buy a Dew.", .game, .game, .game, .helper,
    .helper, .helper, .pass messageTime, .timeOut,
    .show "So tasty and delicious!", .game]

theorem clearedEarly_iff_lateMessage :
    ClearedEarly (statusThreads.run .start lateMessage) ↔
      (statusThreads.run .start lateMessage).helper = .timedOut :=
  clearedEarly_iff lateMessage (by decide) (by decide)

end CompE.Adventure
