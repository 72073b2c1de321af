import CompE.Adventure.Getting

/-!
# The keyboard

`get_command` of `input.c` reads whatever bytes have come since the tick
before.  The arrow keys and three more send three or four bytes each, and a
tick may fall between any two of them.

`Decides` says what the bytes of one tick mean.  With it the game loop on bytes
is the game loop on keys (`keys_played`); and if no tick has more than one
command, and nothing is typed behind it, the ticks do not matter
(`pace_free`).
-/

namespace CompE.Adventure

open CompE.Library

/-! ## Typing -/

/-- `MAX_TYPED_LEN`. -/
def maxTypedLen : Nat := 20

/-- `isalpha (c) || isdigit (c) || ' ' == c`. -/
def printable (c : BitVec 8) : Bool :=
  (0x41#8 ≤ c && c ≤ 0x5A#8) || (0x61#8 ≤ c && c ≤ 0x7A#8) ||
    (0x30#8 ≤ c && c ≤ 0x39#8) || c == 0x20#8

/-- `8 == c || 127 == c`. -/
def erases (c : BitVec 8) : Bool := c == 8#8 || c == 127#8

/-- `valid_typing`. -/
def validTyping (c : BitVec 8) : Bool := printable c || erases c

/-- `typing` before its NUL. -/
structure Typing where
  chars : List (BitVec 8)
  short : chars.length ≤ maxTypedLen
  valid : ∀ c ∈ chars, printable c = true

namespace Typing

/-- `reset_typed_command`. -/
def reset : Typing := ⟨[], Nat.zero_le _, nofun⟩

/-- `get_typed_command`. -/
def text (typing : Typing) : String :=
  String.ofList (typing.chars.map fun c => Char.ofNat c.toNat)

/-- `typed_a_char`. -/
def typedAChar (typing : Typing) (c : BitVec 8) (h : validTyping c = true) :
    Typing :=
  if hErase : erases c = true then
    ⟨typing.chars.dropLast, by
        rw [List.length_dropLast]
        exact Nat.le_trans (Nat.sub_le _ _) typing.short,
      fun c hc => typing.valid c (List.mem_of_mem_dropLast hc)⟩
  else if hRoom : typing.chars.length < maxTypedLen then
    ⟨typing.chars ++ [c], by
        rw [List.length_append]
        exact hRoom,
      by
        intro x hx
        rcases List.mem_append.1 hx with hx | hx
        · exact typing.valid x hx
        · rw [List.mem_singleton.1 hx]
          simpa [validTyping, hErase] using h⟩
  else typing

end Typing

/-! ## `get_command` -/

/-- `pushed`, but for `CMD_NONE`. -/
inductive Push where
  | right
  | left
  | up
  | down
  | moveLeft
  | enter
  | moveRight
  | typed
  deriving DecidableEq

/-- The command that is returned. -/
def Push.cmd (typing : Typing) : Option Push → Cmd
  | none => .none
  | some .right => .right
  | some .left => .left
  | some .up => .up
  | some .down => .down
  | some .moveLeft => .moveLeft
  | some .enter => .enter
  | some .moveRight => .moveRight
  | some .typed => .typed typing.text

/-- `state` of `get_command`. -/
inductive KeyState where
  | start
  /-- behind 27 -/
  | escape
  /-- behind 27 and 91 -/
  | bracket
  /-- behind a digit, before its tilde -/
  | tilde
  deriving DecidableEq

/-- The variables of `input.c`. -/
structure Input where
  state : KeyState
  typing : Typing

/-- The keys that send 27, 91 and a letter. -/
inductive Arrow where
  | up
  | down
  | right
  | left
  deriving DecidableEq

/-- The keys that send 27, 91, a digit and a tilde. -/
inductive Digit where
  | home
  | insert
  | pageUp
  deriving DecidableEq

def Arrow.byte : Arrow → BitVec 8
  | .up => 0x41#8
  | .down => 0x42#8
  | .right => 0x43#8
  | .left => 0x44#8

def Arrow.push : Arrow → Push
  | .up => .up
  | .down => .down
  | .right => .right
  | .left => .left

def Digit.byte : Digit → BitVec 8
  | .home => 0x31#8
  | .insert => 0x32#8
  | .pageUp => 0x35#8

def Digit.push : Digit → Push
  | .home => .enter
  | .insert => .moveLeft
  | .pageUp => .moveRight

def arrows : List Arrow := [.up, .down, .right, .left]

def digits : List Digit := [.insert, .home, .pageUp]

/-- A byte that is no part of a sequence: what is typed, and what is pushed. -/
def plainTyping (typing : Typing) (ch : BitVec 8) : Typing :=
  if h : validTyping ch = true then typing.typedAChar ch h else typing

def plainPush (ch : BitVec 8) : Option Push :=
  if validTyping ch then none
  else if ch = 10#8 ∨ ch = 13#8 then some .typed
  else none

/-- The byte is taken in state 0. -/
def Input.plain (input : Input) (pushed : Option Push) (ch : BitVec 8) :
    Input × Option Push :=
  (⟨.start, plainTyping input.typing ch⟩, (plainPush ch).or pushed)

/-- The `switch` of `get_command`. -/
def Input.read (input : Input) (pushed : Option Push) (ch : BitVec 8) :
    Input × Option Push :=
  match input.state with
  | .start =>
      if ch = 27#8 then ({ input with state := .escape }, pushed)
      else input.plain pushed ch
  | .escape =>
      if ch = 91#8 then ({ input with state := .bracket }, pushed)
      else input.plain pushed ch
  | .bracket =>
      match arrows.find? fun a => a.byte == ch with
      | some arrow => ({ input with state := .start }, some arrow.push)
      | none =>
          match digits.find? fun d => d.byte == ch with
          | some digit => ({ input with state := .tilde }, some digit.push)
          | none => input.plain pushed ch
  | .tilde =>
      if ch = 0x7E#8 then ({ input with state := .start }, pushed)
      else input.plain pushed ch

/-- `get_command`: the command, and what is left in `stdin`. -/
def Input.getCommand (input : Input) (pushed : Option Push) :
    List (BitVec 8) → Cmd × Input × List (BitVec 8)
  | [] => (Push.cmd input.typing pushed, input, [])
  | ch :: chs =>
      if ch = 0x60#8 then (.quit, input, chs)
      else (input.read pushed ch).1.getCommand (input.read pushed ch).2 chs

/-! ## Keys -/

/-- What is pressed.  An escape alone is not among the keys: `get_command`
takes what follows for the rest of a sequence. -/
inductive Key where
  | plain (ch : BitVec 8) (h : ch ≠ 27#8)
  | arrow (arrow : Arrow)
  | digit (digit : Digit)

namespace Key

def bytes : Key → List (BitVec 8)
  | .plain ch _ => [ch]
  | .arrow a => [27#8, 91#8, a.byte]
  | .digit d => [27#8, 91#8, d.byte, 0x7E#8]

/-- The backquote. -/
def quits : Key → Bool
  | .plain ch _ => ch == 0x60#8
  | .arrow _ | .digit _ => false

def push : Key → Option Push
  | .plain ch _ => plainPush ch
  | .arrow a => some a.push
  | .digit d => some d.push

def edit (typing : Typing) : Key → Typing
  | .plain ch _ => plainTyping typing ch
  | .arrow _ | .digit _ => typing

end Key

/-- The text behind the keys of a tick. -/
def edits (typing : Typing) (group : List Key) : Typing :=
  group.foldl Key.edit typing

/-- The last command wins. -/
def lastPush (pushed : Option Push) (group : List Key) : Option Push :=
  group.foldl (fun pushed k => k.push.or pushed) pushed

/-- The command of a tick. -/
def groupCmd (typing : Typing) (group : List Key) : Cmd :=
  if group.any Key.quits then .quit
  else Push.cmd (edits typing group) (lastPush none group)

/-- The bytes of a tick, between two states of `get_command`, and the keys for
which they decide. -/
inductive Decides : KeyState → List Key → List (BitVec 8) → KeyState → Prop where
  | nil (state : KeyState) : Decides state [] [] state
  | plain {group : List Key} {chs : List (BitVec 8)} {state : KeyState}
      (ch : BitVec 8) (h : ch ≠ 27#8) (rest : Decides .start group chs state) :
      Decides .start (.plain ch h :: group) (ch :: chs) state
  | escape {group : List Key} {chs : List (BitVec 8)} {state : KeyState}
      (rest : Decides .escape group chs state) :
      Decides .start group (27#8 :: chs) state
  | bracket {group : List Key} {chs : List (BitVec 8)} {state : KeyState}
      (rest : Decides .bracket group chs state) :
      Decides .escape group (91#8 :: chs) state
  | arrow {group : List Key} {chs : List (BitVec 8)} {state : KeyState}
      (arrow : Arrow) (rest : Decides .start group chs state) :
      Decides .bracket (.arrow arrow :: group) (arrow.byte :: chs) state
  | digit {group : List Key} {chs : List (BitVec 8)} {state : KeyState}
      (digit : Digit) (rest : Decides .tilde group chs state) :
      Decides .bracket (.digit digit :: group) (digit.byte :: chs) state
  | tilde {group : List Key} {chs : List (BitVec 8)} {state : KeyState}
      (rest : Decides .start group chs state) :
      Decides .tilde group (0x7E#8 :: chs) state

/-- The keys of each tick. -/
inductive Arrives : KeyState → List (List Key) → List (List (BitVec 8)) → Prop where
  | nil (state : KeyState) : Arrives state [] []
  | cons {state state' : KeyState} {group : List Key}
      {groups : List (List Key)} {batch : List (BitVec 8)}
      {batches : List (List (BitVec 8))} (first : Decides state group batch state')
      (rest : Arrives state' groups batches) :
      Arrives state (group :: groups) (batch :: batches)

section Keys

variable {state state' : KeyState} {group : List Key} {batch : List (BitVec 8)}

private theorem read_arrow (typing : Typing) (pushed : Option Push) (arrow : Arrow) :
    Input.read ⟨.bracket, typing⟩ pushed arrow.byte =
      (⟨.start, typing⟩, some arrow.push) := by
  cases arrow <;> rfl

private theorem read_digit (typing : Typing) (pushed : Option Push) (digit : Digit) :
    Input.read ⟨.bracket, typing⟩ pushed digit.byte =
      (⟨.tilde, typing⟩, some digit.push) := by
  cases digit <;> rfl

theorem Input.getCommand_cons (input : Input) (pushed : Option Push)
    {ch : BitVec 8} (h : ch ≠ 0x60#8) (chs : List (BitVec 8)) :
    input.getCommand pushed (ch :: chs) =
      (input.read pushed ch).1.getCommand (input.read pushed ch).2 chs := by
  rw [Input.getCommand, if_neg h]

/-- One call, on the bytes of one tick. -/
theorem getCommand_decides (h : Decides state group batch state') :
    ∀ (typing : Typing) (pushed : Option Push),
      if group.any Key.quits then
        (Input.getCommand ⟨state, typing⟩ pushed batch).1 = .quit
      else
        Input.getCommand ⟨state, typing⟩ pushed batch =
          (Push.cmd (edits typing group) (lastPush pushed group),
            ⟨state', edits typing group⟩, []) := by
  induction h with
  | nil state =>
      intro typing pushed
      rfl
  | plain ch h rest ih =>
      intro typing pushed
      by_cases hQuit : ch = 0x60#8
      · subst hQuit
        rfl
      · rw [Input.getCommand_cons _ _ hQuit]
        have hRead : Input.read ⟨.start, typing⟩ pushed ch =
            (⟨.start, plainTyping typing ch⟩, (plainPush ch).or pushed) := by
          rw [Input.read, if_neg h, Input.plain]
        rw [hRead]
        have hKey : Key.quits (.plain ch h) = false := by
          simpa [Key.quits] using hQuit
        rw [List.any_cons, hKey, Bool.false_or]
        exact ih (plainTyping typing ch) ((plainPush ch).or pushed)
  | escape rest ih =>
      intro typing pushed
      exact ih typing pushed
  | bracket rest ih =>
      intro typing pushed
      exact ih typing pushed
  | tilde rest ih =>
      intro typing pushed
      exact ih typing pushed
  | arrow arrow rest ih =>
      intro typing pushed
      have hByte : arrow.byte ≠ 0x60#8 := by
        cases arrow <;> decide
      rw [Input.getCommand_cons _ _ hByte, read_arrow]
      exact ih typing (some arrow.push)
  | digit digit rest ih =>
      intro typing pushed
      have hByte : digit.byte ≠ 0x60#8 := by
        cases digit <;> decide
      rw [Input.getCommand_cons _ _ hByte, read_digit]
      exact ih typing (some digit.push)

/-- A tick may end anywhere. -/
theorem Decides.cut {keys : List Key} {later : List (BitVec 8)}
    (batch : List (BitVec 8)) {state : KeyState}
    (h : Decides state keys (batch ++ later) state') :
    ∃ group rest middle, keys = group ++ rest ∧ Decides state group batch middle ∧
      Decides middle rest later state' := by
  induction batch generalizing state keys with
  | nil => exact ⟨[], keys, state, rfl, .nil state, h⟩
  | cons ch batch ih =>
      rw [List.cons_append] at h
      cases h with
      | plain _ hKey tail =>
          obtain ⟨group, rest, middle, rfl, hHere, hLater⟩ := ih tail
          exact ⟨_ :: group, rest, middle, rfl, .plain ch hKey hHere, hLater⟩
      | escape tail =>
          obtain ⟨group, rest, middle, rfl, hHere, hLater⟩ := ih tail
          exact ⟨group, rest, middle, rfl, .escape hHere, hLater⟩
      | bracket tail =>
          obtain ⟨group, rest, middle, rfl, hHere, hLater⟩ := ih tail
          exact ⟨group, rest, middle, rfl, .bracket hHere, hLater⟩
      | arrow arrow tail =>
          obtain ⟨group, rest, middle, rfl, hHere, hLater⟩ := ih tail
          exact ⟨_ :: group, rest, middle, rfl, .arrow arrow hHere, hLater⟩
      | digit digit tail =>
          obtain ⟨group, rest, middle, rfl, hHere, hLater⟩ := ih tail
          exact ⟨_ :: group, rest, middle, rfl, .digit digit hHere, hLater⟩
      | tilde tail =>
          obtain ⟨group, rest, middle, rfl, hHere, hLater⟩ := ih tail
          exact ⟨group, rest, middle, rfl, .tilde hHere, hLater⟩

private theorem decides_bytes (keys : List Key) :
    Decides .start keys (keys.flatMap Key.bytes) .start := by
  induction keys with
  | nil => exact .nil .start
  | cons k keys ih =>
      cases k with
      | plain ch h => exact .plain ch h ih
      | arrow arrow => exact .escape (.bracket (.arrow arrow ih))
      | digit digit => exact .escape (.bracket (.digit digit (.tilde ih)))

/-- Every way to cut the bytes of some keys into ticks. -/
theorem arrives_of_decides {keys : List Key} (batches : List (List (BitVec 8)))
    {state : KeyState} (h : Decides state keys batches.flatten .start) :
    ∃ groups, groups.length = batches.length ∧ Arrives state groups batches ∧
      keys = groups.flatten := by
  induction batches generalizing state keys with
  | nil =>
      cases h with
      | nil => exact ⟨[], rfl, .nil _, rfl⟩
  | cons batch batches ih =>
      rw [List.flatten_cons] at h
      obtain ⟨group, rest, middle, rfl, hHere, hLater⟩ := h.cut
      obtain ⟨groups, hLength, hArrives, rfl⟩ := ih hLater
      exact ⟨group :: groups, congrArg Nat.succ hLength, .cons hHere hArrives, rfl⟩

end Keys

/-! ## The game loop on bytes -/

/-- `handle_typing`, with what is left to do with the text. -/
def typedAction (typed : String) : GameM TcAction :=
  let cmd := typed.toList.dropWhile (· == ' ')
  if cmd = [] then return .allowEdit
  else
    let verb := cmd.takeWhile (· != ' ')
    let arg := (cmd.dropWhile (· != ' ')).dropWhile (· == ' ')
    match cmdList.find? fun c =>
        c.minLen ≤ verb.length && hasPrefixCase c.name.toList verb with
    | none => do
        showStatus "What are you babbling about?"
        return .allowEdit
    | some c => do
        let result ← typedCmd c.cmd (String.ofList arg)
        if result = .redrawRoom then do
          redrawRoom
          return result
        else return result

/-- `reset_typed_command` is called. -/
def TcAction.discards : TcAction → Bool
  | .discardText | .redrawRoom => true
  | .allowEdit | .changeRoom => false

/-- `enter_room = 1` behind a command that changes the room. -/
def enterAfter (action : TcAction) : GameM PUnit :=
  if action = .changeRoom then modify fun g => { g with enterRoom := true }
  else return ⟨⟩

/-- The end of a turn. -/
def condition : GameM Condition := do
  let g ← get
  if g.whereAt = none then return .won else return .playing

/-- The part of a turn behind `get_command`; whether the text is discarded. -/
def obey (cmd : Cmd) : GameM (Condition × Bool) :=
  match cmd with
  | .quit => return (.quit, false)
  | .typed text => do
      let action ← typedAction text
      enterAfter action
      let c ← condition
      return (c, action.discards)
  | cmd => do
      doCommand cmd
      let c ← condition
      return (c, false)

/-- The part before; the text is discarded when a room is entered. -/
def enterTurn : GameM Bool := do
  let g ← get
  drawEntered
  return g.enterRoom

def Typing.discard (typing : Typing) (yes : Bool) : Typing :=
  if yes then .reset else typing

def Input.discard (input : Input) (yes : Bool) : Input :=
  { input with typing := input.typing.discard yes }

/-- `game_loop`, with the bytes that come before each tick. -/
def play (input : Input) : List (List (BitVec 8)) → GameM Condition
  | [] => return .playing
  | batch :: batches => do
      let entered ← enterTurn
      let r := (input.discard entered).getCommand none batch
      let (condition, discard) ← obey r.1
      match condition with
      | .playing => play (r.2.1.discard discard) batches
      | condition => return condition

/-- The same on keys. -/
def playKeys (typing : Typing) : List (List Key) → GameM Condition
  | [] => return .playing
  | group :: groups => do
      let entered ← enterTurn
      let (condition, discard) ← obey (groupCmd (typing.discard entered) group)
      match condition with
      | .playing =>
          playKeys ((edits (typing.discard entered) group).discard discard) groups
      | condition => return condition

section Play

variable {state : KeyState} {groups : List (List Key)}
  {batches : List (List (BitVec 8))}

/-- A turn is the one of `game_loop`. -/
theorem handleTyping_eq (typed : String) :
    handleTyping typed = do
      let action ← typedAction typed
      return action = .changeRoom := by
  rw [handleTyping, typedAction]
  dsimp only
  split
  · rfl
  · generalize cmdList.find? _ = found
    cases found with
    | none => rfl
    | some c =>
        dsimp only
        rw [bind_assoc]
        apply bind_congr
        intro result
        cases result <;> simp

private theorem tick_eq (cmd : Cmd) :
    tick cmd = do
      let _ ← enterTurn
      let (condition, _) ← obey cmd
      return condition := by
  have hEnter : ∀ m : GameM Condition,
      (enterTurn >>= fun _ => m) = drawEntered >>= fun _ => m := by
    intro m
    simp only [enterTurn, bind_assoc, pure_bind]
    rfl
  rw [hEnter]
  cases cmd with
  | typed text =>
      simp only [tick, doCommand, obey, handleTyping_eq, bind_assoc, pure_bind,
        bind_pure]
      apply bind_congr
      intro _
      apply bind_congr
      intro action
      cases action <;> rfl
  | quit => rfl
  | none | right | left | up | down | moveLeft | enter | moveRight =>
      simp only [tick, obey, bind_assoc, pure_bind, bind_pure]
      rfl

/-- The bytes of some ticks, played. -/
theorem play_arrives (h : Arrives state groups batches) (typing : Typing) :
    play ⟨state, typing⟩ batches = playKeys typing groups := by
  induction h generalizing typing with
  | nil state => rfl
  | cons first rest ih =>
      rw [play, playKeys]
      apply bind_congr
      intro entered
      have hCall := getCommand_decides first (typing.discard entered) none
      split at hCall
      · next hQuit =>
          dsimp only [Input.discard]
          rw [hCall, groupCmd, if_pos hQuit]
          rfl
      · next hQuit =>
          dsimp only [Input.discard]
          rw [hCall, groupCmd, if_neg hQuit]
          apply bind_congr
          rintro ⟨c, discard⟩
          cases c with
          | playing => exact ih _
          | won | quit => rfl

/-! ### Any bytes -/

/-- What is typed is short, and of letters, digits and spaces. -/
def Typeable (text : String) : Prop :=
  text.toList.length ≤ maxTypedLen ∧
    ∀ c ∈ text.toList, c.isAlphanum = true ∨ c = ' '

private theorem printable_char : ∀ c : BitVec 8, printable c = true →
    (Char.ofNat c.toNat).isAlphanum = true ∨ Char.ofNat c.toNat = ' ' := by
  decide +kernel

private theorem text_typeable (typing : Typing) : Typeable typing.text := by
  have hList : typing.text.toList = typing.chars.map fun c => Char.ofNat c.toNat :=
    String.toList_ofList
  constructor
  · rw [hList, List.length_map]
    exact typing.short
  · intro c hc
    rw [hList] at hc
    obtain ⟨b, hb, rfl⟩ := List.mem_map.1 hc
    exact printable_char b (typing.valid b hb)

private theorem getCommand_typed (batch : List (BitVec 8)) (input : Input)
    (pushed : Option Push) {text : String}
    (h : (input.getCommand pushed batch).1 = .typed text) : Typeable text := by
  induction batch generalizing input pushed with
  | nil =>
      cases pushed with
      | none => cases h
      | some push =>
          cases push <;> cases h
          exact text_typeable input.typing
  | cons ch batch ih =>
      rw [Input.getCommand] at h
      split at h
      · cases h
      · exact ih _ _ h

/-! ### One turn -/

section Turn

variable {g g' g'' : Game} {entered discard : Bool} {c : Condition}

private theorem tick_run {cmd : Cmd} (hEnter : enterTurn.run g = some (entered, g'))
    (hObey : (obey cmd).run g' = some ((c, discard), g'')) :
    (tick cmd).run g = some (c, g'') := by
  rw [tick_eq]
  simp only [StateT.run_bind, hEnter, hObey, Option.bind_some, Option.bind_eq_bind]
  rfl

private theorem gameLoop_run {cmd : Cmd} (cmds : List Cmd)
    (hTick : (tick cmd).run g = some (c, g')) :
    (gameLoop (cmd :: cmds)).run g =
      if c = .playing then (gameLoop cmds).run g' else some (c, g') := by
  rw [gameLoop, StateT.run_bind, hTick]
  cases c with
  | playing => rfl
  | won | quit => rfl

private theorem gameLoop_stuck {cmd : Cmd} (cmds : List Cmd) (hTick : (tick cmd).run g = none) :
    (gameLoop (cmd :: cmds)).run g = none := by
  rw [gameLoop, StateT.run_bind, hTick]
  rfl

private theorem play_run {input : Input} {batch : List (BitVec 8)}
    (batches : List (List (BitVec 8)))
    (hEnter : enterTurn.run g = some (entered, g'))
    (hObey : (obey ((input.discard entered).getCommand none batch).1).run g' =
      some ((c, discard), g'')) :
    (play input (batch :: batches)).run g =
      if c = .playing then
        (play (((input.discard entered).getCommand none batch).2.1.discard discard)
          batches).run g''
      else some (c, g'') := by
  rw [play]
  simp only [StateT.run_bind, hEnter, hObey, Option.bind_some, Option.bind_eq_bind]
  cases c with
  | playing => rfl
  | won | quit => rfl

/-- A turn that is stuck is stuck in both. -/
theorem enterTurn_stuck (hEnter : enterTurn.run g = none) (input : Input)
    (batch : List (BitVec 8)) (batches : List (List (BitVec 8))) (cmd : Cmd) :
    (play input (batch :: batches)).run g = none ∧ (tick cmd).run g = none := by
  rw [play, tick_eq]
  simp only [StateT.run_bind, hEnter, Option.bind_none, Option.bind_eq_bind, and_self]

private theorem obey_stuck {input : Input} {batch : List (BitVec 8)}
    (batches : List (List (BitVec 8))) (hEnter : enterTurn.run g = some (entered, g'))
    (hObey : (obey ((input.discard entered).getCommand none batch).1).run g' = none) :
    (play input (batch :: batches)).run g = none ∧
      (tick ((input.discard entered).getCommand none batch).1).run g = none := by
  rw [play, tick_eq]
  simp only [StateT.run_bind, hEnter, hObey, Option.bind_some, Option.bind_none,
    Option.bind_eq_bind, and_self]

end Turn

/--
**Any bytes are some commands.**  Whatever bytes come, and before whichever
ticks, the game does what `game_loop` does with some list of commands; the
typed ones are short and of letters, digits and spaces.
-/
theorem play_commands (batches : List (List (BitVec 8))) (input : Input)
    (g : Game) :
    ∃ cmds, cmds.length ≤ batches.length ∧
      (∀ text, Cmd.typed text ∈ cmds → Typeable text) ∧
      (play input batches).run g = (gameLoop cmds).run g := by
  induction batches generalizing input g with
  | nil => exact ⟨[], Nat.le.refl, nofun, rfl⟩
  | cons batch batches ih =>
      have hTyped : ∀ entered text, Cmd.typed text ∈
          [((input.discard entered).getCommand none batch).1] → Typeable text := by
        intro entered text hText
        exact getCommand_typed batch (input.discard entered) none
          (List.mem_singleton.1 hText).symm
      cases hEnter : enterTurn.run g with
      | none =>
          obtain ⟨hPlay, hTick⟩ := enterTurn_stuck hEnter input batch batches .none
          refine ⟨[.none], by simp, by simp, ?_⟩
          rw [hPlay, gameLoop_stuck [] hTick]
      | some entered =>
          obtain ⟨entered, g'⟩ := entered
          cases hObey : (obey ((input.discard entered).getCommand none batch).1).run g' with
          | none =>
              obtain ⟨hPlay, hTick⟩ := obey_stuck batches hEnter hObey
              refine ⟨[_], by simp, hTyped entered, ?_⟩
              rw [hPlay, gameLoop_stuck [] hTick]
          | some ended =>
              obtain ⟨⟨c, discard⟩, g''⟩ := ended
              obtain ⟨cmds, hLength, hAll, hRun⟩ := ih
                (((input.discard entered).getCommand none batch).2.1.discard discard) g''
              refine ⟨((input.discard entered).getCommand none batch).1 :: cmds,
                Nat.succ_le_succ hLength, ?_, ?_⟩
              · intro text hText
                rcases List.mem_cons.1 hText with hHere | hLater
                · exact hTyped entered text (List.mem_singleton.2 hHere)
                · exact hAll text hLater
              · rw [play_run batches hEnter hObey, gameLoop_run cmds (tick_run hEnter hObey),
                  hRun]

/-- In a room the game does not get stuck. -/
theorem play_total (batches : List (List (BitVec 8))) :
    ∀ (input : Input) {r : RoomId} {g : Game}, At (some r) g →
      ((play input batches).run g).isSome = true := by
  induction batches with
  | nil => exact fun _ _ _ _ => rfl
  | cons batch batches ih =>
      intro input r g hAt
      have hNever : ∀ cmd, (tick cmd).run g ≠ none := by
        intro cmd
        obtain ⟨condition, g', hTick, _⟩ := tick_turned cmd g hAt
        rw [hTick]
        exact Option.some_ne_none _
      cases hEnter : enterTurn.run g with
      | none =>
          exact absurd (enterTurn_stuck hEnter input batch batches .none).2 (hNever _)
      | some entered =>
          obtain ⟨entered, g'⟩ := entered
          cases hObey : (obey ((input.discard entered).getCommand none batch).1).run g' with
          | none =>
              exact absurd (obey_stuck batches hEnter hObey).2 (hNever _)
          | some ended =>
              obtain ⟨⟨c, discard⟩, g''⟩ := ended
              obtain ⟨condition, g₂, hTick, hTurned⟩ := tick_turned
                ((input.discard entered).getCommand none batch).1 g hAt
              rw [tick_run hEnter hObey, Option.some.injEq, Prod.mk.injEq] at hTick
              obtain ⟨rfl, rfl⟩ := hTick
              rw [play_run batches hEnter hObey]
              by_cases hPlaying : c = .playing
              · obtain ⟨dest, hDest⟩ := hTurned.2 hPlaying
                rw [if_pos hPlaying]
                exact ih _ hDest
              · rw [if_neg hPlaying]
                rfl

/-! ### Pace -/

/-- Nothing is pushed. -/
def Key.quiet (k : Key) : Prop := k.push = none ∧ k.quits = false

instance (k : Key) : Decidable k.quiet := inferInstanceAs (Decidable (_ ∧ _))

/-- A tick has one command at most, and nothing behind it. -/
def Paced (group : List Key) : Prop := ∀ k ∈ group.dropLast, k.quiet

instance (group : List Key) : Decidable (Paced group) :=
  inferInstanceAs (Decidable (∀ _ ∈ _, _))

private theorem deref_run {α : Type} (p : Option α) (g : Game) :
    (deref p : GameM α).run g = p.map fun a => (a, g) := rfl

/-- Drawing leaves the player where they are. -/
theorem draw_run (f : Game → Photo → List Placed → Scroll) (g : Game) :
    (draw f).run g = none ∨
      ∃ g', (draw f).run g = some (⟨⟩, g') ∧ g'.whereAt = g.whereAt := by
  simp only [draw, current, roomContents, StateT.run_bind, StateT.run_get,
    deref_run, bind_assoc, Option.bind_eq_bind, Option.pure_def, Option.bind_some]
  cases hRoom : g.whereAt with
  | none => exact Or.inl rfl
  | some r =>
      simp only [Option.map_some, Option.bind_some]
      cases g.view r with
      | none => exact Or.inl rfl
      | some photo =>
          simp only [Option.map_some, Option.bind_some]
          cases walk g.lists.next nObjects (g.lists.head r) with
          | none => exact Or.inl rfl
          | some contents =>
              simp only [Option.map_some, Option.bind_some]
              cases contents.mapM g.placed with
              | none => exact Or.inl rfl
              | some placed => exact Or.inr ⟨_, rfl, hRoom⟩

/-- A turn in a room that has been drawn. -/
theorem enterTurn_again {g : Game} (h : g.enterRoom = false) :
    enterTurn.run g = some (false, g) := by
  simp [enterTurn, drawEntered, h]

private theorem enterTurn_run {g : Game} (h : g.whereAt ≠ none) :
    enterTurn.run g = none ∨
      ∃ entered g', enterTurn.run g = some (entered, g') ∧ g'.whereAt ≠ none ∧
        g'.enterRoom = false := by
  cases hEnter : g.enterRoom with
  | false => exact Or.inr ⟨false, g, enterTurn_again hEnter, h, hEnter⟩
  | true =>
      rcases draw_run (fun g photo contents =>
        Scroll.enterRoom photo contents g.scroll.view) g with hDraw | ⟨g', hDraw, hRoom⟩
      · refine Or.inl ?_
        simp [enterTurn, drawEntered, hEnter, hDraw]
      · refine Or.inr ⟨true, { g' with enterRoom := false }, ?_, ?_, rfl⟩
        · simp [enterTurn, drawEntered, hEnter, hDraw]
        · show g'.whereAt ≠ none
          rw [hRoom]
          exact h

private theorem obey_none {g : Game} (h : g.whereAt ≠ none) :
    (obey .none).run g = some ((.playing, false), g) := by
  simp [obey, doCommand, condition, h]

private theorem condition_playing {α : Type} {m : GameM α} {f : α → Bool} {g g' : Game}
    {discard : Bool}
    (h : (m >>= fun a => condition >>= fun c => pure (c, f a)).run g =
      some ((.playing, discard), g')) : g'.whereAt ≠ none := by
  simp only [StateT.run_bind, condition, StateT.run_get, Option.bind_eq_bind,
    Option.pure_def, Option.bind_some, bind_assoc] at h
  cases hRun : m.run g with
  | none =>
      rw [hRun] at h
      cases h
  | some ended =>
      rw [hRun] at h
      by_cases hRoom : ended.2.whereAt = none
      · simp [hRoom] at h
      · simp [hRoom] at h
        rw [← h.2]
        exact hRoom

/-- The game goes on in a room. -/
theorem obey_playing {cmd : Cmd} {g g' : Game} {discard : Bool}
    (h : (obey cmd).run g = some ((.playing, discard), g')) :
    g'.whereAt ≠ none := by
  cases cmd with
  | quit => cases h
  | typed text =>
      apply condition_playing (f := TcAction.discards)
        (m := typedAction text >>= fun action => enterAfter action >>= fun _ => pure action)
      rw [obey] at h
      simpa only [bind_assoc, pure_bind] using h
  | none | right | left | up | down | moveLeft | enter | moveRight =>
      exact condition_playing (f := fun _ => false) h

/-- A turn, and what follows if the game goes on. -/
theorem playKeys_cons_congr {groups groups' : List (List Key)}
    (h : ∀ (typing : Typing) (g : Game), g.whereAt ≠ none →
      (playKeys typing groups).run g = (playKeys typing groups').run g)
    (group : List Key) (typing : Typing) (g : Game) :
    (playKeys typing (group :: groups)).run g =
      (playKeys typing (group :: groups')).run g := by
  simp only [playKeys, StateT.run_bind]
  cases enterTurn.run g with
  | none => rfl
  | some entered =>
      simp only [Option.bind_eq_bind, Option.bind_some]
      cases hObey : (obey (groupCmd (typing.discard entered.1) group)).run entered.2 with
      | none => rfl
      | some ended =>
          obtain ⟨⟨c, discard⟩, g'⟩ := ended
          cases c with
          | playing => exact h _ g' (obey_playing hObey)
          | won | quit => rfl

/-- A turn with nothing typed, before another one. -/
theorem playKeys_idle (typing : Typing) (group : List Key)
    (groups : List (List Key)) {g : Game} (h : g.whereAt ≠ none) :
    (playKeys typing ([] :: group :: groups)).run g =
      (playKeys typing (group :: groups)).run g := by
  simp only [playKeys, StateT.run_bind]
  rcases enterTurn_run h with hEnter | ⟨entered, g', hEnter, hRoom, hDrawn⟩
  · rw [hEnter]
    rfl
  · have hNone : groupCmd (typing.discard entered) [] = .none := rfl
    simp only [hEnter, Option.bind_eq_bind, Option.bind_some, hNone,
      obey_none hRoom, StateT.run_bind, enterTurn_again hDrawn]
    rfl

/-- A quiet key may have its turn for itself. -/
theorem playKeys_quiet (typing : Typing) {k : Key} (hQuiet : k.quiet)
    (group : List Key) (groups : List (List Key)) {g : Game}
    (h : g.whereAt ≠ none) :
    (playKeys typing ((k :: group) :: groups)).run g =
      (playKeys typing ([k] :: group :: groups)).run g := by
  obtain ⟨hPush, hQuit⟩ := hQuiet
  have hOne : ∀ typing, groupCmd typing [k] = .none := by
    intro typing
    simp [groupCmd, lastPush, hPush, hQuit, Push.cmd]
  have hFirst : ∀ typing, groupCmd typing (k :: group) =
      groupCmd (k.edit typing) group := by
    intro typing
    simp [groupCmd, lastPush, edits, hPush, hQuit]
  simp only [playKeys, StateT.run_bind]
  rcases enterTurn_run h with hEnter | ⟨entered, g', hEnter, hRoom, hDrawn⟩
  · rw [hEnter]
    rfl
  · simp only [hEnter, Option.bind_eq_bind, Option.bind_some, hOne, hFirst,
      obey_none hRoom, StateT.run_bind, enterTurn_again hDrawn]
    rfl

/-- Every key of a tick may have its turn for itself. -/
theorem playKeys_group {group : List Key} (hPaced : Paced group)
    {groups groups' : List (List Key)} (hSome : groups ≠ [])
    (h : ∀ (typing : Typing) (g : Game), g.whereAt ≠ none →
      (playKeys typing groups).run g = (playKeys typing groups').run g) :
    ∀ (typing : Typing) (g : Game), g.whereAt ≠ none →
      (playKeys typing (group :: groups)).run g =
        (playKeys typing (group.map ([·]) ++ groups')).run g := by
  induction group with
  | nil =>
      intro typing g hRoom
      obtain ⟨next, later, rfl⟩ := List.exists_cons_of_ne_nil hSome
      rw [playKeys_idle typing next later hRoom]
      exact h typing g hRoom
  | cons k group ih =>
      intro typing g hRoom
      cases group with
      | nil => exact playKeys_cons_congr h [k] typing g
      | cons k' group =>
          rw [playKeys_quiet typing (hPaced k (by simp)) (k' :: group) groups hRoom]
          have hRest : Paced (k' :: group) := by
            intro x hx
            exact hPaced x (by simp [hx])
          exact playKeys_cons_congr (ih hRest) [k] typing g

private theorem playKeys_paced (groups : List (List Key))
    (hPaced : ∀ group ∈ groups, Paced group) :
    ∀ (typing : Typing) (g : Game), g.whereAt ≠ none →
      (playKeys typing (groups ++ [[]])).run g =
        (playKeys typing (groups.flatten.map ([·]) ++ [[]])).run g := by
  induction groups with
  | nil =>
      intro typing g _
      rfl
  | cons group groups ih =>
      rw [List.flatten_cons, List.map_append, List.append_assoc]
      have hRest := ih fun later hLater => hPaced later (List.mem_cons_of_mem group hLater)
      exact playKeys_group (hPaced group List.mem_cons_self) (by simp) hRest

theorem Arrives.append_idle (h : Arrives state groups batches) :
    Arrives state (groups ++ [[]]) (batches ++ [[]]) := by
  induction h with
  | nil state => exact .cons (.nil state) (.nil state)
  | cons first rest ih => exact .cons first ih

/--
**The bytes are the keys.**  However the bytes of some keys are cut into ticks,
the keys fall into as many groups, and the game on the bytes is the game on
these groups.
-/
theorem keys_played (keys : List Key) (batches : List (List (BitVec 8)))
    (h : batches.flatten = keys.flatMap Key.bytes) :
    ∃ groups, groups.length = batches.length ∧ groups.flatten = keys ∧
      Arrives .start groups batches ∧
      ∀ typing, play ⟨.start, typing⟩ batches = playKeys typing groups := by
  have hDecides := decides_bytes keys
  rw [← h] at hDecides
  obtain ⟨groups, hLength, hArrives, rfl⟩ := arrives_of_decides batches hDecides
  exact ⟨groups, hLength, rfl, hArrives, play_arrives hArrives⟩

/-- The letter `g`. -/
def letterKey : Key := .plain 0x67#8 (by decide)

/-- An arrow key, with a tick behind its first byte, and a letter. -/
theorem keys_played_cutArrow :
    ∃ groups : List (List Key), groups.length = 2 ∧
      groups.flatten = [.arrow .up, letterKey] ∧
      Arrives .start groups [[27#8], [91#8, 0x41#8, 0x67#8]] ∧
      ∀ typing, play ⟨.start, typing⟩ [[27#8], [91#8, 0x41#8, 0x67#8]] =
        playKeys typing groups :=
  keys_played [.arrow .up, letterKey] [[27#8], [91#8, 0x41#8, 0x67#8]] rfl

/--
**The pace does not matter.**  If the same keys are pressed at two paces, with
one command at most in a tick and nothing typed behind it, then a tick after
the last key the two games are the same.
-/
theorem pace_free {groups groups' : List (List Key)}
    {batches batches' : List (List (BitVec 8))}
    (hArrives : Arrives .start groups batches)
    (hArrives' : Arrives .start groups' batches')
    (hSame : groups.flatten = groups'.flatten)
    (hPaced : ∀ group ∈ groups, Paced group)
    (hPaced' : ∀ group ∈ groups', Paced group) (typing : Typing) {g : Game}
    (hRoom : g.whereAt ≠ none) :
    (play ⟨.start, typing⟩ (batches ++ [[]])).run g =
      (play ⟨.start, typing⟩ (batches' ++ [[]])).run g := by
  rw [play_arrives hArrives.append_idle, play_arrives hArrives'.append_idle,
    playKeys_paced groups hPaced typing g hRoom,
    playKeys_paced groups' hPaced' typing g hRoom, hSame]

/-- A letter and an arrow key in one tick, and in three, in the game that
`build_world` has made. -/
theorem pace_free_cutArrow :
    ∃ world condition g,
      (buildWorld (fun _ => some ⟨400, 300, fun _ => 0⟩)
        fun _ => some ⟨10, 10, fun _ => 0⟩).run blank = some (true, world) ∧
      (play ⟨.start, .reset⟩ ([[0x67#8, 27#8, 91#8, 0x41#8]] ++ [[]])).run
          (initGame (fun _ => 0) world) = some (condition, g) ∧
      (play ⟨.start, .reset⟩ ([[0x67#8], [27#8, 91#8], [0x41#8]] ++ [[]])).run
          (initGame (fun _ => 0) world) = some (condition, g) := by
  obtain ⟨ok, world, hRun, hFail, hGood⟩ :=
    buildWorld_good (fun _ => some ⟨400, 300, fun _ => 0⟩)
      (fun _ => some ⟨10, 10, fun _ => 0⟩) blank fun _ => 0
  cases ok with
  | false =>
      obtain ⟨_, hNone⟩ := hFail rfl
      simp at hNone
  | true =>
      have hArrives : Arrives .start [[letterKey, .arrow .up]]
          [[0x67#8, 27#8, 91#8, 0x41#8]] :=
        .cons (.plain _ _ (.escape (.bracket (.arrow .up (.nil _))))) (.nil _)
      have hArrives' : Arrives .start [[letterKey], [], [.arrow .up]]
          [[0x67#8], [27#8, 91#8], [0x41#8]] :=
        .cons (.plain _ _ (.nil _))
          (.cons (.escape (.bracket (.nil _))) (.cons (.arrow .up (.nil _)) (.nil _)))
      have hSame := pace_free (g := initGame (fun _ => 0) world) hArrives hArrives' rfl
        (by decide) (by decide) .reset (by simp [initGame])
      obtain ⟨⟨condition, g⟩, hPlay⟩ := Option.isSome_iff_exists.mp (play_total
        ([[0x67#8, 27#8, 91#8, 0x41#8]] ++ [[]]) ⟨.start, .reset⟩ (hGood rfl).1)
      exact ⟨world, condition, g, hRun, hPlay, hSame ▸ hPlay⟩

end Play

end CompE.Adventure
