import CompE.Adventure.CommandsKept

/-!
# The game loop

`game_loop` takes one command after the other until the player wins or quits,
and draws the room whenever it has been entered.  What is drawn is the photo of
the player's room and the objects of its contents list.

After any commands, the contents lists are what the objects' places say
(`world_lists`).
-/

namespace CompE.Adventure

open CompE.Library

/-- `MOTION_SPEED`. -/
def motionSpeed : Nat := 2

/-- `cmd_id_t`. -/
inductive CmdId where
  | buy | charge | do_ | drink | drop | fix | flash | get | go | install
  | inventory | sigh | use | wear

/-- `typed_cmd_t`. -/
structure TypedCmd where
  name : String
  minLen : Nat
  cmd : CmdId

/-- `cmd_list`. -/
def cmdList : List TypedCmd :=
  [⟨"buy", 3, .buy⟩, ⟨"charge", 2, .charge⟩, ⟨"do", 2, .do_⟩,
    ⟨"drink", 3, .drink⟩, ⟨"drop", 2, .drop⟩, ⟨"fix", 3, .fix⟩,
    ⟨"flash", 5, .flash⟩, ⟨"get", 1, .get⟩, ⟨"go", 2, .go⟩, ⟨"grab", 2, .get⟩,
    ⟨"install", 3, .install⟩, ⟨"inventory", 1, .inventory⟩, ⟨"sigh", 4, .sigh⟩,
    ⟨"use", 3, .use⟩, ⟨"wear", 4, .wear⟩]

/-- `0 == strncasecmp (s, t, strlen (t))`. -/
def hasPrefixCase (s t : List Char) : Bool :=
  (s.take t.length).map Char.toLower == t.map Char.toLower

/-- `player_has_board`. -/
def Game.playerHasBoard (g : Game) : Prop := g.loc .board = some .inventory

/-- `player_has_jetpack`. -/
def Game.playerHasJetpack (g : Game) : Prop := g.loc .jetpack = some .inventory

instance (g : Game) : Decidable g.playerHasBoard :=
  inferInstanceAs (Decidable (_ = _))

instance (g : Game) : Decidable g.playerHasJetpack :=
  inferInstanceAs (Decidable (_ = _))

/-- Draw with the photo and the contents of the player's room.  `prep_room` is
called for a room before anything of it is drawn. -/
def draw (f : Game → Photo → List Placed → Scroll) : GameM PUnit := do
  let r ← current
  let g ← get
  let photo ← deref (g.view r)
  let contents ← roomContents r
  modify fun g => { g with scroll := f g photo contents }

/-- `redraw_room`. -/
def redrawRoom : GameM PUnit :=
  draw fun g photo contents =>
    { g.scroll with view := Scroll.redrawRoom photo contents g.scroll.view }

/-- One of the four ways to move the photo. -/
def movePhoto (cmd : Scroll.Command) : GameM PUnit :=
  draw fun g photo contents =>
    Scroll.step photo contents g.scroll (cmd, g.xSpeed, g.ySpeed)

/-- The `switch` of `handle_typing`. -/
def typedCmd (cmd : CmdId) (arg : String) : GameM TcAction :=
  match cmd with
  | .buy => typedCmdBuy arg
  | .charge => typedCmdCharge arg
  | .do_ => typedCmdDo arg
  | .drink => typedCmdDrink arg
  | .drop => do
      let result ← typedCmdDrop arg
      modify fun g =>
        { g with
          xSpeed := if ¬ g.playerHasBoard then motionSpeed else g.xSpeed
          ySpeed := if ¬ g.playerHasJetpack then motionSpeed else g.ySpeed }
      return result
  | .fix => typedCmdFix arg
  | .flash => typedCmdFlash arg
  | .get => do
      let result ← typedCmdGet arg
      modify fun g =>
        { g with
          xSpeed := if g.playerHasBoard then motionSpeed * 3 else g.xSpeed
          ySpeed := if g.playerHasJetpack then motionSpeed * 3 else g.ySpeed }
      return result
  | .go => typedCmdGo arg
  | .install => typedCmdInstall arg
  | .inventory => typedCmdInventory
  | .sigh => typedCmdSigh
  | .use => typedCmdUse arg
  | .wear => typedCmdWear arg

/-- `handle_typing`: whether the room has changed. -/
def handleTyping (typed : String) : GameM Bool :=
  let cmd := typed.toList.dropWhile (· == ' ')
  if cmd = [] then return false
  else
    let verb := cmd.takeWhile (· != ' ')
    let arg := (cmd.dropWhile (· != ' ')).dropWhile (· == ' ')
    match cmdList.find? fun c =>
        c.minLen ≤ verb.length && hasPrefixCase c.name.toList verb with
    | none => do
        showStatus "What are you babbling about?"
        return false
    | some c => do
        let result ← typedCmd c.cmd (String.ofList arg)
        if result = .changeRoom then return true
        else if result = .redrawRoom then do
          redrawRoom
          return false
        else return false

/-- `cmd_t`; a typed command comes with what has been typed. -/
inductive Cmd where
  | none
  | right
  | left
  | up
  | down
  | moveLeft
  | enter
  | moveRight
  | typed (text : String)
  | quit

/-- `game_condition_t`, or the game goes on. -/
inductive Condition where
  | playing
  | won
  | quit
  deriving DecidableEq

/-- `enter_room = (TC_CHANGE_ROOM == …)`. -/
def tryMove (move : GameM TcAction) : GameM PUnit := do
  let action ← move
  modify fun g => { g with enterRoom := action = .changeRoom }

/-- The first part of the loop: draw a room that has just been entered. -/
def drawEntered : GameM PUnit := do
  let g ← get
  if g.enterRoom then do
    draw fun g photo contents => Scroll.enterRoom photo contents g.scroll.view
    modify fun g => { g with enterRoom := false }
  else return ⟨⟩

/-- The `switch` of `game_loop`; `quit` is taken before. -/
def doCommand (cmd : Cmd) : GameM PUnit :=
  match cmd with
  | .up => movePhoto .up
  | .right => movePhoto .right
  | .down => movePhoto .down
  | .left => movePhoto .left
  | .moveLeft => tryMove tryToMoveLeft
  | .enter => tryMove tryToEnter
  | .moveRight => tryMove tryToMoveRight
  | .typed text => do
      let changed ← handleTyping text
      if changed then modify fun g => { g with enterRoom := true }
      else return ⟨⟩
  | .none => return ⟨⟩
  | .quit => return ⟨⟩

/-- One turn of the loop. -/
def tick (cmd : Cmd) : GameM Condition := do
  drawEntered
  match cmd with
  | .quit => return .quit
  | cmd => do
      doCommand cmd
      let g ← get
      if g.whereAt = none then return .won else return .playing

/-- `game_loop` with the commands to come. -/
def gameLoop : List Cmd → GameM Condition
  | [] => return .playing
  | cmd :: cmds => do
      match ← tick cmd with
      | .playing => gameLoop cmds
      | condition => return condition

/-- `init_game` and `set_mode_X`, with whatever is in the build buffer. -/
def initGame (build : Library.Writes.Memory UInt8) (g : Game) : Game :=
  { g with
    whereAt := some .eastEvrt
    xSpeed := motionSpeed
    ySpeed := motionSpeed
    scroll := ⟨⟨build, buildBaseInit, 0, 0⟩, 0, 0⟩
    enterRoom := true }

/-! ## Turns of the loop -/

section Turns

variable {r : RoomId} {w : Option RoomId}

/-- The images of any objects can be read. -/
theorem placed_all {g : Game} (h : ∀ o, (g.img o).isSome)
    (contents : List ObjectId) : ∃ ps, contents.mapM g.placed = some ps := by
  induction contents with
  | nil => exact ⟨[], rfl⟩
  | cons o contents ih =>
      obtain ⟨ps, hRest⟩ := ih
      obtain ⟨img, hImg⟩ := Option.isSome_iff_exists.1 (h o)
      have hFirst : g.placed o = some ⟨(g.x o).toNat, (g.y o).toNat, img⟩ := by
        rw [Game.placed, hImg]
        rfl
      rw [List.mapM_cons, hFirst, hRest]
      exact ⟨_, rfl⟩

private theorem roomContents_keeps (r : RoomId) : Keeps (roomContents r) := by
  intro w
  apply state_bind
  intro g h
  obtain ⟨contents, hContents⟩ := h.built.lists
  apply Triple.deref_bind
    (walk_eq (hContents.chain r) (contents_length_le hContents r))
  obtain ⟨ps, hPlaced⟩ := placed_all h.built.img (contents r)
  apply Triple.deref hPlaced
  intro _ hs
  exact hs

/-- Drawing needs the room's photo and its contents. -/
theorem draw_at (f : Game → Photo → List Placed → Scroll) :
    Triple (At (some r)) (draw f) fun _ => At (some r) := by
  apply current_bind
  apply state_bind
  intro g h
  obtain ⟨photo, hPhoto⟩ := Option.isSome_iff_exists.1 (h.built.view r)
  apply Triple.deref_bind hPhoto
  apply (roomContents_keeps r).bind
  intro contents
  apply Triple.modify
  intro g h
  exact h.congr rfl

private theorem kept_modify {f : Game → Game} (hf : ∀ w g, At w g → At w (f g))
    {m : GameM TcAction} (h : Triple (At (some r)) m Kept) :
    Triple (At (some r)) (do let action ← m; modify f; return action) Kept := by
  apply Triple.bind h
  intro action
  apply Triple.bind (Q := fun _ => Kept action)
  · apply Triple.modify
    intro g hKept
    obtain ⟨w, hAt, hRoom⟩ := hKept
    exact ⟨w, hf w g hAt, hRoom⟩
  · intro _
    apply Triple.pure
    intro g hKept
    exact hKept

private theorem typedCmd_kept (cmd : CmdId) (arg : String) :
    Triple (At (some r)) (typedCmd cmd arg) Kept := by
  cases cmd with
  | buy => exact typedCmdBuy_kept arg
  | charge => exact typedCmdCharge_kept arg
  | do_ => exact typedCmdDo_kept arg
  | drink => exact typedCmdDrink_kept arg
  | drop =>
      apply kept_modify _ (typedCmdDrop_kept arg)
      intro w g h
      exact h.congr rfl
  | fix => exact typedCmdFix_kept arg
  | flash => exact typedCmdFlash_kept arg
  | get =>
      apply kept_modify _ (typedCmdGet_kept arg)
      intro w g h
      exact h.congr rfl
  | go => exact typedCmdGo_kept arg
  | install => exact typedCmdInstall_kept arg
  | inventory => exact typedCmdInventory_kept
  | sigh => exact typedCmdSigh_kept
  | use => exact typedCmdUse_kept arg
  | wear => exact typedCmdWear_kept arg

/-- The player is somewhere, or has won. -/
def Playing (g : Game) : Prop := ∃ w, At w g

private theorem handleTyping_playing (typed : String) :
    Triple (At (some r)) (handleTyping typed) fun _ => Playing := by
  have hDone : ∀ changed : Bool,
      Triple (At (some r)) (pure changed) fun _ => Playing := by
    intro changed
    apply Triple.pure
    intro g h
    exact ⟨some r, h⟩
  apply branch (hDone false)
  cases cmdList.find? _ with
  | none => exact (showStatus_keeps _).seq (hDone false)
  | some c =>
      apply Triple.bind (typedCmd_kept c.cmd _)
      intro result
      apply Triple.ite
      · intro _
        apply Triple.pure
        intro g h
        obtain ⟨w, hAt, _⟩ := h
        exact ⟨w, hAt⟩
      · intro hSame
        apply Triple.of_state
        intro g h
        obtain ⟨w, hAt, hRoom⟩ := h
        obtain ⟨dest, rfl⟩ := Option.isSome_iff_exists.1 (hRoom hSame)
        have hRest : Triple (At (some dest))
            (if result = .redrawRoom then do
              redrawRoom
              return false
            else return false) fun _ => Playing := by
          apply branch
          · apply Triple.bind (draw_at _)
            intro _
            apply Triple.pure
            intro g' h'
            exact ⟨_, h'⟩
          · apply Triple.pure
            intro g' h'
            exact ⟨_, h'⟩
        apply hRest.conseq
        · intro s hs
          subst hs
          exact hAt
        · intro _ _ h'
          exact h'

private theorem tryMove_playing {move : GameM TcAction}
    (h : Triple (At (some r)) move Kept) :
    Triple (At (some r)) (tryMove move) fun _ => Playing := by
  apply Triple.bind h
  intro action
  apply Triple.modify
  intro g hKept
  obtain ⟨w, hAt, _⟩ := hKept
  exact ⟨w, hAt.congr rfl⟩

theorem drawEntered_at :
    Triple (At (some r)) drawEntered fun _ => At (some r) := by
  apply state_bind
  intro g _
  apply branch
  · apply Triple.bind (draw_at _)
    intro _
    apply Triple.modify
    intro g h
    exact h.congr rfl
  · exact pure_keeps _ _

private theorem doCommand_playing (cmd : Cmd) :
    Triple (At (some r)) (doCommand cmd) fun _ => Playing := by
  have hDraw : ∀ dir, Triple (At (some r)) (movePhoto dir) fun _ => Playing := by
    intro dir
    apply (draw_at _).conseq
    · intro _ h
      exact h
    · intro _ g h
      exact ⟨_, h⟩
  have hNothing : Triple (At (some r)) (pure ⟨⟩ : GameM PUnit) fun _ => Playing := by
    apply Triple.pure
    intro g h
    exact ⟨_, h⟩
  cases cmd with
  | up => exact hDraw .up
  | right => exact hDraw .right
  | down => exact hDraw .down
  | left => exact hDraw .left
  | moveLeft => exact tryMove_playing tryToMoveLeft_kept
  | enter => exact tryMove_playing tryToEnter_kept
  | moveRight => exact tryMove_playing tryToMoveRight_kept
  | typed text =>
      apply Triple.bind (handleTyping_playing text)
      intro changed
      apply branch
      · apply Triple.modify
        intro g h
        obtain ⟨w, hAt⟩ := h
        exact ⟨w, hAt.congr rfl⟩
      · apply Triple.pure
        intro g h
        exact h
  | none => exact hNothing
  | quit => exact hNothing

/-- As long as the game goes on the player is in a room. -/
def Turned (condition : Condition) (g : Game) : Prop :=
  Playing g ∧ (condition = .playing → ∃ r, At (some r) g)

theorem tick_turned (cmd : Cmd) : Triple (At (some r)) (tick cmd) Turned := by
  have hCommand : Triple (At (some r)) (do
      doCommand cmd
      let g ← get
      if g.whereAt = none then return .won else return .playing) Turned := by
    apply Triple.bind (doCommand_playing cmd)
    intro _
    apply Triple.get_bind
    intro g h
    obtain ⟨w, hAt⟩ := h
    apply Triple.ite
    · intro _
      apply Triple.pure
      intro s hs
      subst hs
      exact ⟨⟨w, hAt⟩, fun hEq => by cases hEq⟩
    · intro hRoom
      apply Triple.pure
      intro s hs
      subst hs
      cases w with
      | none => exact absurd hAt.whereAt hRoom
      | some dest => exact ⟨⟨_, hAt⟩, fun _ => ⟨dest, hAt⟩⟩
  apply Triple.bind drawEntered_at
  intro _
  cases cmd with
  | quit =>
      apply Triple.pure
      intro g h
      exact ⟨⟨_, h⟩, fun hEq => by cases hEq⟩
  | _ => exact hCommand

/-- What every turn keeps while the game goes on, and what holds when it stops. -/
theorem gameLoop_keeps {I E : Game → Prop} (hEnd : ∀ g, I g → E g)
    (hTick : ∀ cmd, Triple I (tick cmd) fun condition g =>
      E g ∧ (condition = .playing → I g))
    (cmds : List Cmd) : Triple I (gameLoop cmds) fun _ => E := by
  induction cmds with
  | nil =>
      apply Triple.pure
      exact hEnd
  | cons cmd cmds ih =>
      apply Triple.bind (hTick cmd)
      intro condition
      cases condition with
      | playing =>
          apply ih.conseq
          · intro g hg
            exact hg.2 rfl
          · intro _ _ hE
            exact hE
      | won =>
          apply Triple.pure
          intro g hg
          exact hg.1
      | quit =>
          apply Triple.pure
          intro g hg
          exact hg.1

private theorem gameLoop_playing (cmds : List Cmd) :
    Triple (At (some r)) (gameLoop cmds) fun _ => Playing := by
  have hLoop : Triple (fun g => ∃ r, At (some r) g) (gameLoop cmds) fun _ => Playing := by
    apply gameLoop_keeps
    · intro g h
      obtain ⟨r, hAt⟩ := h
      exact ⟨_, hAt⟩
    · intro cmd g h
      obtain ⟨r, hAt⟩ := h
      exact tick_turned cmd g hAt
  intro g hAt
  exact hLoop g ⟨r, hAt⟩

end Turns

theorem initGame_at {g : Game} (h : Built g) (build : Library.Writes.Memory UInt8) :
    At (some .eastEvrt) (initGame build g) where
  built := h.congr rfl
  whereAt := rfl
  back := by simp

/-- Whatever files there are, `build_world` ends, and fails only for a file that
cannot be read.  From the world it builds, any commands lead to one where every
contents list runs through its objects and ends, and where an object is once in
the list of the room that its `loc` names and in no other. -/
theorem world_lists (readPhoto : String → Option Photo)
    (readObjImage : String → Option Image) (g : Game)
    (build : Library.Writes.Memory UInt8) (commands : List Cmd) :
    ∃ ok world, (buildWorld readPhoto readObjImage).run g = some (ok, world) ∧
      (ok = false → Unreadable readPhoto readObjImage) ∧
      (ok = true → ∃ condition g',
        (gameLoop commands).run (initGame build world) = some (condition, g') ∧
          ∃ contents : RoomId → List ObjectId,
            (∀ r, Chain g'.lists.next (g'.lists.head r) (contents r)) ∧
            ∀ o r, (contents r).count o = if g'.loc o = some r then 1 else 0) := by
  obtain ⟨ok, world, hRun, hBuilt⟩ :=
    @buildWorld_built readPhoto readObjImage g trivial
  refine ⟨ok, world, hRun, ?_, ?_⟩
  · rintro rfl
    exact hBuilt
  · rintro rfl
    obtain ⟨condition, g', hLoop, w, hAt⟩ :=
      gameLoop_playing commands (initGame build world) (initGame_at hBuilt build)
    obtain ⟨contents, hContents⟩ := hAt.built.lists
    exact ⟨condition, g', hLoop, contents, hContents.chain, hContents.count⟩

end CompE.Adventure
