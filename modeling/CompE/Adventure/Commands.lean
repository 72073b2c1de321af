import CompE.Adventure.BuildWorld

/-!
# The commands of the game

The moves between rooms and the typed commands of `world.c`.  Each reads and
may change the player's place (`*rptr`) and says what is left to do with the
typed text and the screen.
-/

namespace CompE.Adventure

open CompE.Library

/-- `tc_action_t`. -/
inductive TcAction where
  | allowEdit
  | discardText
  | redrawRoom
  | changeRoom
  deriving DecidableEq

/-- `r = *rptr`, a room that is going to be used. -/
def current : GameM RoomId := do
  let g ← get
  deref g.whereAt

/-- `*rptr = r`. -/
def setWhere (r : Option RoomId) : GameM PUnit :=
  modify fun g => { g with whereAt := r }

/-- `show_status (s); return action;` -/
def say (s : String) (action : TcAction) : GameM TcAction := do
  showStatus s
  return action

/-- The object is in the inventory or in the room. -/
def Game.isHere (g : Game) (o : ObjectId) (r : RoomId) : Prop :=
  g.loc o = some .inventory ∨ g.loc o = some r

instance (g : Game) (o : ObjectId) (r : RoomId) : Decidable (g.isHere o r) :=
  inferInstanceAs (Decidable (_ ∨ _))

/-! ## Moves -/

/-- The Boneyard Circle has its picture chosen at random. -/
def choosePicture (r : RoomId) : GameM PUnit :=
  if r = .circleN then do
    let n ← rand
    if n % 2 = 0 then doPhotoSwap r .circle else return ⟨⟩
  else return ⟨⟩

/-- `*rptr = r` for a room that is entered through one of the three ways. -/
def moveInto (r : RoomId) : GameM TcAction := do
  setWhere (some r)
  choosePicture r
  return .changeRoom

/-- `try_to_move_left` and `try_to_move_right` differ in the way they take. -/
def tryToMove (way : Game → RoomId → Option RoomId) : GameM TcAction := do
  let r ← current
  let g ← get
  match way g r with
  | some dest => moveInto dest
  | none =>
      if r = .inventory then say "Push 'home' or type 'inventory'." .allowEdit
      else say "You can't go that way." .allowEdit

/-- `try_to_move_left`. -/
def tryToMoveLeft : GameM TcAction := tryToMove Game.left

/-- `try_to_move_right`. -/
def tryToMoveRight : GameM TcAction := tryToMove Game.right

def advice : List String :=
  ["Kevin says, \"Andres' board is FAST!\"", "Kevin asks, \"Got a jetpack?\"",
    "Kevin: \"You can flash hardware in 395.\"",
    "Kevin suggests, \"Always carry a fish.\"",
    "Kevin asks, \"Have you done your MP2?\"",
    "Kevin says, \"Cocomero sells yogurt.\"",
    "Kevin asks, \"Maybe you need a Dew?\"",
    "Kevin: \"A magnet can charge a battery.\""]

/-- A room that opens under a condition. -/
def goTo (r : RoomId) : GameM TcAction := do
  setWhere (some r)
  return .changeRoom

/-- `try_to_enter`. -/
def tryToEnter : GameM TcAction := do
  let r ← current
  let g ← get
  match g.enter r with
  | some dest => moveInto dest
  | none =>
      if r = .byCleanr then
        if g.playerFlagIsSet .wearingSuit then goTo .inCleanr
        else say "You're not wearing a bunnysuit!" .allowEdit
      else if r = .by395lab then
        if g.loc .icard = some .inventory then do
          showStatus "You swiped your Icard."
          goTo .in395lab
        else say "You need a valid Icard." .allowEdit
      else if r = .cslDoor then
        if g.loc .icard = some .inventory then do
          showStatus "You swiped your Icard."
          goTo .cslLobby
        else say "You need a valid Icard." .allowEdit
      else if r = .beckDoor then
        if g.loc .robotLive = some .inventory then do
          showStatus "The robot hand picked the lock!"
          goTo .becklobby
        else if g.loc .robotDead = some .inventory then
          say "Flash the robot's code again." .allowEdit
        else say "Complex lock!  Find a nanotech robot." .allowEdit
      else if r = .mntlLab1 then do
        let n ← rand
        say (advice.getD (n % 8) "") .allowEdit
      else if r = .cockpit then
        say "A MIMO transmitter card is missing!" .allowEdit
      else say "You can't go that way." .allowEdit

/-! ## Typed commands -/

section TypedCommands

variable (arg : String)

/-- `typed_cmd_buy`. -/
def typedCmdBuy : GameM TcAction := do
  let r ← current
  let g ← get
  if strcasecmp "dew" arg then
    if r ≠ .evrtVend then say "Great idea!  But ... where?" .discardText
    else if g.isHere .mtnDew r then
      say "Slow down!  One at a time..." .discardText
    else do
      showStatus (if g.loc .mtnDew ≠ none then
        "Last one get stolen?  Ok...here we go..." else "You buy a Dew.")
      moveObjectToInventory .mtnDew
      return .redrawRoom
  else if strcasecmp "yogurt" arg then
    if r ≠ .inCocomr then say "Cocomero doesn't deliver here." .discardText
    else if g.playerFlagIsSet .hasEaten then
      say "You're not hungry." .discardText
    else do
      playerSetFlag .hasEaten
      say "So tasty and delicious!" .discardText
  else say "Sorry, purchasing options are limited." .allowEdit

/-- `typed_cmd_charge`. -/
def typedCmdCharge : GameM TcAction := do
  let r ← current
  let g ← get
  if ¬ strcasecmp "battery" arg then
    say "Electronic devices aren't (always) toys!" .allowEdit
  else if ¬ g.isHere .battEmpty r ∧ ¬ g.isHere .battFull r then
    say "What battery?" .discardText
  else if r ≠ .beckMri then say "Find a bigger magnet." .discardText
  else if g.isHere .battFull r then say "Don't overdo it." .discardText
  else do
    removeObject .battEmpty
    moveObjectToInventory .battFull
    say "Wow!  That's a strong magnet!" .redrawRoom

/-- `typed_cmd_do`; outside every room the player has won. -/
def typedCmdDo : GameM TcAction := do
  let r ← current
  let g ← get
  if r ≠ .in391lab then say "You can't 'do' anything here." .allowEdit
  else if ¬ strcasecmp "391" arg ∧ ¬ strcasecmp "mp2" arg then
    say "Doing the 391 MP2 is more important!" .allowEdit
  else if g.loc .bookC ≠ some .inventory then
    say "You'd better get a book from Grainger." .discardText
  else if g.loc .mp2 ≠ some .inventory then
    say "Web's down.  Bring your own MP2." .discardText
  else if g.loc .tux ≠ some .in391lab then
    say "You'd have better luck if Tux were here." .discardText
  else do
    setWhere none
    return .changeRoom

/-- `typed_cmd_drink`. -/
def typedCmdDrink : GameM TcAction := do
  let r ← current
  let g ← get
  if ¬ strcasecmp "dew" arg then
    say "That sounds less refreshing than Dew." .allowEdit
  else if ¬ g.isHere .mtnDew r then
    say "Uh-oh.  Hadewcinations.  Buy one soon!" .discardText
  else do
    removeObject .mtnDew
    say "Ahhhhhhhhhhhhhhhh...........nother?" .redrawRoom

/-- The room in which the player stands, also when looking at the inventory. -/
def standing (r : RoomId) : GameM RoomId := do
  let g ← get
  deref (if r = .inventory then g.enter .inventory else some r)

/-- The hint of `typed_cmd_drop`. -/
def hintInstall (obj : ObjectId) (r : RoomId) : GameM PUnit :=
  if obj = .battFull ∧ r = .carSite ∨ obj = .mimoCard ∧ r = .remPlane then
    showStatus "You may want to install it instead."
  else return ⟨⟩

/-- `typed_cmd_drop`. -/
def typedCmdDrop : GameM TcAction := do
  let r ← current
  match ← findInRoom .inventory arg with
  | none => say "You have no such thing." .allowEdit
  | some obj => do
      hintInstall obj r
      let dest ← standing r
      insertObject obj dest
      return .redrawRoom

/-- `typed_cmd_fix`. -/
def typedCmdFix : GameM TcAction := do
  let r ← current
  let g ← get
  if ¬ strcasecmp "gps" arg then
    say "In the game, you're not as capable." .allowEdit
  else if g.isHere .gpsGood r then say "It's working fine." .discardText
  else if ¬ g.isHere .gpsBad r then say "Do you have a GPS?" .discardText
  else if r ≠ .inCleanr then
    say "You'd better go to the cleanroom." .discardText
  else if ¬ g.isHere .gpsSpec r then
    say "Maybe you'd better get a spec?" .discardText
  else do
    removeObject .gpsBad
    removeObject .gpsSpec
    moveObjectToInventory .gpsGood
    say "All done--wow, you're good!" .changeRoom

/-- `typed_cmd_flash`. -/
def typedCmdFlash : GameM TcAction := do
  let r ← current
  let g ← get
  if ¬ strcasecmp "robot" arg then say "Don't waste your time." .allowEdit
  else if ¬ g.isHere .robotDead r ∧ ¬ g.isHere .robotLive r then
    say "Maybe get the robot first?" .discardText
  else if r ≠ .in395lab then
    say "With spit and a lemon?  Try the lab." .discardText
  else if g.isHere .robotLive r then
    say "You flash the robot's ROM again." .discardText
  else do
    removeObject .robotDead
    moveObjectToInventory .robotLive
    say "You flash it with a lockpicking code." .redrawRoom

/-- `obj_special_get`. -/
def objSpecialGet (r : RoomId) : GameM (Option ObjectId) := do
  let g ← get
  if (r = .reserve ∧ strcasecmp "book" arg) ∧ g.playerFlagIsSet .hasEaten ∧
      g.loc .bookC = none then do
    showStatus "You check out the C book."
    return some .bookC
  else if (r = .reserve ∧ strcasecmp "book" arg) ∧
      ¬ g.playerFlagIsSet .hasEaten ∧ g.loc .bookWode = none then do
    showStatus "Here's a nice Wodehouse collection."
    return some .bookWode
  else if r = .carSite ∧ g.loc .battCar = some r then do
    removeObject .battCar
    return some .battEmpty
  else return none

/-- `typed_cmd_get`. -/
def typedCmdGet : GameM TcAction := do
  let r ← current
  let src ← standing r
  let obj ←
    match ← objSpecialGet arg src with
    | some obj => pure (some obj)
    | none => findInRoom src arg
  match obj with
  | none => say "You see no such thing here." .allowEdit
  | some obj => do
      let g ← get
      if obj = .tux ∧ ¬ g.playerFlagIsSet .luredTux then
        say "Tux must choose you!  Try using a fish." .discardText
      else do
        moveObjectToInventory obj
        return .redrawRoom

/-- `typed_cmd_go`. -/
def typedCmdGo : GameM TcAction := do
  let r ← current
  let g ← get
  if strcasecmp "allerton" arg then
    if r = .allerton then say "Kazam!  You're at Allerton!" .discardText
    else if r ≠ .willard ∧ r ≠ .carSite then
      say "That's quite a hike." .discardText
    else if ¬ g.playerFlagIsSet .carFixed then
      if g.playerFlagIsSet .carOpen then say "The car isn't working." .discardText
      else say "Do you want to use that car?" .discardText
    else if g.loc .gpsGood ≠ some .inventory then
      if g.loc .gpsBad = some .inventory then
        say "That's a long road with a broken GPS." .discardText
      else say "You'll need a GPS to find that place." .discardText
    else do
      showStatus "You drive to Allerton Park."
      goTo .allerton
  else if strcasecmp "willard" arg ∨ strcasecmp "airport" arg then
    if r = .willard then say "Kazap!  You're at Willard!" .discardText
    else if r ≠ .allerton ∧ r ≠ .carSite then
      say "That's quite a hike." .discardText
    else if ¬ g.playerFlagIsSet .carFixed then
      if g.playerFlagIsSet .carOpen then say "The car isn't working." .discardText
      else say "Do you want to use that car?" .discardText
    else do
      showStatus "You drive to Willard Airport."
      goTo .willard
  else if strcasecmp "campus" arg then
    if r = .carSite then say "Kazar!  You're on campus!" .discardText
    else if r ≠ .allerton ∧ r ≠ .willard then
      say "That's quite a hike." .discardText
    else do
      showStatus "You drive back to campus."
      goTo .carSite
  else say "The game map lacks certain places." .allowEdit

/-- `typed_cmd_install`. -/
def typedCmdInstall : GameM TcAction := do
  let r ← current
  let g ← get
  if strcasecmp "battery" arg then
    if ¬ g.isHere .battEmpty r ∧ ¬ g.isHere .battFull r then
      say "What battery?" .discardText
    else if r ≠ .carSite then say "Do you see the car?" .discardText
    else if g.isHere .battEmpty r then
      say "You want to install a dead battery?" .discardText
    else do
      removeObject .battFull
      playerSetFlag .carFixed
      doPhotoSwap r .car
      say "Nice work!  Now you can use it!" .changeRoom
  else if strcasecmp "mimo" arg ∨ strcasecmp "card" arg ∨
      strcasecmp "transmitter" arg then
    if ¬ g.isHere .mimoCard r then say "Do you have one of those?" .discardText
    else if r ≠ .cockpit then say "Nothing here needs that." .discardText
    else do
      removeObject .mimoCard
      modify fun g =>
        { g with enter := Function.update g.enter .cockpit (some .overWill) }
      say "Ready for takeoff, captain!" .redrawRoom
  else say "What are you playing at?" .allowEdit

/-- `typed_cmd_inventory`. -/
def typedCmdInventory : GameM TcAction := do
  let r ← current
  let g ← get
  if r = .inventory then do
    setWhere (g.enter r)
    return .changeRoom
  else do
    modify fun g => { g with enter := Function.update g.enter .inventory (some r) }
    setWhere (some .inventory)
    return .changeRoom

/-- `typed_cmd_sigh`. -/
def typedCmdSigh : GameM TcAction := do
  let r ← current
  if r ≠ .byZas then say "MP2 got you down?  Take a break!" .discardText
  else do
    showStatus "So sad... you lose your appetite."
    playerSetFlag .hasEaten
    return .discardText

/-- `typed_cmd_use`. -/
def typedCmdUse : GameM TcAction := do
  let r ← current
  let g ← get
  if strcasecmp "car" arg then
    if r = .allerton then say "Go to campus or Willard Airport?" .discardText
    else if r = .willard then say "Go to Allerton or campus?" .discardText
    else if r ≠ .carSite then say "You have a car?" .discardText
    else if g.playerFlagIsSet .carFixed then
      say "Go to Allerton or Willard Airport?" .discardText
    else if g.playerFlagIsSet .carOpen then
      say "You'll have to charge the battery." .discardText
    else if g.loc .carKey ≠ some .inventory then
      say "Perhaps you can find a key?" .discardText
    else do
      doPhotoSwap r .car
      removeObject .carKey
      insertObjectAt .battCar r 265 122
      playerSetFlag .carOpen
      say "The key works, but the battery's dead." .changeRoom
  else if strcasecmp "fish" arg then
    if ¬ g.isHere .fish r then
      say "Using the invisible fish...no effect!" .discardText
    else if r ≠ .remLab then
      say "I don't think that's sanitary." .discardText
    else do
      removeObject .fish
      moveObjectToInventory .tux
      playerSetFlag .luredTux
      say "Tux likes you!" .redrawRoom
  else say "You want to use what!?" .allowEdit

/-- `typed_cmd_wear`. -/
def typedCmdWear : GameM TcAction := do
  let r ← current
  let g ← get
  if ¬ strcasecmp "bunnysuit" arg then
    say "Big Brother forbids fashion statements." .allowEdit
  else if ¬ g.isHere .bunnysuit r then say "Do you have a bunnysuit?" .discardText
  else do
    removeObject .bunnysuit
    playerSetFlag .wearingSuit
    say "You look good in pink!" .redrawRoom

end TypedCommands

end CompE.Adventure
