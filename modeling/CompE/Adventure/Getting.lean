import CompE.Adventure.Forms

/-!
# What `get` takes

`get` takes what has been named, except at the car: as long as the battery is in
the car, whatever is named there is taken to be the battery (`typedCmdGet_iff`).
-/

namespace CompE.Adventure

open CompE.Library

/-- An object of that name is in the room, or to be had there. -/
def Obtainable (k : Plot) (src : RoomId) (arg : String) (o : ObjectId) : Prop :=
  Named o arg ∧
    (k.loc o = some src ∨ Lends k src o ∨ BatteryInCar k src ∧ o = .battEmpty)

/-- What has come into the inventory was named and obtainable; if there is no such
object, nothing has moved and the player is told. -/
structure TakesNamed (k : Plot) (src : RoomId) (arg : String) (action : TcAction)
    (g : Game) : Prop where
  named : ∀ o, g.loc o = some .inventory → k.loc o ≠ some .inventory →
    Obtainable k src arg o
  fails : (∀ o, ¬ Obtainable k src arg o) →
    g.loc = k.loc ∧ action = .allowEdit ∧ g.statusMsg = "You see no such thing here."

section Got

variable {k : Plot} {src : RoomId} {arg : String} {action : TcAction} {g : Game}
  {o o' : ObjectId}

private theorem strcasecmp_comm (s t : String) : strcasecmp s t = strcasecmp t s := by
  rw [strcasecmp, strcasecmp, Bool.beq_comm]

theorem Lends.named (h : Lends k src o) (hName : strcasecmp "book" arg = true) :
    Named o arg := by
  rw [Named, strcasecmp_comm]
  cases h.2 with
  | inl hC =>
      rw [hC.2.2]
      exact hName
  | inr hWode =>
      rw [hWode.2.2]
      exact hName

/-- The player has taken the one object, which was obtainable. -/
theorem takesNamed_one (hPlot : g.plot = k.move o (some .inventory))
    (h : Obtainable k src arg o) : TakesNamed k src arg action g := by
  constructor
  · intro o' hCarried hNew
    have hLoc : (k.move o (some .inventory)).loc o' = some .inventory := by
      rw [← hPlot]
      exact hCarried
    rw [Plot.loc_move] at hLoc
    by_cases hThis : o' = o
    · rw [hThis]
      exact h
    · rw [if_neg hThis] at hLoc
      exact absurd hLoc hNew
  · intro hNone
    exact absurd h (hNone o)

/-- Nothing has moved. -/
theorem not_new (hPlot : g.plot = k) (hCarried : g.loc o = some .inventory)
    (hNew : k.loc o ≠ some .inventory) : False := by
  apply hNew
  rw [← hPlot]
  exact hCarried

/-- The empty battery that comes out of the car was not carried. -/
theorem Forms.battEmpty_out (h : Forms k) (hCar : BatteryInCar k src) :
    ¬ k.InPlay .battEmpty := by
  intro hEmpty
  have hIn : k.InPlay .battCar := by
    rw [Plot.InPlay, hCar.2]
    exact Option.some_ne_none _
  have hSame := h.battery .battEmpty (by decide) .battCar (by decide) hEmpty hIn
  exact absurd hSame (by decide)

theorem Got.takesNamed (h : Got k src arg action g)
    (hName : BatteryInCar k src → Named .battEmpty arg) :
    TakesNamed k src arg action g := by
  cases h with
  | book hBook hLends hPlot =>
      exact takesNamed_one hPlot ⟨hLends.named hBook, Or.inr (Or.inl hLends)⟩
  | battery hCar hPlot =>
      have hGiven : Obtainable k src arg .battEmpty :=
        ⟨hName hCar, Or.inr (Or.inr ⟨hCar, rfl⟩)⟩
      constructor
      · intro o hCarried hNew
        have hLoc : ((k.move .battCar none).move .battEmpty (some .inventory)).loc o =
            some .inventory := by
          rw [← hPlot]
          exact hCarried
        rw [Plot.loc_move, Plot.loc_move] at hLoc
        split at hLoc
        · next hThis =>
            rw [hThis]
            exact hGiven
        · split at hLoc
          · exact nomatch hLoc
          · exact absurd hLoc hNew
      · intro hNone
        exact absurd hGiven (hNone _)
  | found hThere hFound hCar hPlot =>
      exact takesNamed_one hPlot ⟨hFound, Or.inl hThere⟩
  | tux hThere hTux hCar hPlot =>
      constructor
      · intro o hCarried hNew
        exact (not_new hPlot hCarried hNew).elim
      · intro hNone
        exact absurd ⟨hTux, Or.inl hThere⟩ (hNone .tux)
  | nothing hNone hBook hCar hPlot hStatus =>
      constructor
      · intro o hCarried hNew
        exact (not_new hPlot hCarried hNew).elim
      · intro _
        refine ⟨?_, rfl, hStatus⟩
        rw [← hPlot]
        rfl

/-- At the car the empty battery is taken, whatever its name. -/
theorem Got.battery_named (hForms : Forms k) (h : Got k src arg action g)
    (hTakes : TakesNamed k src arg action g) (hCar : BatteryInCar k src) :
    Named .battEmpty arg := by
  cases h with
  | book hBook hLends hPlot =>
      have hSite : RoomId.reserve = .carSite := hLends.1.symm.trans hCar.1
      exact nomatch hSite
  | battery _ hPlot =>
      have hCarried : g.loc .battEmpty = some .inventory := by
        change g.plot.loc .battEmpty = _
        rw [hPlot, Plot.loc_move, if_pos rfl]
      have hNew : k.loc .battEmpty ≠ some .inventory := by
        intro hOld
        apply hForms.battEmpty_out hCar
        rw [Plot.InPlay, hOld]
        exact Option.some_ne_none _
      exact (hTakes.named .battEmpty hCarried hNew).1
  | found hThere hFound hNot hPlot => exact absurd hCar hNot
  | tux hThere hTux hNot hPlot => exact absurd hCar hNot
  | nothing hNone hBook hNot hPlot hStatus => exact absurd hCar hNot

theorem Got.takesNamed_iff (hForms : Forms k) (h : Got k src arg action g) :
    TakesNamed k src arg action g ↔
      ¬ (BatteryInCar k src ∧ ¬ Named .battEmpty arg) := by
  rw [not_and_not_right]
  exact ⟨h.battery_named hForms, h.takesNamed⟩

end Got

/-- `get` ends, and takes what was named but for the battery. -/
theorem typedCmdGet_takesNamed {r : RoomId} {g : Game} (h : GoodAt r g) (arg : String) :
    ∃ src action g', g.plot.StandsIn r src ∧
      (typedCmdGet arg).run g = some (action, g') ∧
      (TakesNamed g.plot src arg action g' ↔
        ¬ (BatteryInCar g.plot src ∧ ¬ Named .battEmpty arg)) := by
  have hKept : Triple (With (some r) g.plot) (typedCmdGet arg) Kept := by
    apply (typedCmdGet_kept arg).conseq
    · intro s hs
      exact hs.1
    · intro _ _ hKept
      exact hKept
  obtain ⟨action, g', hRun, _, src, hSrc, hGot⟩ :=
    hKept.and (typedCmdGet_got arg) g ⟨h.1, rfl⟩
  exact ⟨src, action, g', hSrc, hRun, hGot.takesNamed_iff h.2.forms⟩

/-- Whatever commands have been given in a world that has been built, `get` takes
what is named if and only if it is not something else that is named at the car
with the battery in it. -/
theorem typedCmdGet_iff (readPhoto : String → Option Photo)
    (readObjImage : String → Option Image) (g : Game)
    (build : Library.Writes.Memory UInt8) (commands : List Cmd) :
    ∃ ok world, (buildWorld readPhoto readObjImage).run g = some (ok, world) ∧
      (ok = false → Unreadable readPhoto readObjImage) ∧
      (ok = true → ∃ condition g₁,
        (gameLoop commands).run (initGame build world) = some (condition, g₁) ∧
          ∀ r, g₁.whereAt = some r → ∀ arg, ∃ src action g₂,
            g₁.plot.StandsIn r src ∧
            (typedCmdGet arg).run g₁ = some (action, g₂) ∧
            (TakesNamed g₁.plot src arg action g₂ ↔
              ¬ (BatteryInCar g₁.plot src ∧ ¬ Named .battEmpty arg))) := by
  obtain ⟨ok, world, hRun, hFail, hGood⟩ :=
    buildWorld_good readPhoto readObjImage g build
  refine ⟨ok, world, hRun, hFail, ?_⟩
  intro hOk
  obtain ⟨condition, g₁, hLoop, ⟨w, hAt⟩, hEnd⟩ := gameLoop_good commands _ (hGood hOk)
  refine ⟨condition, g₁, hLoop, ?_⟩
  intro r hThere arg
  obtain rfl : w = some r := hAt.whereAt.symm.trans hThere
  exact typedCmdGet_takesNamed ⟨hAt, hEnd⟩ arg

/-! ## The way to the car -/

/-- The way that a command takes out of a room. -/
def wayOf (cmd : Cmd) (r : RoomId) : Option RoomId :=
  match cmd with
  | .moveLeft => (roomData r).left
  | .enter => (roomData r).enter
  | .moveRight => (roomData r).right
  | _ => none

/-- Where the ways lead that commands take one after the other. -/
def route (r : RoomId) : List Cmd → Option RoomId
  | [] => some r
  | cmd :: cmds => (wayOf cmd r).bind fun dest => route dest cmds

section Walk

variable {k k' : Plot} {r dest : RoomId} {cmd : Cmd} {cmds : List Cmd}
  {Q : Condition → Game → Prop}

private theorem moveInto_does (dest : RoomId) : Does (moveInto dest) (·.go (some dest)) := by
  intro k
  apply (setWhere_does (some dest)).seq
  apply (choosePicture_does dest).seq
  exact does_pure _ _

/-- The room has a way of the kind, and it is taken. -/
theorem tryMove_goes {move : RoomId → Game → GameM TcAction}
    (hRoom : k.whereAt = some r)
    (hWay : ∀ g, g.plot = k → move r g = moveInto dest) :
    Yields (fun g => g.plot = k)
      (tryMove do
        let r ← current
        let g ← get
        move r g) fun _ g => g.plot = k.go (some dest) := by
  apply Yields.bind (Q := fun _ g => g.plot = k.go (some dest))
  · apply readsRoom
    intro r' hThere
    obtain rfl := Option.some.inj (hRoom.symm.trans hThere)
    apply reads
    intro g hPlot
    rw [hWay g hPlot]
    exact moveInto_does dest k
  · intro action
    apply Yields.modify
    intro g hPlot
    exact hPlot

private theorem doCommand_goes (hWays : k.WaysOf r) (hRoom : k.whereAt = some r)
    (hWay : wayOf cmd r = some dest) :
    Yields (fun g => g.plot = k) (doCommand cmd) fun _ g =>
      g.plot = k.go (some dest) := by
  obtain ⟨hLeft, hEnter, hRight⟩ := hWays
  cases cmd with
  | moveLeft =>
      apply tryMove_goes hRoom
      intro g hPlot
      have hThis : g.left r = some dest := by
        change g.plot.left r = _
        rw [hPlot, hLeft]
        exact hWay
      rw [hThis]
  | enter =>
      apply tryMove_goes hRoom
      intro g hPlot
      have hThis : g.enter r = some dest := by
        change g.plot.enter r = _
        rw [hPlot, hEnter]
        exact hWay
      rw [hThis]
  | moveRight =>
      apply tryMove_goes hRoom
      intro g hPlot
      have hThis : g.right r = some dest := by
        change g.plot.right r = _
        rw [hPlot, hRight]
        exact hWay
      rw [hThis]
  | _ => exact nomatch hWay

/-- A turn of the loop that leaves the player in a room, with what its command
does to the plot. -/
theorem tick_plays (hNot : cmd ≠ .quit) (hRoom : k'.whereAt = some dest)
    (h : Yields (With (some r) k) (doCommand cmd) fun _ g => g.plot = k') :
    Triple (With (some r) k) (tick cmd) fun condition g =>
      condition = .playing ∧ With (some dest) k' g := by
  have hIn : ∀ g : Game, g.plot = k' → g.whereAt = some dest := by
    intro g hPlot
    change g.plot.whereAt = _
    rw [hPlot]
    exact hRoom
  have hTurn : Yields (With (some r) k) (tick cmd) fun condition g =>
      condition = .playing ∧ g.plot = k' := by
    apply tick_yields (R := With (some r) k)
    · apply (drawEntered_at.yields.and (drawEntered_does k)).conseq
      · intro g hg
        exact hg
      · intro _ g hg
        exact hg
    · intro hQuit
      exact absurd hQuit hNot
    · apply h.conseq
      · intro g hg
        exact hg
      · intro _ g hPlot
        rw [if_neg (by rw [hIn g hPlot]; exact Option.some_ne_none dest)]
        exact ⟨rfl, hPlot⟩
  have hEnd : Triple (With (some r) k) (tick cmd) Turned := by
    apply (tick_turned cmd).conseq
    · intro g hg
      exact hg.1
    · intro _ _ hTurned
      exact hTurned
  apply (hEnd.and hTurn).conseq
  · intro g hg
    exact hg
  · intro condition g hg
    obtain ⟨⟨⟨w, hAt⟩, _⟩, hPlaying, hPlot⟩ := hg
    obtain rfl : w = some dest := hAt.whereAt.symm.trans (hIn g hPlot)
    exact ⟨hPlaying, hAt, hPlot⟩

private theorem gameLoop_cons {P R : Game → Prop}
    (h : Triple P (tick cmd) fun condition g => condition = .playing ∧ R g)
    (hRest : Triple R (gameLoop cmds) Q) : Triple P (gameLoop (cmd :: cmds)) Q := by
  apply Triple.bind h
  intro condition
  apply Triple.of_state
  intro g hg
  obtain ⟨rfl, hR⟩ := hg
  apply hRest.conseq
  · intro s hs
    rw [hs]
    exact hR
  · intro _ _ hQ
    exact hQ

/-- Commands that follow the ways of the map lead where the ways lead. -/
theorem gameLoop_route (hWays : ∀ r, k.WaysOf r) {rest : List Cmd}
    (hRest : Triple (With (some dest) (k.go (some dest))) (gameLoop rest) Q)
    (hRoute : route r cmds = some dest) :
    Triple (With (some r) (k.go (some r))) (gameLoop (cmds ++ rest)) Q := by
  induction cmds generalizing r with
  | nil =>
      cases hRoute
      exact hRest
  | cons cmd cmds ih =>
      obtain ⟨next, hWay, hOn⟩ := Option.bind_eq_some_iff.mp hRoute
      apply gameLoop_cons (R := With (some next) (k.go (some next))) _ (ih hOn)
      apply tick_plays _ rfl
      · apply with_plot
        exact doCommand_goes (k := k.go (some r)) (hWays r) rfl hWay
      · rintro rfl
        exact nomatch hWay

/-- The key is taken where it lies. -/
theorem typedCmdGet_key (hKey : k.loc .carKey = some .caribou) :
    Yields (With (some .caribou) k) (typedCmdGet "key") fun _ g =>
      g.plot = k.move .carKey (some .inventory) := by
  have hNames : ∀ o, Named o "key" → o = .carKey := by decide
  apply (typedCmdGet_got "key").conseq
  · intro g hg
    exact hg
  · intro action g hg
    obtain ⟨src, hSrc, hGot⟩ := hg
    obtain rfl : RoomId.caribou = src := Option.some.inj hSrc
    cases hGot with
    | book hBook hLends hPlot => exact absurd hBook (by decide)
    | battery hCar hPlot => exact nomatch hCar.1
    | found hThere hName hCar hPlot => rw [hPlot, hNames _ hName]
    | tux hThere hName hCar hPlot => exact nomatch hNames _ hName
    | nothing hNone hBook hCar hPlot hStatus =>
        exact absurd (by decide : Named .carKey "key") (hNone .carKey hKey)

/-- Taking the key makes nobody fast. -/
theorem get_key (hKey : k.loc .carKey = some .caribou)
    (hSlow : ∀ o, k.loc o ≠ some .inventory) :
    Yields (With (some .caribou) k) (typedCmd .get "key") fun _ g =>
      g.plot = k.move .carKey (some .inventory) := by
  apply Yields.bind (typedCmdGet_key hKey)
  intro action
  apply Yields.bind (Q := fun _ g => g.plot = k.move .carKey (some .inventory))
  · apply Yields.modify
    intro g hPlot
    have hOther : ∀ o, o ≠ .carKey → ¬ g.loc o = some .inventory := by
      intro o hNe
      change ¬ g.plot.loc o = _
      rw [hPlot, Plot.loc_move, if_neg hNe]
      exact hSlow o
    have hSlowX : ¬ g.playerHasBoard := hOther .board (by decide)
    have hSlowY : ¬ g.playerHasJetpack := hOther .jetpack (by decide)
    rw [if_neg hSlowX, if_neg hSlowY]
    exact hPlot
  · intro _
    exact does_pure _ _

/-- The key opens the car. -/
theorem use_car (hRoom : k.whereAt = some .carSite) (hIdle : k.Idle)
    (hKey : k.loc .carKey = some .inventory) :
    Yields (fun g => g.plot = k) (typedCmdUse "car") fun _ g =>
      g.plot = ((k.move .carKey none).move .battCar (some .carSite)).setFlag .carOpen := by
  apply readsRoom
  intro r hThere
  obtain rfl := Option.some.inj (hRoom.symm.trans hThere)
  apply reads
  intro g hPlot
  subst hPlot
  have hName : strcasecmp "car" "car" = true := by decide
  have hFixed : ¬ g.playerFlagIsSet .carFixed := fun h =>
    nomatch (hIdle .carFixed).symm.trans h
  have hOpen : ¬ g.playerFlagIsSet .carOpen := fun h =>
    nomatch (hIdle .carOpen).symm.trans h
  have hHave : ¬ g.loc .carKey ≠ some .inventory := not_not.mpr hKey
  rw [if_pos hName, if_neg (by decide), if_neg (by decide),
    if_neg (not_not.mpr rfl), if_neg hFixed, if_neg hOpen, if_neg hHave]
  apply (doPhotoSwap_does _ _).seq
  apply (removeObject_does .carKey).seq
  apply (insertObjectAt_does .battCar .carSite _ _).seq
  apply (playerSetFlag_does .carOpen).seq
  apply (showStatus_does _).seq
  exact does_pure _ _

/-- After a typed command only the screen is left to do. -/
theorem typed_plot {P : Game → Prop} {text : String} {m : GameM TcAction}
    (hText : handleTyping text = do
      let result ← m
      if result = .changeRoom then return true
      else if result = .redrawRoom then do
        redrawRoom
        return false
      else return false)
    (h : Yields P m fun _ g => g.plot = k) :
    Yields P (doCommand (.typed text)) fun _ g => g.plot = k := by
  have hTyped : Yields P (handleTyping text) fun _ g => g.plot = k := by
    rw [hText]
    apply Yields.bind h
    intro result
    apply Yields.ite
    · intro _
      exact does_pure true k
    intro _
    apply Yields.ite
    · intro _
      apply (draw_does _).seq
      exact does_pure false k
    · intro _
      exact does_pure false k
  apply Yields.bind hTyped
  intro changed
  apply Yields.ite
  · intro _
    apply Yields.modify
    intro g hPlot
    exact hPlot
  · intro _
    exact does_pure _ k

end Walk

/-- From Everitt to the key. -/
def toKey : List Cmd :=
  [.moveRight, .moveRight, .moveRight, .enter, .moveRight, .moveRight, .enter]

/-- From there to the car. -/
def toCar : List Cmd :=
  [.enter, .moveRight, .moveRight, .enter, .moveRight, .moveLeft, .moveRight,
    .moveLeft, .enter, .enter]

/-- The car is opened with the key. -/
def openCar : List Cmd :=
  toKey ++ .typed "get key" :: (toCar ++ [.typed "use car"])

private theorem openCar_batteryInCar {k : Plot} (h : Opening k) :
    Triple (With (some .eastEvrt) (k.go (some .eastEvrt))) (gameLoop openCar)
      fun _ g => g.whereAt = some .carSite ∧ BatteryInCar g.plot .carSite := by
  let kKey := k.move .carKey (some .inventory)
  let kOpen := ((kKey.move .carKey none).move .battCar (some .carSite)).setFlag .carOpen
  have hKey : kKey.loc .carKey = some .inventory := by
    rw [Plot.loc_move, if_pos rfl]
  have hBattery : kOpen.loc .battCar = some .carSite := by
    change ((kKey.move .carKey none).move .battCar (some .carSite)).loc .battCar = _
    rw [Plot.loc_move, if_pos rfl]
  apply gameLoop_route h.ways _ (by rfl : route .eastEvrt toKey = some .caribou)
  apply gameLoop_cons (R := With (some .caribou) (kKey.go (some .caribou)))
  · apply tick_plays (by exact Cmd.noConfusion) rfl
    apply typed_plot rfl
    exact get_key (h.loc .carKey) h.not_carried
  apply gameLoop_route (k := kKey) h.ways _
    (by rfl : route .caribou toCar = some .carSite)
  apply gameLoop_cons (R := With (some .carSite) (kOpen.go (some .carSite)))
  · apply tick_plays (by exact Cmd.noConfusion) rfl
    apply typed_plot rfl
    apply with_plot
    exact use_car (k := kKey.go (some .carSite)) rfl h.idle hKey
  apply Triple.pure
  intro g hg
  refine ⟨hg.1.whereAt, rfl, ?_⟩
  rw [hg.2]
  exact hBattery

/-- The variables of the game before `build_world`. -/
def blank : Game where
  view := fun _ => none
  left := fun _ => none
  enter := fun _ => none
  right := fun _ => none
  lists := ⟨fun _ => none, fun _ => none, fun _ => none⟩
  x := fun _ => 0
  y := fun _ => 0
  img := fun _ => none
  playerFlags := fun _ => false
  swapPhoto := fun _ => none
  rand := fun _ => 0
  statusMsg := ""
  whereAt := none
  xSpeed := 0
  ySpeed := 0
  scroll := ⟨⟨fun _ => 0, 0, 0, 0⟩, 0, 0⟩
  enterRoom := false

/-- At the open car, `get xyz` takes the empty battery. -/
theorem get_xyz_takesBattery :
    ∃ world condition g₁ action g₂,
      (buildWorld (fun _ => some ⟨400, 300, fun _ => 0⟩)
        fun _ => some ⟨10, 10, fun _ => 0⟩).run blank = some (true, world) ∧
      (gameLoop openCar).run (initGame (fun _ => 0) world) = some (condition, g₁) ∧
      g₁.whereAt = some .carSite ∧
      (typedCmdGet "xyz").run g₁ = some (action, g₂) ∧
      ¬ TakesNamed g₁.plot .carSite "xyz" action g₂ := by
  obtain ⟨ok, world, hRun, hFail, hGood⟩ :=
    buildWorld_good (fun _ => some ⟨400, 300, fun _ => 0⟩)
      (fun _ => some ⟨10, 10, fun _ => 0⟩) blank fun _ => 0
  have hOk : ok = true := by
    cases ok with
    | true => rfl
    | false =>
        obtain ⟨_, hNone⟩ := hFail rfl
        simp at hNone
  subst hOk
  have hOpening : Opening world.plot :=
    buildWorld_opening.ends blank true world trivial hRun rfl
  have hStart := hGood rfl
  obtain ⟨condition, g₁, hLoop, hThere, hCar⟩ :=
    openCar_batteryInCar (initGame_opening hOpening _) _ ⟨hStart.1, rfl⟩
  obtain ⟨⟨w, hAt⟩, hEnd⟩ :=
    (gameLoop_good openCar).yields.ends _ condition g₁ hStart hLoop
  obtain rfl : w = some .carSite := hAt.whereAt.symm.trans hThere
  obtain ⟨src, action, g₂, hSrc, hGet, hTakes⟩ :=
    typedCmdGet_takesNamed ⟨hAt, hEnd⟩ "xyz"
  obtain rfl : RoomId.carSite = src := Option.some.inj hSrc
  refine ⟨world, condition, g₁, action, g₂, hRun, hLoop, hThere, hGet, ?_⟩
  intro hNamed
  exact hTakes.mp hNamed ⟨hCar, by decide⟩

end CompE.Adventure
