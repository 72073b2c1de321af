import CompE.Adventure.Commands

/-!
# What every command keeps

A command that is given in a room of a world that has been built ends, and
leaves such a world (`Kept`).  A function that moves objects or takes notes
leaves the player where they are as well (`Keeps`).
-/

namespace CompE.Adventure

open CompE.Library

/-- The player is there, in a world that has been built, and can come back from
a look at the inventory. -/
structure At (w : Option RoomId) (g : Game) : Prop where
  built : Built g
  whereAt : g.whereAt = w
  back : w = some .inventory → (g.enter .inventory).isSome

theorem At.congr {w : Option RoomId} {g g' : Game} (h : At w g)
    (hSame : g' = { g with
      playerFlags := g'.playerFlags, rand := g'.rand, statusMsg := g'.statusMsg
      xSpeed := g'.xSpeed, ySpeed := g'.ySpeed, scroll := g'.scroll
      enterRoom := g'.enterRoom }) : At w g' := by
  constructor
  · apply h.built.congr
    rw [hSame]
  · rw [hSame]
    exact h.whereAt
  · rw [hSame]
    exact h.back

/-- After a command; only one that changes the room may end the game. -/
def Kept (action : TcAction) (g : Game) : Prop :=
  ∃ w, At w g ∧ (action ≠ .changeRoom → w.isSome)

/-- The program ends wherever the player is, and leaves them there. -/
def Keeps {α : Type} (m : GameM α) : Prop :=
  ∀ w, Triple (At w) m fun _ => At w

section Rules

variable {α β : Type} {w : Option RoomId} {r : RoomId} {Q : α → Game → Prop}

theorem branch {P : Game → Prop} {c : Prop} [Decidable c] {m m' : GameM α}
    (h : Triple P m Q) (hElse : Triple P m' Q) :
    Triple P (if c then m else m') Q :=
  Triple.ite (fun _ => h) fun _ => hElse

theorem Keeps.bind {m : GameM β} {f : β → GameM α} (h : Keeps m)
    (hNext : ∀ b, Triple (At w) (f b) Q) : Triple (At w) (m >>= f) Q :=
  Triple.bind (h w) hNext

theorem Keeps.seq {m : GameM β} {m' : GameM α} (h : Keeps m)
    (hNext : Triple (At w) m' Q) : Triple (At w) (m >>= fun _ => m') Q :=
  h.bind fun _ => hNext

theorem current_bind {f : RoomId → GameM α} (h : Triple (At (some r)) (f r) Q) :
    Triple (At (some r)) (current >>= f) Q := by
  apply Triple.bind (Q := fun r' g => r' = r ∧ At (some r) g)
  · apply Triple.get_bind
    intro g hAt
    apply Triple.deref hAt.whereAt
    intro s hs
    subst hs
    exact ⟨rfl, hAt⟩
  · intro r'
    apply Triple.of_state
    intro g hAt
    obtain ⟨rfl, hAt⟩ := hAt
    intro s hs
    subst hs
    exact h s hAt

/-- What a command reads first was kept. -/
theorem state_bind {f : Game → GameM α}
    (h : ∀ g, At w g → Triple (At w) (f g) Q) : Triple (At w) (get >>= f) Q := by
  apply Triple.get_bind
  intro g hAt
  apply (h g hAt).conseq
  · intro s hs
    subst hs
    exact hAt
  · intro _ _ hQ
    exact hQ

end Rules

/-! ## Functions that leave the player in place -/

section Keeps

variable {g : Game} {w : Option RoomId} (o : ObjectId) (r : RoomId)

theorem At.moved {g' : Game} {loc : Option RoomId} (h : At w g)
    (hMoved : Moved o loc g g') : At w g' := by
  have hRest := hMoved.rest
  constructor
  · constructor
    · exact hMoved.lists
    · rw [hRest]
      exact h.built.view
    · rw [hRest]
      exact h.built.exits
    · rw [hRest]
      exact h.built.img
    · rw [hRest]
      exact h.built.swapPhoto
  · rw [hRest]
    exact h.whereAt
  · rw [hRest]
    exact h.back

private theorem keeps_of_moved {α : Type} {m : GameM α} {loc : Option RoomId}
    (h : ∀ g, Built g → Triple (fun s => s = g) m fun _ => Moved o loc g) :
    Keeps m := by
  intro w
  apply Triple.of_state
  intro g hAt
  apply (h g hAt.built).conseq
  · intro _ hs
    exact hs
  · intro _ g' hMoved
    exact hAt.moved o hMoved

theorem removeObject_keeps : Keeps (removeObject o) :=
  keeps_of_moved o fun _ h => removeObject_moved h.lists

private theorem insertObjectAt_keeps (x y : Int) : Keeps (insertObjectAt o r x y) :=
  keeps_of_moved o fun _ h => insertObjectAt_moved h.lists x y

private theorem insertObject_keeps : Keeps (insertObject o r) :=
  keeps_of_moved o fun _ h => insertObject_moved h.lists (h.view r) (h.img o)

private theorem moveObjectToInventory_keeps : Keeps (moveObjectToInventory o) :=
  keeps_of_moved o fun _ h =>
    moveObjectToInventory_moved h.lists (h.view .inventory) (h.img o)

/-- A change to what neither the lists nor the photos are about. -/
theorem keeps_modify {f : Game → Game} (h : ∀ w g, At w g → At w (f g)) :
    Keeps (modify f) := by
  intro w
  apply Triple.modify
  intro g hAt
  exact h w g hAt

theorem showStatus_keeps (s : String) : Keeps (showStatus s) :=
  keeps_modify fun _ _ h => h.congr rfl

private theorem playerSetFlag_keeps (fnum : Flag) : Keeps (playerSetFlag fnum) :=
  keeps_modify fun _ _ h => h.congr rfl

private theorem doPhotoSwap_keeps (which : Swap) : Keeps (doPhotoSwap r which) := by
  apply keeps_modify
  intro w g h
  constructor
  · constructor
    · exact h.built.lists
    · intro r'
      show (Function.update g.view r (g.swapPhoto which) r').isSome
      by_cases hThis : r' = r
      · rw [hThis, Function.update_self]
        exact h.built.swapPhoto which
      · rw [Function.update_of_ne hThis]
        exact h.built.view r'
    · exact h.built.exits
    · exact h.built.img
    · intro which'
      show (Function.update g.swapPhoto which (g.view r) which').isSome
      by_cases hThis : which' = which
      · rw [hThis, Function.update_self]
        exact h.built.view r
      · rw [Function.update_of_ne hThis]
        exact h.built.swapPhoto which'
  · exact h.whereAt
  · exact h.back

private theorem rand_keeps : Keeps rand := by
  intro w
  apply state_bind
  intro g h
  apply Triple.bind (Q := fun _ => At w)
  · apply Triple.set
    exact h.congr rfl
  · intro _
    apply Triple.pure
    intro _ hs
    exact hs

theorem pure_keeps {α : Type} (a : α) : Keeps (pure a : GameM α) := by
  intro w
  apply Triple.pure
  intro g h
  exact h

private theorem findInRoom_keeps (arg : String) : Keeps (findInRoom r arg) := by
  intro w
  apply state_bind
  intro g h
  obtain ⟨found, hFound⟩ := search_contents h.built.lists r _
  apply Triple.deref hFound
  intro _ hs
  exact hs

private theorem choosePicture_keeps : Keeps (choosePicture r) := by
  intro w
  apply branch
  · apply rand_keeps.bind
    intro n
    apply branch
    · exact doPhotoSwap_keeps r .circle w
    · exact pure_keeps _ w
  · exact pure_keeps _ w

theorem hintInstall_keeps : Keeps (hintInstall o r) := by
  intro w
  apply branch
  · exact showStatus_keeps _ w
  · exact pure_keeps _ w

private theorem objSpecialGet_keeps (arg : String) : Keeps (objSpecialGet arg r) := by
  intro w
  apply state_bind
  intro g h
  apply branch
  · exact (showStatus_keeps _).seq (pure_keeps _ w)
  · apply branch
    · exact (showStatus_keeps _).seq (pure_keeps _ w)
    · apply branch
      · exact (removeObject_keeps .battCar).seq (pure_keeps _ w)
      · exact pure_keeps _ w

/-- The room in which the player stands exists. -/
theorem standing_bind {α : Type} {r : RoomId} {f : RoomId → GameM α}
    {Q : α → Game → Prop} (h : ∀ dest, Triple (At (some r)) (f dest) Q) :
    Triple (At (some r)) (standing r >>= f) Q := by
  apply Triple.bind _ h
  apply state_bind
  intro g hAt
  have hDest : (if r = .inventory then g.enter .inventory else some r).isSome := by
    by_cases hThis : r = .inventory
    · rw [if_pos hThis]
      exact hAt.back (by rw [hThis])
    · rw [if_neg hThis]
      rfl
  obtain ⟨dest, hDest⟩ := Option.isSome_iff_exists.1 hDest
  apply Triple.deref hDest
  intro _ hs
  exact hs

end Keeps

/-! ## Moves and typed commands -/

section Commands

variable {r : RoomId} {w : Option RoomId} (arg : String)

private theorem done_kept (action : TcAction) :
    Triple (At (some r)) (pure action) Kept := by
  apply Triple.pure
  intro g h
  exact ⟨some r, h, fun _ => rfl⟩

private theorem say_kept (s : String) (action : TcAction) :
    Triple (At (some r)) (say s action) Kept :=
  (showStatus_keeps s).seq (done_kept action)

private theorem setWhere_at {dest : Option RoomId} (h : dest ≠ some .inventory) :
    Triple (At w) (setWhere dest) fun _ => At dest := by
  apply Triple.modify
  intro g hAt
  exact ⟨hAt.built.congr rfl, rfl, fun hEq => absurd hEq h⟩

private theorem goTo_kept {dest : RoomId} (h : dest ≠ .inventory) :
    Triple (At w) (goTo dest) Kept := by
  apply Triple.bind (setWhere_at fun hEq => h (Option.some.inj hEq))
  intro _
  exact done_kept _

/-- A place is entered with a message. -/
theorem walkIn_kept (s : String) {dest : RoomId} (h : dest ≠ .inventory) :
    Triple (At (some r)) (do showStatus s; goTo dest) Kept :=
  (showStatus_keeps s).seq (goTo_kept h)

private theorem moveInto_kept {dest : RoomId} (h : dest ≠ .inventory) :
    Triple (At w) (moveInto dest) Kept := by
  apply Triple.bind (setWhere_at fun hEq => h (Option.some.inj hEq))
  intro _
  exact (choosePicture_keeps dest).seq (done_kept _)

private theorem tryToMove_kept {way : Game → RoomId → Option RoomId}
    (hWay : ∀ g, g.ExitsSound → ∀ r, way g r ≠ some .inventory) :
    Triple (At (some r)) (tryToMove way) Kept := by
  apply current_bind
  apply state_bind
  intro g h
  cases hDest : way g r with
  | some dest =>
      apply moveInto_kept
      rintro rfl
      exact hWay g h.built.exits r hDest
  | none => exact branch (say_kept _ _) (say_kept _ _)

theorem tryToMoveLeft_kept : Triple (At (some r)) tryToMoveLeft Kept :=
  tryToMove_kept fun _ h r => (h r).1

theorem tryToMoveRight_kept : Triple (At (some r)) tryToMoveRight Kept :=
  tryToMove_kept fun _ h r => (h r).2.2

theorem tryToEnter_kept : Triple (At (some r)) tryToEnter Kept := by
  apply current_bind
  apply state_bind
  intro g h
  cases hDest : g.enter r with
  | some dest =>
      apply moveInto_kept
      rintro rfl
      exact (h.built.exits r).2.1 hDest
  | none =>
      apply branch
      · exact branch (goTo_kept (by decide)) (say_kept _ _)
      apply branch
      · exact branch (walkIn_kept _ (by decide)) (say_kept _ _)
      apply branch
      · exact branch (walkIn_kept _ (by decide)) (say_kept _ _)
      apply branch
      · apply branch
        · exact walkIn_kept _ (by decide)
        · exact branch (say_kept _ _) (say_kept _ _)
      apply branch
      · exact rand_keeps.bind fun n => say_kept _ _
      exact branch (say_kept _ _) (say_kept _ _)

theorem typedCmdBuy_kept : Triple (At (some r)) (typedCmdBuy arg) Kept := by
  apply current_bind
  apply state_bind
  intro g _
  apply_rules [branch, say_kept]
  · apply (showStatus_keeps _).seq
    apply (moveObjectToInventory_keeps _).seq
    exact done_kept _
  · apply (playerSetFlag_keeps _).seq
    exact say_kept _ _

theorem typedCmdCharge_kept : Triple (At (some r)) (typedCmdCharge arg) Kept := by
  apply current_bind
  apply state_bind
  intro g _
  apply_rules [branch, say_kept]
  apply (removeObject_keeps _).seq
  apply (moveObjectToInventory_keeps _).seq
  exact say_kept _ _

theorem typedCmdDo_kept : Triple (At (some r)) (typedCmdDo arg) Kept := by
  apply current_bind
  apply state_bind
  intro g _
  apply branch (say_kept _ _)
  apply branch (say_kept _ _)
  apply branch (say_kept _ _)
  apply branch (say_kept _ _)
  apply branch (say_kept _ _)
  apply Triple.bind (setWhere_at (by decide))
  intro _
  apply Triple.pure
  intro g h
  exact ⟨none, h, fun hEq => absurd rfl hEq⟩

theorem typedCmdDrink_kept : Triple (At (some r)) (typedCmdDrink arg) Kept := by
  apply current_bind
  apply state_bind
  intro g _
  apply_rules [branch, say_kept]
  apply (removeObject_keeps _).seq
  exact say_kept _ _

theorem typedCmdDrop_kept : Triple (At (some r)) (typedCmdDrop arg) Kept := by
  apply current_bind
  apply (findInRoom_keeps .inventory arg).bind
  intro obj
  cases obj with
  | none => exact say_kept _ _
  | some obj =>
      apply (hintInstall_keeps obj r).seq
      apply standing_bind
      intro dest
      apply (insertObject_keeps obj dest).seq
      exact done_kept _

theorem typedCmdFix_kept : Triple (At (some r)) (typedCmdFix arg) Kept := by
  apply current_bind
  apply state_bind
  intro g _
  apply_rules [branch, say_kept]
  apply (removeObject_keeps _).seq
  apply (removeObject_keeps _).seq
  apply (moveObjectToInventory_keeps _).seq
  exact say_kept _ _

theorem typedCmdFlash_kept : Triple (At (some r)) (typedCmdFlash arg) Kept := by
  apply current_bind
  apply state_bind
  intro g _
  apply_rules [branch, say_kept]
  apply (removeObject_keeps _).seq
  apply (moveObjectToInventory_keeps _).seq
  exact say_kept _ _

theorem typedCmdGet_kept : Triple (At (some r)) (typedCmdGet arg) Kept := by
  apply current_bind
  apply standing_bind
  intro src
  apply (objSpecialGet_keeps src arg).bind
  intro special
  have hMove : ∀ obj : ObjectId, Triple (At (some r))
      (do
        let g ← get
        if obj = .tux ∧ ¬ g.playerFlagIsSet .luredTux then
          say "Tux must choose you!  Try using a fish." .discardText
        else do
          moveObjectToInventory obj
          return .redrawRoom) Kept := by
    intro obj
    apply state_bind
    intro g _
    apply branch (say_kept _ _)
    apply (moveObjectToInventory_keeps obj).seq
    exact done_kept _
  cases special with
  | some obj =>
      apply (pure_keeps (some obj)).bind
      intro found
      cases found with
      | none => exact say_kept _ _
      | some obj => exact hMove obj
  | none =>
      apply (findInRoom_keeps src arg).bind
      intro found
      cases found with
      | none => exact say_kept _ _
      | some obj => exact hMove obj

theorem typedCmdGo_kept : Triple (At (some r)) (typedCmdGo arg) Kept := by
  apply current_bind
  apply state_bind
  intro g _
  apply branch
  · apply_rules [branch, say_kept]
    exact walkIn_kept _ (by decide)
  apply branch
  · apply_rules [branch, say_kept]
    exact walkIn_kept _ (by decide)
  apply branch
  · apply_rules [branch, say_kept]
    exact walkIn_kept _ (by decide)
  exact say_kept _ _

/-- Another way from the cockpit, not to the inventory. -/
theorem takeoff_keeps : Keeps (modify fun g : Game =>
    { g with enter := Function.update g.enter .cockpit (some .overWill) }) := by
  apply keeps_modify
  intro w g h
  constructor
  · constructor
    · exact h.built.lists
    · exact h.built.view
    · intro r
      by_cases hThis : r = .cockpit
      · subst hThis
        simp only [Function.update_self]
        exact ⟨(h.built.exits _).1, by decide, (h.built.exits _).2.2⟩
      · simp only [Function.update_of_ne hThis]
        exact h.built.exits r
    · exact h.built.img
    · exact h.built.swapPhoto
  · exact h.whereAt
  · intro hEq
    have hOther : (RoomId.inventory) ≠ .cockpit := by decide
    simp only [Function.update_of_ne hOther]
    exact h.back hEq

theorem typedCmdInstall_kept : Triple (At (some r)) (typedCmdInstall arg) Kept := by
  apply current_bind
  apply state_bind
  intro g _
  apply_rules [branch, say_kept]
  · apply (removeObject_keeps _).seq
    apply (playerSetFlag_keeps _).seq
    apply (doPhotoSwap_keeps _ _).seq
    exact say_kept _ _
  · apply (removeObject_keeps _).seq
    apply takeoff_keeps.seq
    exact say_kept _ _

theorem typedCmdInventory_kept : Triple (At (some r)) typedCmdInventory Kept := by
  apply current_bind
  apply state_bind
  intro g h
  apply Triple.ite
  · intro hThis
    subst hThis
    apply Triple.bind (setWhere_at (h.built.exits .inventory).2.1)
    intro _
    apply Triple.pure
    intro g' h'
    exact ⟨_, h', fun hEq => absurd rfl hEq⟩
  · intro hOther
    apply Triple.bind (Q := fun _ g => Built g ∧ (g.enter .inventory).isSome)
    · apply Triple.modify
      intro g hAt
      constructor
      · constructor
        · exact hAt.built.lists
        · exact hAt.built.view
        · intro r'
          by_cases hThis : r' = .inventory
          · subst hThis
            simp only [Function.update_self]
            have hExits := hAt.built.exits .inventory
            exact ⟨hExits.1, fun hEq => hOther (Option.some.inj hEq), hExits.2.2⟩
          · simp only [Function.update_of_ne hThis]
            exact hAt.built.exits r'
        · exact hAt.built.img
        · exact hAt.built.swapPhoto
      · show (Function.update g.enter .inventory (some r) .inventory).isSome
        rw [Function.update_self]
        rfl
    · intro _
      apply Triple.bind (Q := fun _ => At (some .inventory))
      · apply Triple.modify
        intro g hg
        exact ⟨hg.1.congr rfl, rfl, fun _ => hg.2⟩
      · intro _
        exact done_kept _

theorem typedCmdSigh_kept : Triple (At (some r)) typedCmdSigh Kept := by
  apply current_bind
  apply branch (say_kept _ _)
  apply (showStatus_keeps _).seq
  apply (playerSetFlag_keeps _).seq
  exact done_kept _

theorem typedCmdUse_kept : Triple (At (some r)) (typedCmdUse arg) Kept := by
  apply current_bind
  apply state_bind
  intro g _
  apply_rules [branch, say_kept]
  · apply (doPhotoSwap_keeps _ _).seq
    apply (removeObject_keeps _).seq
    apply (insertObjectAt_keeps _ _ _ _).seq
    apply (playerSetFlag_keeps _).seq
    exact say_kept _ _
  · apply (removeObject_keeps _).seq
    apply (moveObjectToInventory_keeps _).seq
    apply (playerSetFlag_keeps _).seq
    exact say_kept _ _

theorem typedCmdWear_kept : Triple (At (some r)) (typedCmdWear arg) Kept := by
  apply current_bind
  apply state_bind
  intro g _
  apply_rules [branch, say_kept]
  apply (removeObject_keeps _).seq
  apply (playerSetFlag_keeps _).seq
  exact say_kept _ _

end Commands

end CompE.Adventure
