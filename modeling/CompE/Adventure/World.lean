import CompE.Adventure.Scroll
import CompE.Adventure.WorldData
import CompE.Library.IntrusiveList
import CompE.Library.StateTriple

/-!
# The game world

The rooms and objects with the player's place among them, and the functions of
`world.c` that move objects.  The contents of a room are a linked list through
its objects.  A step that would follow a null pointer, and a walk over a list
that does not end, fail.

The functions that move objects move the one object and keep the lists
(`Moved`).
-/

namespace CompE.Adventure

open CompE.Library

/-- The variables of `world.c` and `game_info`.  `lists` has the `contents` of
the rooms and the `next` and `loc` of the objects; `rand` is what the calls of
`rand` still to come return. -/
structure Game where
  view : RoomId → Option Photo
  left : RoomId → Option RoomId
  enter : RoomId → Option RoomId
  right : RoomId → Option RoomId
  lists : Lists RoomId ObjectId
  x : ObjectId → UInt16
  y : ObjectId → UInt16
  img : ObjectId → Option Image
  playerFlags : Flag → Bool
  swapPhoto : Swap → Option Photo
  rand : Nat → Nat
  statusMsg : String
  whereAt : Option RoomId
  xSpeed : Nat
  ySpeed : Nat
  scroll : Scroll
  enterRoom : Bool

abbrev GameM := StateT Game Option

/-- `object[o].loc`. -/
abbrev Game.loc (g : Game) (o : ObjectId) : Option RoomId := g.lists.owner o

/-- `rand`. -/
def rand : GameM Nat := do
  let g ← get
  set { g with rand := fun n => g.rand (n + 1) }
  return g.rand 0

/-- `STATUS_MSG_LEN`. -/
def statusMsgLen : Nat := 40

/-- `show_status`. -/
def showStatus (s : String) : GameM PUnit :=
  modify fun g => { g with statusMsg := String.ofList (s.toList.take statusMsgLen) }

/-- `0 == strcasecmp (s, t)`. -/
def strcasecmp (s t : String) : Bool :=
  s.toList.map Char.toLower == t.toList.map Char.toLower

/-- `do_photo_swap`. -/
def doPhotoSwap (r : RoomId) (which : Swap) : GameM PUnit :=
  modify fun g =>
    { g with
      view := Function.update g.view r (g.swapPhoto which)
      swapPhoto := Function.update g.swapPhoto which (g.view r) }

/-- `find_in_room`. -/
def findInRoom (r : RoomId) (arg : String) : GameM (Option ObjectId) := do
  let g ← get
  deref (search g.lists.next (fun o => strcasecmp arg (objData o).name) nObjects
    (g.lists.head r))

/-- `remove_object`. -/
def removeObject (o : ObjectId) : GameM PUnit := do
  let g ← get
  let lists ← deref (g.lists.unlink nObjects o)
  set { g with lists }

/-- `insert_object_at`. -/
def insertObjectAt (o : ObjectId) (r : RoomId) (x y : Int) : GameM PUnit := do
  removeObject o
  modify fun g =>
    { g with
      x := Function.update g.x o (UInt16.ofInt x)
      y := Function.update g.y o (UInt16.ofInt y)
      lists := g.lists.insert o r }

/-- `0 >= range ? 0 : rand () % range`. -/
def randBelow (range : Int) : GameM Int :=
  if 0 ≥ range then return 0
  else do
    let n ← rand
    return n % range

/-- `insert_object`: in the lowest quarter of the room, if the object fits
there. -/
def insertObject (o : ObjectId) (r : RoomId) : GameM PUnit := do
  let g ← get
  let view ← deref (g.view r)
  let img ← deref (g.img o)
  let xpos ← randBelow (view.width - img.width)
  let space : Int := view.height
  let range := space / 4 - img.height
  if 0 ≥ range then do
    let ypos ← randBelow (space - img.height)
    insertObjectAt o r xpos ypos
  else do
    let ypos ← randBelow range
    insertObjectAt o r xpos (ypos + 3 * space / 4)

/-- The places of the inventory's grid in the order in which they are tried. -/
def gridPlaces : List (Int × Int) :=
  [10, 60, 110, 160].flatMap fun y => [10, 110, 210].map fun x => (x, y)

/-- The search of `move_object_to_inventory` for a place where nothing is. -/
def freePlace : List (Int × Int) → GameM (Option (Int × Int))
  | [] => return none
  | (x, y) :: places => do
      let g ← get
      let conf ← deref (search g.lists.next
        (fun conf => x == ((g.x conf).toNat : Int) && y == ((g.y conf).toNat : Int))
        nObjects (g.lists.head .inventory))
      if conf = none then return some (x, y) else freePlace places

/-- `move_object_to_inventory`. -/
def moveObjectToInventory (obj : ObjectId) : GameM PUnit := do
  let place ← freePlace gridPlaces
  match place with
  | some (x, y) => insertObjectAt obj .inventory x y
  | none => insertObject obj .inventory

/-- `player_flag_is_set`. -/
def Game.playerFlagIsSet (g : Game) (fnum : Flag) : Prop :=
  g.playerFlags fnum = true

instance (g : Game) (fnum : Flag) : Decidable (g.playerFlagIsSet fnum) :=
  inferInstanceAs (Decidable (_ = _))

/-- `player_set_flag`. -/
def playerSetFlag (fnum : Flag) : GameM PUnit :=
  modify fun g => { g with playerFlags := Function.update g.playerFlags fnum true }

/-- An object as the functions that draw lines read it. -/
def Game.placed (g : Game) (o : ObjectId) : Option Placed :=
  (g.img o).map fun img => ⟨(g.x o).toNat, (g.y o).toNat, img⟩

/-- The objects of a room, walked with `room_contents_iterate` and
`obj_next`. -/
def roomContents (r : RoomId) : GameM (List Placed) := do
  let g ← get
  let contents ← deref (walk g.lists.next nObjects (g.lists.head r))
  deref (contents.mapM g.placed)

/-! ## Moving an object -/

/-- The lists of a game stand for the contents of its rooms. -/
def Game.ListsSound (g : Game) : Prop :=
  ∃ contents, g.lists.Represents contents

/-- One object has moved; nothing but its position, the lists and the random
numbers has changed. -/
structure Moved (o : ObjectId) (loc : Option RoomId) (g g' : Game) : Prop where
  rest : g' = { g with lists := g'.lists, x := g'.x, y := g'.y, rand := g'.rand }
  owner : g'.lists.owner = Function.update g.lists.owner o loc
  lists : g'.ListsSound

theorem contents_length_le {g : Game} {contents : Lists.Contents RoomId ObjectId}
    (h : g.lists.Represents contents) (r : RoomId) :
    (contents r).length ≤ nObjects := by
  rw [← card_objects]
  exact h.length_le r

/-- A walk over the contents of a room for an object with a property. -/
theorem search_contents {g : Game} (h : g.ListsSound) (r : RoomId)
    (p : ObjectId → Bool) :
    ∃ found, search g.lists.next p nObjects (g.lists.head r) = some found := by
  obtain ⟨contents, hContents⟩ := h
  exact ⟨_, search_eq (hContents.chain r) p (contents_length_le hContents r)⟩

section Moves

variable {g : Game} {o : ObjectId} {r : RoomId}

theorem removeObject_moved (h : g.ListsSound) :
    Triple (fun s => s = g) (removeObject o) fun _ => Moved o none g := by
  obtain ⟨contents, hContents⟩ := h
  obtain ⟨lists, hUnlink, hTaken, hOwner⟩ :=
    hContents.unlink (contents_length_le hContents) o
  apply Triple.get_bind
  intro s hs
  subst hs
  apply Triple.deref_bind hUnlink
  apply Triple.set
  exact ⟨rfl, hOwner, ⟨_, hTaken⟩⟩

theorem insertObjectAt_moved (h : g.ListsSound) (x y : Int) :
    Triple (fun s => s = g) (insertObjectAt o r x y) fun _ =>
      Moved o (some r) g := by
  apply Triple.bind (removeObject_moved h)
  intro _
  apply Triple.modify
  intro s hs
  obtain ⟨contents, hContents⟩ := hs.lists
  have hFree : s.lists.owner o = none := by
    rw [hs.owner]
    exact Function.update_self _ _ _
  constructor
  · rw [hs.rest]
  · show Function.update s.lists.owner o (some r) = _
    rw [hs.owner, Function.update_idem]
  · exact ⟨_, hContents.insert r hFree⟩

/-- Only the random numbers have changed. -/
def Rolled (g g' : Game) : Prop :=
  g' = { g with rand := g'.rand }

private theorem randBelow_rolled (range : Int) :
    Triple (fun s => s = g) (randBelow range) fun _ => Rolled g := by
  apply Triple.ite
  · intro _
    apply Triple.pure
    intro s hs
    subst hs
    rfl
  · intro _
    apply Triple.bind (Q := fun _ => Rolled g)
    · apply Triple.get_bind
      intro s hs
      subst hs
      apply Triple.bind (Q := fun _ => Rolled s)
      · apply Triple.set
        rfl
      · intro _
        apply Triple.pure
        intro _ hs
        exact hs
    · intro n
      apply Triple.pure
      intro s hs
      exact hs

theorem Rolled.trans {g' g'' : Game} (h : Rolled g g') (h' : Rolled g' g'') :
    Rolled g g'' := by
  rw [Rolled, h', h]

theorem Rolled.moved {g' g'' : Game} {loc : Option RoomId} (h : Rolled g g')
    (h' : Moved o loc g' g'') : Moved o loc g g'' := by
  rw [Rolled] at h
  constructor
  · rw [h'.rest, h]
  · rw [h'.owner, h]
  · exact h'.lists

theorem Rolled.listsSound {g' : Game} (h : Rolled g g') (hLists : g.ListsSound) :
    g'.ListsSound := by
  rw [Rolled] at h
  rw [h]
  exact hLists

theorem insertObject_moved (h : g.ListsSound) (hPhoto : (g.view r).isSome)
    (hImage : (g.img o).isSome) :
    Triple (fun s => s = g) (insertObject o r) fun _ => Moved o (some r) g := by
  obtain ⟨view, hView⟩ := Option.isSome_iff_exists.1 hPhoto
  obtain ⟨img, hImg⟩ := Option.isSome_iff_exists.1 hImage
  apply Triple.get_bind
  intro s hs
  subst hs
  apply Triple.deref_bind hView
  apply Triple.deref_bind hImg
  apply Triple.bind (randBelow_rolled _)
  intro xpos
  have hPlace : ∀ (range : Int) (place : Int → Int),
      Triple (Rolled s) (do
        let ypos ← randBelow range
        insertObjectAt o r xpos (place ypos)) fun _ => Moved o (some r) s := by
    intro range place
    apply Triple.of_state
    intro s' hRolled
    apply Triple.bind (randBelow_rolled range)
    intro ypos
    apply Triple.of_state
    intro s'' hAgain
    have hAll := hRolled.trans hAgain
    apply (insertObjectAt_moved (hAll.listsSound h) _ _).conseq
    · intro _ hs
      exact hs
    · intro _ _ hMoved
      exact hAll.moved hMoved
  apply Triple.ite
  · intro _
    exact hPlace _ fun ypos => ypos
  · intro _
    exact hPlace _ fun ypos => ypos + 3 * view.height / 4

private theorem freePlace_same (h : g.ListsSound) (places : List (Int × Int)) :
    Triple (fun s => s = g) (freePlace places) fun _ s => s = g := by
  induction places with
  | nil =>
      apply Triple.pure
      intro _ hs
      exact hs
  | cons place places ih =>
      apply Triple.get_bind
      intro s hs
      subst hs
      obtain ⟨conf, hConf⟩ := search_contents h .inventory _
      apply Triple.deref_bind hConf
      apply Triple.ite
      · intro _
        apply Triple.pure
        intro _ hs
        exact hs
      · intro _
        exact ih

theorem moveObjectToInventory_moved (h : g.ListsSound)
    (hPhoto : (g.view .inventory).isSome) (hImage : (g.img o).isSome) :
    Triple (fun s => s = g) (moveObjectToInventory o) fun _ =>
      Moved o (some .inventory) g := by
  apply Triple.bind (freePlace_same h gridPlaces)
  intro place
  cases place with
  | some place => exact insertObjectAt_moved h place.1 place.2
  | none => exact insertObject_moved h hPhoto hImage

end Moves

end CompE.Adventure
