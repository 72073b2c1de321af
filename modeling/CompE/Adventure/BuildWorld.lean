import CompE.Adventure.World

/-!
# Building the world

`build_world` clears everything, reads a photo for each room, an image for each
object and the photos to be swapped in, and puts the objects into their rooms.
The files it reads are a parameter.

It succeeds when every file can be read, and then leaves the lists in order
(`buildWorld_built`).
-/

namespace CompE.Adventure

open CompE.Library

section BuildWorld

variable (readPhoto : String → Option Photo) (readObjImage : String → Option Image)

/-- The first loop of `build_world`. -/
def buildRoom (which : RoomId) : GameM Bool := do
  match readPhoto (roomData which).filename with
  | none => return false
  | some view => do
      modify fun g =>
        { g with
          view := Function.update g.view which (some view)
          lists := { g.lists with
            head := Function.update g.lists.head which none }
          left := Function.update g.left which (roomData which).left
          enter := Function.update g.enter which (roomData which).enter
          right := Function.update g.right which (roomData which).right }
      return true

/-- The second loop. -/
def buildObject (which : ObjectId) : GameM Bool := do
  match readObjImage (objData which).filename with
  | none => return false
  | some img => do
      modify fun g =>
        { g with
          img := Function.update g.img which (some img)
          lists := { g.lists with
            next := Function.update g.lists.next which none
            owner := Function.update g.lists.owner which none }
          x := Function.update g.x which 0
          y := Function.update g.y which 0 }
      match (objData which).room with
      | none => return true
      | some r =>
          if -1 ≠ (objData which).x then do
            insertObjectAt which r (objData which).x (objData which).y
            return true
          else do
            insertObject which r
            return true

/-- The third loop. -/
def buildSwap (which : Swap) : GameM Bool := do
  match readPhoto (swapData which) with
  | none => return false
  | some photo => do
      modify fun g =>
        { g with swapPhoto := Function.update g.swapPhoto which (some photo) }
      return true

/-- `build_world`. -/
def buildWorld : GameM Bool := do
  modify fun g =>
    { g with
      playerFlags := fun _ => false
      view := fun _ => none
      left := fun _ => none
      enter := fun _ => none
      right := fun _ => none
      lists := { g.lists with head := fun _ => none } }
  let ok ← rooms.allM (buildRoom readPhoto)
  if ok then do
    modify fun g =>
      { g with
        img := fun _ => none
        lists := { g.lists with next := fun _ => none, owner := fun _ => none }
        x := fun _ => 0
        y := fun _ => 0 }
    let ok ← objects.allM (buildObject readObjImage)
    if ok then do
      modify fun g => { g with swapPhoto := fun _ => none }
      swaps.allM (buildSwap readPhoto)
    else return false
  else return false

end BuildWorld

/-! ## What is built -/

/-- No way out of any room leads to the inventory. -/
def Game.ExitsSound (g : Game) : Prop :=
  ∀ r, g.left r ≠ some .inventory ∧ g.enter r ≠ some .inventory ∧
    g.right r ≠ some .inventory

/-- A world that has been built. -/
structure Built (g : Game) : Prop where
  lists : g.ListsSound
  view : ∀ r, (g.view r).isSome
  exits : g.ExitsSound
  img : ∀ o, (g.img o).isSome
  swapPhoto : ∀ which, (g.swapPhoto which).isSome

/-- The player's place, flags and speeds, what is drawn and the random numbers do
not matter. -/
theorem Built.congr {g g' : Game} (h : Built g)
    (hSame : g' = { g with
      playerFlags := g'.playerFlags, rand := g'.rand, statusMsg := g'.statusMsg
      whereAt := g'.whereAt, xSpeed := g'.xSpeed, ySpeed := g'.ySpeed
      scroll := g'.scroll, enterRoom := g'.enterRoom }) : Built g' := by
  rw [hSame]
  exact ⟨h.lists, h.view, h.exits, h.img, h.swapPhoto⟩

/-- The first loop has done these rooms. -/
structure RoomsBuilt (done : List RoomId) (g : Game) : Prop where
  contents : ∀ r, g.lists.head r = none
  view : ∀ r ∈ done, (g.view r).isSome
  exits : g.ExitsSound

/-- The second loop has done these objects; the others are in no list. -/
structure ObjectsBuilt (done : List ObjectId) (g : Game) : Prop where
  lists : g.ListsSound
  view : ∀ r, (g.view r).isSome
  exits : g.ExitsSound
  img : ∀ o ∈ done, (g.img o).isSome
  fresh : ∀ o, o ∉ done → g.loc o = none

/-- The third loop has done these photos. -/
structure SwapsBuilt (done : List Swap) (g : Game) : Prop where
  lists : g.ListsSound
  view : ∀ r, (g.view r).isSome
  exits : g.ExitsSound
  img : ∀ o, (g.img o).isSome
  swapPhoto : ∀ which ∈ done, (g.swapPhoto which).isSome

section BuildWorld

variable {readPhoto : String → Option Photo} {readObjImage : String → Option Image}

/-- A file that cannot be read. -/
def Unreadable (readPhoto : String → Option Photo)
    (readObjImage : String → Option Image) : Prop :=
  ∃ filename, readPhoto filename = none ∨ readObjImage filename = none

private theorem isSome_update {α β : Type} [DecidableEq α] {f : α → Option β} {done : List α}
    {a : α} (b : β) (h : ∀ c ∈ done, (f c).isSome) :
    ∀ c ∈ done ++ [a], (Function.update f a (some b) c).isSome := by
  intro c hc
  by_cases hThis : c = a
  · rw [hThis, Function.update_self]
    rfl
  · rw [Function.update_of_ne hThis]
    apply h
    simpa [hThis] using hc

private theorem buildRoom_built (done : List RoomId) (which : RoomId) :
    Triple (RoomsBuilt done) (buildRoom readPhoto which) fun ok g =>
      if ok then RoomsBuilt (done ++ [which]) g
      else Unreadable readPhoto readObjImage := by
  rw [buildRoom]
  cases hRead : readPhoto (roomData which).filename with
  | none =>
      apply Triple.pure
      intro g _
      exact ⟨_, Or.inl hRead⟩
  | some view =>
      apply Triple.bind (Q := fun _ => RoomsBuilt (done ++ [which]))
      · apply Triple.modify
        intro g h
        have hExits := roomData_exits which
        constructor
        · intro r
          by_cases hThis : r = which
          · rw [hThis]
            exact Function.update_self _ _ _
          · exact (Function.update_of_ne hThis _ _).trans (h.contents r)
        · exact isSome_update view h.view
        · intro r
          by_cases hThis : r = which
          · subst hThis
            simp only [Function.update_self]
            exact hExits
          · simp only [Function.update_of_ne hThis]
            exact h.exits r
      · intro _
        apply Triple.pure
        intro g h
        exact h

/-- An object that is put into a room is in that list and no other has
changed. -/
theorem ObjectsBuilt.moved {done : List ObjectId} {which : ObjectId}
    {loc : Option RoomId} {g g' : Game} (h : ObjectsBuilt (done ++ [which]) g)
    (hMoved : Moved which loc g g') : ObjectsBuilt (done ++ [which]) g' := by
  have hRest := hMoved.rest
  constructor
  · exact hMoved.lists
  · rw [hRest]
    exact h.view
  · rw [hRest]
    exact h.exits
  · rw [hRest]
    exact h.img
  · intro o ho
    have hNe : o ≠ which := by
      intro hEq
      apply ho
      simp [hEq]
    rw [Game.loc, hMoved.owner, Function.update_of_ne hNe]
    exact h.fresh o ho

/-- The end of a turn of the second loop. -/
theorem inserted_built {done : List ObjectId} {which : ObjectId} {r : RoomId}
    {m : GameM PUnit}
    (hMove : ∀ g, ObjectsBuilt (done ++ [which]) g → (g.img which).isSome →
      Triple (fun s => s = g) m fun _ => Moved which (some r) g) :
    Triple (fun g => ObjectsBuilt (done ++ [which]) g ∧ (g.img which).isSome)
      (do m; return true) fun ok g =>
        if ok then ObjectsBuilt (done ++ [which]) g
        else Unreadable readPhoto readObjImage := by
  apply Triple.of_state
  intro g h
  apply Triple.bind (hMove g h.1 h.2)
  intro _
  apply Triple.pure
  intro g' hMoved
  exact h.1.moved hMoved

private theorem buildObject_built {done : List ObjectId} {which : ObjectId}
    (hFresh : which ∉ done) :
    Triple (ObjectsBuilt done) (buildObject readObjImage which) fun ok g =>
      if ok then ObjectsBuilt (done ++ [which]) g
      else Unreadable readPhoto readObjImage := by
  rw [buildObject]
  cases hRead : readObjImage (objData which).filename with
  | none =>
      apply Triple.pure
      intro g _
      exact ⟨_, Or.inr hRead⟩
  | some img =>
      apply Triple.bind (Q := fun _ g => ObjectsBuilt (done ++ [which]) g ∧
        (g.img which).isSome)
      · apply Triple.modify
        intro g h
        constructor
        · constructor
          · obtain ⟨contents, hContents⟩ := h.lists
            exact ⟨contents, hContents.reset (h.fresh which hFresh)⟩
          · exact h.view
          · exact h.exits
          · exact isSome_update img h.img
          · intro o ho
            have hOut : o ∉ done ∧ o ≠ which := by simpa using ho
            exact (Function.update_of_ne hOut.2 _ _).trans (h.fresh o hOut.1)
        · show (Function.update g.img which (some img) which).isSome
          rw [Function.update_self]
          rfl
      · intro _
        cases (objData which).room with
        | none =>
            apply Triple.pure
            intro g h
            exact h.1
        | some r =>
            apply Triple.ite
            · intro _
              apply inserted_built (r := r)
              intro g h _
              exact insertObjectAt_moved h.lists _ _
            · intro _
              apply inserted_built (r := r)
              intro g h hImg
              exact insertObject_moved h.lists (h.view r) hImg

private theorem buildSwap_built (done : List Swap) (which : Swap) :
    Triple (SwapsBuilt done) (buildSwap readPhoto which) fun ok g =>
      if ok then SwapsBuilt (done ++ [which]) g
      else Unreadable readPhoto readObjImage := by
  rw [buildSwap]
  cases hRead : readPhoto (swapData which) with
  | none =>
      apply Triple.pure
      intro g _
      exact ⟨_, Or.inl hRead⟩
  | some photo =>
      apply Triple.bind (Q := fun _ => SwapsBuilt (done ++ [which]))
      · apply Triple.modify
        intro g h
        exact ⟨h.lists, h.view, h.exits, h.img, isSome_update photo h.swapPhoto⟩
      · intro _
        apply Triple.pure
        intro g h
        exact h

private theorem buildRooms_built :
    Triple (RoomsBuilt []) (rooms.allM (buildRoom readPhoto)) fun ok g =>
      if ok then RoomsBuilt rooms g else Unreadable readPhoto readObjImage := by
  apply Triple.allM rooms
  intro done which rest _
  exact buildRoom_built done which

private theorem buildObjects_built :
    Triple (ObjectsBuilt []) (objects.allM (buildObject readObjImage)) fun ok g =>
      if ok then ObjectsBuilt objects g else Unreadable readPhoto readObjImage := by
  apply Triple.allM objects
  intro done which rest hAll
  apply buildObject_built
  have hNodup := objects_nodup
  rw [hAll, List.nodup_append] at hNodup
  intro hMem
  exact hNodup.2.2 which hMem which (by simp) rfl

private theorem buildSwaps_built :
    Triple (SwapsBuilt []) (swaps.allM (buildSwap readPhoto)) fun ok g =>
      if ok then Built g else Unreadable readPhoto readObjImage := by
  have hSwaps : Triple (SwapsBuilt []) (swaps.allM (buildSwap readPhoto)) fun ok g =>
      if ok then SwapsBuilt swaps g else Unreadable readPhoto readObjImage := by
    apply Triple.allM swaps
    intro done which rest _
    exact buildSwap_built done which
  apply hSwaps.conseq
  · intro g h
    exact h
  · intro ok g h
    cases ok with
    | false => exact h
    | true =>
        have hSwap : SwapsBuilt swaps g := h
        exact ⟨hSwap.lists, hSwap.view, hSwap.exits, hSwap.img,
          fun which => hSwap.swapPhoto which (mem_swaps which)⟩

/-- A build that fails could not read a file. -/
theorem buildWorld_built :
    Triple (fun _ => True) (buildWorld readPhoto readObjImage) fun ok g =>
      if ok then Built g else Unreadable readPhoto readObjImage := by
  apply Triple.bind (Q := fun _ => RoomsBuilt [])
  · apply Triple.modify
    intro g _
    constructor
    · intro r
      rfl
    · intro r hr
      cases hr
    · intro r
      simp
  · intro _
    apply Triple.andThen buildRooms_built
    apply Triple.bind (Q := fun _ => ObjectsBuilt [])
    · apply Triple.modify
      intro g h
      have hHead : g.lists.head = fun _ => none := funext h.contents
      have hLists : (⟨g.lists.head, fun _ => none, fun _ => none⟩ :
          Lists RoomId ObjectId).Represents fun _ => [] := by
        rw [hHead]
        exact Lists.represents_empty
      constructor
      · exact ⟨_, hLists⟩
      · intro r
        exact h.view r (mem_rooms r)
      · exact h.exits
      · intro o ho
        cases ho
      · intro o _
        rfl
    · intro _
      apply Triple.andThen buildObjects_built
      apply Triple.bind (Q := fun _ => SwapsBuilt [])
      · apply Triple.modify
        intro g h
        constructor
        · exact h.lists
        · exact h.view
        · exact h.exits
        · intro o
          exact h.img o (mem_objects o)
        · intro which hw
          cases hw
      · intro _
        exact buildSwaps_built

end BuildWorld

end CompE.Adventure
