import CompE.Adventure.Game

/-!
# The plot of the game

Of the variables of the game the story is told by a few: where the player and
the objects are, the ways, the flags and the speeds (`Plot`).  Here is what the
functions do to these (`Does`), whatever the order of the contents lists, the
photos and the random numbers are, and without a word on whether a function
ends.
-/

namespace CompE.Adventure

open CompE.Library

/-- What the story is told by. -/
structure Plot where
  whereAt : Option RoomId
  left : RoomId → Option RoomId
  enter : RoomId → Option RoomId
  right : RoomId → Option RoomId
  loc : ObjectId → Option RoomId
  flags : Flag → Bool
  xSpeed : Nat
  ySpeed : Nat

def Game.plot (g : Game) : Plot :=
  ⟨g.whereAt, g.left, g.enter, g.right, g.lists.owner, g.playerFlags, g.xSpeed,
    g.ySpeed⟩

namespace Plot

def move (k : Plot) (o : ObjectId) (loc : Option RoomId) : Plot :=
  { k with loc := Function.update k.loc o loc }

def setFlag (k : Plot) (fnum : Flag) : Plot :=
  { k with flags := Function.update k.flags fnum true }

def go (k : Plot) (dest : Option RoomId) : Plot := { k with whereAt := dest }

/-- The object is in the inventory or in the room. -/
def IsHere (k : Plot) (o : ObjectId) (r : RoomId) : Prop :=
  k.loc o = some .inventory ∨ k.loc o = some r

end Plot

/-! ## Programs that change the plot -/

/-- Where the program ends, it has changed the plot so. -/
def Does {α : Type} (m : GameM α) (f : Plot → Plot) : Prop :=
  ∀ k, Yields (fun g => g.plot = k) m fun _ g => g.plot = f k

section Rules

variable {α β : Type} {k : Plot} {f : Plot → Plot} {Q : α → Game → Prop}

theorem Does.bind {m : GameM β} {next : β → GameM α} (h : Does m f)
    (hNext : ∀ b, Yields (fun g => g.plot = f k) (next b) Q) :
    Yields (fun g => g.plot = k) (m >>= next) Q :=
  Yields.bind (h k) hNext

theorem Does.seq {m : GameM β} {next : GameM α} (h : Does m f)
    (hNext : Yields (fun g => g.plot = f k) next Q) :
    Yields (fun g => g.plot = k) (m >>= fun _ => next) Q :=
  h.bind fun _ => hNext

theorem does_modify {change : Game → Game} (h : ∀ g, (change g).plot = f g.plot) :
    Does (modify change) f := by
  intro k
  apply Yields.modify
  intro g hPlot
  rw [h, hPlot]

theorem does_pure (a : α) : Does (pure a : GameM α) id := by
  intro k
  apply Yields.pure
  intro g hPlot
  exact hPlot

/-- What is read has the plot that is spoken of. -/
theorem reads {next : Game → GameM α}
    (h : ∀ g, g.plot = k → Yields (fun s => s.plot = k) (next g) Q) :
    Yields (fun g => g.plot = k) (get >>= next) Q := by
  apply Yields.get_bind
  intro g hPlot
  apply (h g hPlot).conseq
  · intro s hs
    rw [hs]
    exact hPlot
  · intro _ _ hQ
    exact hQ

theorem readsRoom {next : RoomId → GameM α}
    (h : ∀ r, k.whereAt = some r → Yields (fun g => g.plot = k) (next r) Q) :
    Yields (fun g => g.plot = k) (current >>= next) Q := by
  apply Yields.bind (Q := fun r g => k.whereAt = some r ∧ g.plot = k)
  · apply reads
    intro g hPlot
    apply Yields.deref
    intro r s hThere hs
    rw [← hPlot]
    exact ⟨hThere, by rw [hs, hPlot]⟩
  · intro r
    constructor
    intro g a g' hg hRun
    exact (h r hg.1).ends g a g' hg.2 hRun

end Rules

section Moves

variable (o : ObjectId) (r : RoomId)

theorem showStatus_does (s : String) : Does (showStatus s) id :=
  does_modify fun _ => rfl

theorem doPhotoSwap_does (which : Swap) : Does (doPhotoSwap r which) id :=
  does_modify fun _ => rfl

theorem playerSetFlag_does (fnum : Flag) : Does (playerSetFlag fnum) (·.setFlag fnum) :=
  does_modify fun _ => rfl

theorem setWhere_does (dest : Option RoomId) : Does (setWhere dest) (·.go dest) :=
  does_modify fun _ => rfl

theorem rand_does : Does rand id := by
  intro k
  apply reads
  intro g hPlot
  apply Yields.bind (Q := fun _ s => s.plot = k)
  · apply Yields.set
    exact hPlot
  · intro _
    exact does_pure _ k

theorem choosePicture_does : Does (choosePicture r) id := by
  intro k
  apply Yields.ite
  · intro _
    apply rand_does.bind
    intro n
    apply Yields.ite
    · intro _
      exact doPhotoSwap_does r .circle _
    · intro _
      exact does_pure _ _
  · intro _
    exact does_pure _ k

theorem hintInstall_does : Does (hintInstall o r) id := by
  intro k
  apply Yields.ite
  · intro _
    exact showStatus_does _ k
  · intro _
    exact does_pure _ k

theorem removeObject_does : Does (removeObject o) (·.move o none) := by
  intro k
  apply reads
  intro g hPlot
  apply Yields.deref_bind
  intro lists hUnlink
  apply Yields.set
  rw [← hPlot]
  simp only [Game.plot, Plot.move, Lists.owner_unlink hUnlink]

theorem insertObjectAt_does (x y : Int) :
    Does (insertObjectAt o r x y) (·.move o (some r)) := by
  intro k
  apply (removeObject_does o).seq
  apply Yields.modify
  intro g hPlot
  have hLoc : g.lists.owner = Function.update k.loc o none := by
    change g.plot.loc = _
    rw [hPlot]
    rfl
  have hBoth : (g.lists.insert o r).owner = Function.update k.loc o (some r) := by
    change Function.update g.lists.owner o (some r) = _
    rw [hLoc, Function.update_idem]
  change Plot.mk g.plot.whereAt g.plot.left g.plot.enter g.plot.right
    (g.lists.insert o r).owner g.plot.flags g.plot.xSpeed g.plot.ySpeed = _
  rw [hBoth, hPlot]
  rfl

private theorem randBelow_does (range : Int) : Does (randBelow range) id := by
  intro k
  apply Yields.ite
  · intro _
    exact does_pure _ k
  · intro _
    apply rand_does.bind
    intro n
    exact does_pure _ _

theorem insertObject_does : Does (insertObject o r) (·.move o (some r)) := by
  intro k
  apply reads
  intro g _
  apply Yields.deref_bind
  intro view _
  apply Yields.deref_bind
  intro img _
  apply (randBelow_does _).bind
  intro xpos
  apply Yields.ite
  · intro _
    apply (randBelow_does _).bind
    intro ypos
    exact insertObjectAt_does o r _ _ _
  · intro _
    apply (randBelow_does _).bind
    intro ypos
    exact insertObjectAt_does o r _ _ _

private theorem freePlace_does (places : List (Int × Int)) : Does (freePlace places) id := by
  induction places with
  | nil => exact does_pure _
  | cons place places ih =>
      intro k
      apply reads
      intro g _
      apply Yields.deref_bind
      intro conf _
      apply Yields.ite
      · intro _
        exact does_pure _ k
      · intro _
        exact ih k

theorem moveObjectToInventory_does :
    Does (moveObjectToInventory o) (·.move o (some .inventory)) := by
  intro k
  apply (freePlace_does gridPlaces).bind
  intro place
  cases place with
  | some place => exact insertObjectAt_does o .inventory place.1 place.2 _
  | none => exact insertObject_does o .inventory _

end Moves

end CompE.Adventure
