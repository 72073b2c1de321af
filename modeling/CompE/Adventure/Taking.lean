import CompE.Adventure.Plot

/-!
# Taking and dropping objects

What `typed_cmd_get` and `typed_cmd_drop` find, and how they end (`Got`,
`Dropped`).  An object is looked for in the contents list of a room, which has
the objects whose `loc` is the room once the world has been built.
-/

namespace CompE.Adventure

open CompE.Library

/-- The room in which the player stands who sees `r`. -/
def Plot.StandsIn (k : Plot) (r src : RoomId) : Prop :=
  (if r = .inventory then k.enter .inventory else some r) = some src

/-- The name of an object, as it may be typed. -/
def Named (o : ObjectId) (arg : String) : Prop := strcasecmp arg (objData o).name = true

instance (o : ObjectId) (arg : String) : Decidable (Named o arg) :=
  inferInstanceAs (Decidable (_ = _))

/-- What `find_in_room` finds. -/
def Found (k : Plot) (r : RoomId) (arg : String) : Option ObjectId → Prop
  | some o => k.loc o = some r ∧ Named o arg
  | none => ∀ o, k.loc o = some r → ¬ Named o arg

/-- A book that can be had from the desk of the library. -/
def Lends (k : Plot) (src : RoomId) (o : ObjectId) : Prop :=
  src = .reserve ∧ (k.flags .hasEaten = true ∧ k.loc .bookC = none ∧ o = .bookC ∨
    k.flags .hasEaten ≠ true ∧ k.loc .bookWode = none ∧ o = .bookWode)

/-- The battery is in the car, and the player by the car. -/
def BatteryInCar (k : Plot) (src : RoomId) : Prop :=
  src = .carSite ∧ k.loc .battCar = some .carSite

/-- What `obj_special_get` gives. -/
inductive GivenSpecially (k : Plot) (src : RoomId) (arg : String) :
    Option ObjectId → Plot → Prop where
  | book {o : ObjectId} (hName : strcasecmp "book" arg = true) (hBook : Lends k src o) :
      GivenSpecially k src arg (some o) k
  | battery (hCar : BatteryInCar k src) :
      GivenSpecially k src arg (some .battEmpty) (k.move .battCar none)
  | nothing (hBook : strcasecmp "book" arg = true → ∀ o, ¬ Lends k src o)
      (hCar : ¬ BatteryInCar k src) : GivenSpecially k src arg none k

/-- How `typed_cmd_get` ends. -/
inductive Got (k : Plot) (src : RoomId) (arg : String) : TcAction → Game → Prop where
  | book {g : Game} {o : ObjectId} (hName : strcasecmp "book" arg = true)
      (hBook : Lends k src o) (hPlot : g.plot = k.move o (some .inventory)) :
      Got k src arg .redrawRoom g
  | battery {g : Game} (hCar : BatteryInCar k src)
      (hPlot : g.plot = (k.move .battCar none).move .battEmpty (some .inventory)) :
      Got k src arg .redrawRoom g
  | found {g : Game} {o : ObjectId} (hThere : k.loc o = some src) (hName : Named o arg)
      (hCar : ¬ BatteryInCar k src) (hPlot : g.plot = k.move o (some .inventory)) :
      Got k src arg .redrawRoom g
  | tux {g : Game} (hThere : k.loc .tux = some src) (hName : Named .tux arg)
      (hCar : ¬ BatteryInCar k src) (hPlot : g.plot = k) : Got k src arg .discardText g
  | nothing {g : Game} (hNone : ∀ o, k.loc o = some src → ¬ Named o arg)
      (hBook : strcasecmp "book" arg = true → ∀ o, ¬ Lends k src o)
      (hCar : ¬ BatteryInCar k src) (hPlot : g.plot = k)
      (hStatus : g.statusMsg = "You see no such thing here.") :
      Got k src arg .allowEdit g

/-- What `typed_cmd_drop` does. -/
inductive Dropped (k : Plot) (r : RoomId) : Plot → Prop where
  | put {o : ObjectId} {dest : RoomId} (hCarried : k.loc o = some .inventory)
      (hDest : k.StandsIn r dest) : Dropped k r (k.move o (some dest))
  | nothing : Dropped k r k

section Taking

variable {α β : Type} {k : Plot} {r : RoomId} {w : Option RoomId}
  {Q : α → Game → Prop} (arg : String)

/-- A world that has been built, with its plot. -/
def With (w : Option RoomId) (k : Plot) (g : Game) : Prop := At w g ∧ g.plot = k

private theorem with_bind {f : Plot → Plot} {m : GameM β} {next : β → GameM α} (h : Keeps m)
    (h' : Does m f) (hNext : ∀ b, Yields (With w (f k)) (next b) Q) :
    Yields (With w k) (m >>= next) Q :=
  Yields.bind ((h w).yields.and (h' k)) hNext

theorem with_plot {m : GameM α} (h : Yields (fun g => g.plot = k) m Q) :
    Yields (With w k) m Q :=
  h.conseq (fun _ hg => hg.2) fun _ _ hQ => hQ

private theorem with_reads {next : Game → GameM α}
    (h : ∀ g, With w k g → Yields (With w k) (next g) Q) :
    Yields (With w k) (get >>= next) Q := by
  apply Yields.get_bind
  intro g hWith
  apply (h g hWith).conseq
  · intro s hs
    rw [hs]
    exact hWith
  · intro _ _ hQ
    exact hQ

private theorem with_readsRoom {next : RoomId → GameM α}
    (h : Yields (With (some r) k) (next r) Q) :
    Yields (With (some r) k) (current >>= next) Q := by
  apply Yields.bind (Q := fun r' g => r' = r ∧ With (some r) k g)
  · apply with_reads
    intro g hWith
    apply Yields.deref
    intro r' s hThere hs
    have hSame : some r' = some r := hThere.symm.trans hWith.1.whereAt
    exact ⟨Option.some.inj hSame, hs⟩
  · intro r'
    constructor
    intro g a g' hg hRun
    obtain ⟨rfl, hWith⟩ := hg
    exact h.ends g a g' hWith hRun

private theorem with_standing {next : RoomId → GameM α}
    (h : ∀ src, k.StandsIn r src → Yields (With w k) (next src) Q) :
    Yields (With w k) (standing r >>= next) Q := by
  apply Yields.bind (Q := fun src g => k.StandsIn r src ∧ With w k g)
  · apply with_reads
    intro g hWith
    apply Yields.deref
    intro src s hThere hs
    rw [← hWith.2]
    refine ⟨hThere, ?_⟩
    rw [hWith.2]
    exact hs
  · intro src
    constructor
    intro g a g' hg hRun
    exact (h src hg.1).ends g a g' hg.2 hRun

private theorem findInRoom_found (r : RoomId) {next : Option ObjectId → GameM α}
    (h : ∀ obj, Found k r arg obj → Yields (With w k) (next obj) Q) :
    Yields (With w k) (findInRoom r arg >>= next) Q := by
  apply Yields.bind (Q := fun obj g => Found k r arg obj ∧ With w k g)
  · apply with_reads
    intro g hWith
    obtain ⟨contents, hContents⟩ := hWith.1.built.lists
    have hSearch := search_eq (hContents.chain r)
      (fun o => strcasecmp arg (objData o).name) (contents_length_le hContents r)
    rw [hSearch]
    apply Yields.deref
    intro obj s hObj hs
    refine ⟨?_, hs⟩
    have hFind := Option.some.inj hObj
    have hIn : ∀ o, o ∈ contents r ↔ k.loc o = some r := by
      intro o
      rw [hContents.mem_iff, ← hWith.2]
      rfl
    cases obj with
    | some o =>
        have hName : strcasecmp arg (objData o).name = true :=
          List.find?_some (p := fun o => strcasecmp arg (objData o).name) hFind
        exact ⟨(hIn o).mp (List.mem_of_find?_eq_some hFind), hName⟩
    | none =>
        intro o hThere
        exact List.find?_eq_none.mp hFind o ((hIn o).mpr hThere)
  · intro obj
    constructor
    intro g a g' hg hRun
    exact (h obj hg.1).ends g a g' hg.2 hRun

theorem typedCmdDrop_dropped :
    Yields (With (some r) k) (typedCmdDrop arg) fun _ g => Dropped k r g.plot := by
  apply with_readsRoom
  apply findInRoom_found
  intro obj hFound
  cases obj with
  | none =>
      apply with_plot
      apply (showStatus_does _).seq
      apply Yields.pure
      intro g hPlot
      rw [hPlot]
      exact .nothing
  | some obj =>
      apply with_bind (hintInstall_keeps obj r) (hintInstall_does obj r)
      intro _
      apply with_standing
      intro dest hDest
      apply with_plot
      apply (insertObject_does obj dest).seq
      apply Yields.pure
      intro g hPlot
      rw [hPlot]
      exact .put hFound.1 hDest

private theorem objSpecialGet_given (src : RoomId) :
    Yields (With w k) (objSpecialGet arg src) fun obj g =>
      ∃ k', GivenSpecially k src arg obj k' ∧ With w k' g := by
  apply with_reads
  intro g hWith
  obtain ⟨_, hPlot⟩ := hWith
  subst hPlot
  apply Yields.ite
  · intro hBook
    apply with_bind (showStatus_keeps _) (showStatus_does _)
    intro _
    apply Yields.pure
    intro s hs
    exact ⟨_, .book hBook.1.2 ⟨hBook.1.1, Or.inl ⟨hBook.2.1, hBook.2.2, rfl⟩⟩, hs⟩
  intro hNotC
  apply Yields.ite
  · intro hBook
    apply with_bind (showStatus_keeps _) (showStatus_does _)
    intro _
    apply Yields.pure
    intro s hs
    exact ⟨_, .book hBook.1.2 ⟨hBook.1.1, Or.inr ⟨hBook.2.1, hBook.2.2, rfl⟩⟩, hs⟩
  intro hNotWode
  apply Yields.ite
  · intro hCar
    obtain ⟨rfl, hThere⟩ := hCar
    apply with_bind (removeObject_keeps .battCar) (removeObject_does .battCar)
    intro _
    apply Yields.pure
    intro s hs
    exact ⟨_, .battery ⟨rfl, hThere⟩, hs⟩
  intro hNoCar
  apply Yields.pure
  intro s hs
  refine ⟨_, .nothing ?_ ?_, hs⟩
  · intro hName o hBook
    cases hBook.2 with
    | inl hC => exact hNotC ⟨⟨hBook.1, hName⟩, hC.1, hC.2.1⟩
    | inr hWode => exact hNotWode ⟨⟨hBook.1, hName⟩, hWode.1, hWode.2.1⟩
  · intro hCar
    obtain ⟨rfl, hThere⟩ := hCar
    exact hNoCar ⟨rfl, hThere⟩

/-- An object that has been chosen comes into the inventory, except for Tux as
long as nobody has lured it. -/
theorem take_yields (obj : ObjectId) :
    Yields (fun g => g.plot = k)
      (do
        let g ← get
        if obj = .tux ∧ ¬ g.playerFlagIsSet .luredTux then
          say "Tux must choose you!  Try using a fish." .discardText
        else do
          moveObjectToInventory obj
          return .redrawRoom) fun action g =>
      (obj = .tux ∧ action = .discardText ∧ g.plot = k) ∨
        action = .redrawRoom ∧ g.plot = k.move obj (some .inventory) := by
  apply reads
  intro g _
  apply Yields.ite
  · intro hTux
    apply (showStatus_does _).seq
    apply Yields.pure
    intro s hs
    exact Or.inl ⟨hTux.1, rfl, hs⟩
  · intro _
    apply (moveObjectToInventory_does obj).seq
    apply Yields.pure
    intro s hs
    exact Or.inr ⟨rfl, hs⟩

/-- The search among the objects of the room, which is made if there is nothing
special to be had. -/
theorem search_got {src : RoomId} (hBook : strcasecmp "book" arg = true → ∀ o, ¬ Lends k src o)
    (hCar : ¬ BatteryInCar k src) :
    Yields (With w k)
      (do
        let obj ← findInRoom src arg
        match obj with
        | none => say "You see no such thing here." .allowEdit
        | some obj => do
            let g ← get
            if obj = .tux ∧ ¬ g.playerFlagIsSet .luredTux then
              say "Tux must choose you!  Try using a fish." .discardText
            else do
              moveObjectToInventory obj
              return .redrawRoom) fun action g => Got k src arg action g := by
  apply findInRoom_found
  intro obj hFound
  cases obj with
  | none =>
      apply Yields.bind (Q := fun _ g => g.plot = k ∧
        g.statusMsg = "You see no such thing here.")
      · apply Yields.modify
        intro s hs
        have hText : String.ofList
            ("You see no such thing here.".toList.take statusMsgLen) =
              "You see no such thing here." := by decide
        exact ⟨hs.2, hText⟩
      · intro _
        apply Yields.pure
        intro s hs
        exact .nothing hFound hBook hCar hs.1 hs.2
  | some obj =>
      apply (with_plot (take_yields obj)).conseq
      · intro s hs
        exact hs
      · intro action s hTake
        cases hTake with
        | inl hTux =>
            obtain ⟨rfl, rfl, hPlot⟩ := hTux
            exact .tux hFound.1 hFound.2 hCar hPlot
        | inr hTaken =>
            obtain ⟨rfl, hPlot⟩ := hTaken
            exact .found hFound.1 hFound.2 hCar hPlot

theorem typedCmdGet_got :
    Yields (With (some r) k) (typedCmdGet arg) fun action g =>
      ∃ src, k.StandsIn r src ∧ Got k src arg action g := by
  apply with_readsRoom
  apply with_standing
  intro src hSrc
  apply Yields.bind (objSpecialGet_given arg src)
  intro special
  constructor
  intro g action g' hg hRun
  obtain ⟨k', hGiven, hWith⟩ := hg
  refine ⟨src, hSrc, ?_⟩
  cases hGiven with
  | @book o hName hBook =>
      have hTake := (with_plot (take_yields o)).ends g action g' hWith hRun
      cases hTake with
      | inl hTux =>
          obtain ⟨hEq, _⟩ := hTux
          cases hBook.2 with
          | inl hC => exact absurd (hC.2.2.symm.trans hEq) (by decide)
          | inr hWode => exact absurd (hWode.2.2.symm.trans hEq) (by decide)
      | inr hTaken =>
          obtain ⟨rfl, hPlot⟩ := hTaken
          exact .book hName hBook hPlot
  | battery hCar =>
      have hTake := (with_plot (take_yields .battEmpty)).ends g action g' hWith hRun
      cases hTake with
      | inl hTux => exact absurd hTux.1 (by decide)
      | inr hTaken =>
          obtain ⟨rfl, hPlot⟩ := hTaken
          exact .battery hCar hPlot
  | nothing hBook hCar => exact (search_got arg hBook hCar).ends g action g' hWith hRun

end Taking

end CompE.Adventure
