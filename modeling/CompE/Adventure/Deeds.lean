import CompE.Adventure.Plot

/-!
# The deeds of the player

A command other than `get` and `drop` does one of a few deeds to the plot, and a
deed tells under which conditions it is done (`Deed`).
-/

namespace CompE.Adventure

open CompE.Library

/-- What a command other than `get` and `drop` does. -/
inductive Deed (k : Plot) : Plot → Prop where
  | nothing : Deed k k
  | go (dest : Option RoomId) : Deed k (k.go dest)
  | look {r : RoomId} (hOther : r ≠ .inventory) :
      Deed k (Plot.go { k with
        enter := Function.update k.enter .inventory (some r) } (some .inventory))
  | achieve (fnum : Flag) : Deed k (k.setFlag fnum)
  | buyDew : Deed k (k.move .mtnDew (some .inventory))
  | drinkDew : Deed k (k.move .mtnDew none)
  | chargeBattery (hEmpty : k.IsHere .battEmpty .beckMri)
      (hFull : ¬ k.IsHere .battFull .beckMri) :
      Deed k ((k.move .battEmpty none).move .battFull (some .inventory))
  | fixGps (hBad : k.IsHere .gpsBad .inCleanr) (hGood : ¬ k.IsHere .gpsGood .inCleanr) :
      Deed k (((k.move .gpsBad none).move .gpsSpec none).move .gpsGood
        (some .inventory))
  | flashRobot (hDead : k.IsHere .robotDead .in395lab)
      (hLive : ¬ k.IsHere .robotLive .in395lab) :
      Deed k ((k.move .robotDead none).move .robotLive (some .inventory))
  | installBattery (hFull : k.IsHere .battFull .carSite)
      (hEmpty : ¬ k.IsHere .battEmpty .carSite) :
      Deed k ((k.move .battFull none).setFlag .carFixed)
  | installCard : Deed k { k.move .mimoCard none with
      enter := Function.update k.enter .cockpit (some .overWill) }
  | openCar (hShut : k.flags .carOpen ≠ true) :
      Deed k (((k.move .carKey none).move .battCar (some .carSite)).setFlag .carOpen)
  | lureTux :
      Deed k (((k.move .fish none).move .tux (some .inventory)).setFlag .luredTux)
  | wearSuit : Deed k ((k.move .bunnysuit none).setFlag .wearingSuit)

/-- Of two conditions that do not both fail, the one that does not. -/
theorem left_of_either {p q : Prop} (h : ¬ (¬ p ∧ ¬ q)) (hNot : ¬ q) : p := by
  by_contra hp
  exact h ⟨hp, hNot⟩

/-- The command does a deed, if it ends. -/
def Acts {α : Type} (m : GameM α) : Prop :=
  ∀ k, Yields (fun g => g.plot = k) m fun _ g => Deed k g.plot

section Acts

variable {α : Type} {k k' : Plot}

theorem returns (h : Deed k k') (a : α) :
    Yields (fun g => g.plot = k') (pure a : GameM α) fun _ g => Deed k g.plot := by
  apply Yields.pure
  intro g hPlot
  rw [hPlot]
  exact h

private theorem tells (h : Deed k k') (s : String) (action : TcAction) :
    Yields (fun g => g.plot = k') (say s action) fun _ g => Deed k g.plot :=
  (showStatus_does s).seq (returns h action)

/-- A condition under which there only is a message. -/
theorem refuses {c : Prop} [Decidable c] {m : GameM TcAction} {s : String}
    {action : TcAction}
    (h : ¬ c → Yields (fun g => g.plot = k) m fun _ g => Deed k g.plot) :
    Yields (fun g => g.plot = k) (if c then say s action else m) fun _ g =>
      Deed k g.plot :=
  Yields.ite (fun _ => tells .nothing s action) h

private theorem goTo_acts (dest : RoomId) : Acts (goTo dest) := by
  intro k
  apply (setWhere_does (some dest)).seq
  exact returns (.go (some dest)) _

private theorem walkIn_acts (s : String) (dest : RoomId) :
    Acts (do showStatus s; goTo dest) := by
  intro k
  apply (showStatus_does s).seq
  exact goTo_acts dest k

private theorem moveInto_acts (dest : RoomId) : Acts (moveInto dest) := by
  intro k
  apply (setWhere_does (some dest)).seq
  apply (choosePicture_does dest).seq
  exact returns (.go (some dest)) _

theorem tryToMove_acts (way : Game → RoomId → Option RoomId) : Acts (tryToMove way) := by
  intro k
  apply readsRoom
  intro r _
  apply reads
  intro g _
  cases way g r with
  | some dest => exact moveInto_acts dest k
  | none =>
      apply refuses
      intro _
      exact tells .nothing _ _

theorem tryToEnter_acts : Acts tryToEnter := by
  intro k
  apply readsRoom
  intro r _
  apply reads
  intro g _
  have hDoor : ∀ {c : Prop} [Decidable c] (dest : RoomId) (s : String),
      Yields (fun g => g.plot = k) (if c then goTo dest else say s .allowEdit) fun _ g =>
        Deed k g.plot := by
    intro c _ dest s
    exact Yields.ite (fun _ => goTo_acts dest k) fun _ => tells .nothing _ _
  have hCard : ∀ {c : Prop} [Decidable c] (dest : RoomId) {m : GameM TcAction}
      (s : String), Yields (fun g => g.plot = k) m (fun _ g => Deed k g.plot) →
      Yields (fun g => g.plot = k)
        (if c then do showStatus s; goTo dest else m) fun _ g => Deed k g.plot := by
    intro c _ dest m s hElse
    exact Yields.ite (fun _ => walkIn_acts s dest k) fun _ => hElse
  cases g.enter r with
  | some dest => exact moveInto_acts dest k
  | none =>
      apply Yields.ite
      · intro _
        exact hDoor _ _
      intro _
      apply Yields.ite
      · intro _
        exact hCard _ _ (tells .nothing _ _)
      intro _
      apply Yields.ite
      · intro _
        exact hCard _ _ (tells .nothing _ _)
      intro _
      apply Yields.ite
      · intro _
        apply hCard
        apply refuses
        intro _
        exact tells .nothing _ _
      intro _
      apply Yields.ite
      · intro _
        apply rand_does.bind
        intro n
        exact tells .nothing _ _
      intro _
      apply refuses
      intro _
      exact tells .nothing _ _

variable (arg : String)

theorem typedCmdBuy_acts : Acts (typedCmdBuy arg) := by
  intro k
  apply readsRoom
  intro r _
  apply reads
  intro g _
  apply Yields.ite
  · intro _
    apply refuses
    intro _
    apply refuses
    intro _
    apply (showStatus_does _).seq
    apply (moveObjectToInventory_does .mtnDew).seq
    exact returns .buyDew _
  intro _
  apply Yields.ite
  · intro _
    apply refuses
    intro _
    apply refuses
    intro _
    apply (playerSetFlag_does .hasEaten).seq
    exact tells (.achieve .hasEaten) _ _
  intro _
  exact tells .nothing _ _

theorem typedCmdCharge_acts : Acts (typedCmdCharge arg) := by
  intro k
  apply readsRoom
  intro r _
  apply reads
  intro g hPlot
  subst hPlot
  apply refuses
  intro _
  apply refuses
  intro hBattery
  apply refuses
  intro hRoom
  obtain rfl := not_not.mp hRoom
  apply refuses
  intro hFull
  have hEmpty : g.plot.IsHere .battEmpty .beckMri := left_of_either hBattery hFull
  apply (removeObject_does .battEmpty).seq
  apply (moveObjectToInventory_does .battFull).seq
  exact tells (.chargeBattery hEmpty hFull) _ _

theorem typedCmdDo_acts : Acts (typedCmdDo arg) := by
  intro k
  apply readsRoom
  intro r _
  apply reads
  intro g _
  apply refuses
  intro _
  apply refuses
  intro _
  apply refuses
  intro _
  apply refuses
  intro _
  apply refuses
  intro _
  apply (setWhere_does none).seq
  exact returns (.go none) _

theorem typedCmdDrink_acts : Acts (typedCmdDrink arg) := by
  intro k
  apply readsRoom
  intro r _
  apply reads
  intro g _
  apply refuses
  intro _
  apply refuses
  intro _
  apply (removeObject_does .mtnDew).seq
  exact tells .drinkDew _ _

theorem typedCmdFix_acts : Acts (typedCmdFix arg) := by
  intro k
  apply readsRoom
  intro r _
  apply reads
  intro g hPlot
  subst hPlot
  apply refuses
  intro _
  apply refuses
  intro hGood
  apply refuses
  intro hBad
  apply refuses
  intro hRoom
  obtain rfl := not_not.mp hRoom
  apply refuses
  intro _
  apply (removeObject_does .gpsBad).seq
  apply (removeObject_does .gpsSpec).seq
  apply (moveObjectToInventory_does .gpsGood).seq
  have hHere : g.plot.IsHere .gpsBad .inCleanr := not_not.mp hBad
  exact tells (.fixGps hHere hGood) _ _

theorem typedCmdFlash_acts : Acts (typedCmdFlash arg) := by
  intro k
  apply readsRoom
  intro r _
  apply reads
  intro g hPlot
  subst hPlot
  apply refuses
  intro _
  apply refuses
  intro hRobot
  apply refuses
  intro hRoom
  obtain rfl := not_not.mp hRoom
  apply refuses
  intro hLive
  have hDead : g.plot.IsHere .robotDead .in395lab := left_of_either hRobot hLive
  apply (removeObject_does .robotDead).seq
  apply (moveObjectToInventory_does .robotLive).seq
  exact tells (.flashRobot hDead hLive) _ _

theorem typedCmdGo_acts : Acts (typedCmdGo arg) := by
  intro k
  apply readsRoom
  intro r _
  apply reads
  intro g _
  have hFixed : ∀ {m : GameM TcAction} (c : Prop) [Decidable c] (s s' : String),
      Yields (fun g => g.plot = k) m (fun _ g => Deed k g.plot) →
      Yields (fun g => g.plot = k)
        (if ¬ g.playerFlagIsSet .carFixed then
          if c then say s .discardText else say s' .discardText
        else m) fun _ g => Deed k g.plot := by
    intro m c _ s s' hElse
    apply Yields.ite
    · intro _
      apply refuses
      intro _
      exact tells .nothing _ _
    · intro _
      exact hElse
  apply Yields.ite
  · intro _
    apply refuses
    intro _
    apply refuses
    intro _
    apply hFixed
    apply Yields.ite
    · intro _
      apply refuses
      intro _
      exact tells .nothing _ _
    · intro _
      exact walkIn_acts _ _ k
  intro _
  apply Yields.ite
  · intro _
    apply refuses
    intro _
    apply refuses
    intro _
    apply hFixed
    exact walkIn_acts _ _ k
  intro _
  apply Yields.ite
  · intro _
    apply refuses
    intro _
    apply refuses
    intro _
    exact walkIn_acts _ _ k
  intro _
  exact tells .nothing _ _

theorem typedCmdInstall_acts : Acts (typedCmdInstall arg) := by
  intro k
  apply readsRoom
  intro r _
  apply reads
  intro g hPlot
  subst hPlot
  apply Yields.ite
  · intro _
    apply refuses
    intro hBattery
    apply refuses
    intro hRoom
    obtain rfl := not_not.mp hRoom
    apply refuses
    intro hEmpty
    have hFull : g.plot.IsHere .battFull .carSite := by
      apply left_of_either _ hEmpty
      rwa [and_comm]
    apply (removeObject_does .battFull).seq
    apply (playerSetFlag_does .carFixed).seq
    apply (doPhotoSwap_does _ _).seq
    exact tells (.installBattery hFull hEmpty) _ _
  intro _
  apply Yields.ite
  · intro _
    apply refuses
    intro _
    apply refuses
    intro _
    apply (removeObject_does .mimoCard).seq
    have hTakeoff : Does
        (modify fun g : Game =>
          { g with enter := Function.update g.enter .cockpit (some .overWill) })
        fun k => { k with enter := Function.update k.enter .cockpit (some .overWill) } :=
      does_modify fun _ => rfl
    apply hTakeoff.seq
    exact tells .installCard _ _
  intro _
  exact tells .nothing _ _

theorem typedCmdInventory_acts : Acts typedCmdInventory := by
  intro k
  apply readsRoom
  intro r _
  apply reads
  intro g _
  apply Yields.ite
  · intro _
    apply (setWhere_does _).seq
    exact returns (.go _) _
  intro hOther
  have hSave : Does
      (modify fun g : Game =>
        { g with enter := Function.update g.enter .inventory (some r) })
      fun k => { k with enter := Function.update k.enter .inventory (some r) } :=
    does_modify fun _ => rfl
  apply hSave.seq
  apply (setWhere_does (some .inventory)).seq
  exact returns (.look hOther) _

theorem typedCmdSigh_acts : Acts typedCmdSigh := by
  intro k
  apply readsRoom
  intro r _
  apply refuses
  intro _
  apply (showStatus_does _).seq
  apply (playerSetFlag_does .hasEaten).seq
  exact returns (.achieve .hasEaten) _

theorem typedCmdUse_acts : Acts (typedCmdUse arg) := by
  intro k
  apply readsRoom
  intro r _
  apply reads
  intro g hPlot
  subst hPlot
  apply Yields.ite
  · intro _
    apply refuses
    intro _
    apply refuses
    intro _
    apply refuses
    intro hRoom
    obtain rfl := not_not.mp hRoom
    apply refuses
    intro _
    apply refuses
    intro hOpen
    have hShut : g.plot.flags .carOpen ≠ true := hOpen
    apply refuses
    intro _
    apply (doPhotoSwap_does _ _).seq
    apply (removeObject_does .carKey).seq
    apply (insertObjectAt_does .battCar .carSite _ _).seq
    apply (playerSetFlag_does .carOpen).seq
    exact tells (.openCar hShut) _ _
  intro _
  apply Yields.ite
  · intro _
    apply refuses
    intro _
    apply refuses
    intro _
    apply (removeObject_does .fish).seq
    apply (moveObjectToInventory_does .tux).seq
    apply (playerSetFlag_does .luredTux).seq
    exact tells .lureTux _ _
  intro _
  exact tells .nothing _ _

theorem typedCmdWear_acts : Acts (typedCmdWear arg) := by
  intro k
  apply readsRoom
  intro r _
  apply reads
  intro g _
  apply refuses
  intro _
  apply refuses
  intro _
  apply (removeObject_does .bunnysuit).seq
  apply (playerSetFlag_does .wearingSuit).seq
  exact tells .wearSuit _ _

end Acts

end CompE.Adventure
