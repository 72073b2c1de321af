import CompE.Adventure.Deeds
import CompE.Adventure.Opening
import CompE.Adventure.Taking

/-!
# Objects with several forms

A battery, a GPS and a robot each are several objects, of which a command puts
one in the place of another, and the speeds follow from what the player carries.
That at most one form is in play and that the speeds are right is kept by every
deed (`Good`), and so holds after any commands (`forms_and_speeds`).
-/

namespace CompE.Adventure

open CompE.Library

/-- The object is in a room or in the inventory. -/
def Plot.InPlay (k : Plot) (o : ObjectId) : Prop := k.loc o ≠ none

/-- At most one of the objects is in play. -/
def AtMostOne (k : Plot) (os : List ObjectId) : Prop :=
  ∀ o ∈ os, ∀ o' ∈ os, k.InPlay o → k.InPlay o' → o = o'

def batteries : List ObjectId := [.battEmpty, .battFull, .battCar]

def gpss : List ObjectId := [.gpsBad, .gpsGood]

def robots : List ObjectId := [.robotDead, .robotLive]

/-- Each thing is in one form, and a battery comes from the car, which must have
been opened. -/
structure Forms (k : Plot) : Prop where
  battery : AtMostOne k batteries
  gps : AtMostOne k gpss
  robot : AtMostOne k robots
  opened : ∀ o ∈ batteries, k.InPlay o → k.flags .carOpen = true
  inCar : k.InPlay .battCar → k.loc .battCar = some .carSite

/-- The forms, the way back from the inventory and the speeds. -/
structure Good (k : Plot) : Prop where
  forms : Forms k
  back : k.enter .inventory ≠ some .inventory
  xSpeed : k.xSpeed = if k.loc .board = some .inventory then motionSpeed * 3
    else motionSpeed
  ySpeed : k.ySpeed = if k.loc .jetpack = some .inventory then motionSpeed * 3
    else motionSpeed

section Forms

variable {k k' : Plot} {os : List ObjectId} {a b o : ObjectId}

theorem Plot.loc_move (k : Plot) (o : ObjectId) (loc : Option RoomId) (o' : ObjectId) :
    (k.move o loc).loc o' = if o' = o then loc else k.loc o' :=
  Function.update_apply k.loc o loc o'

theorem Plot.IsHere.inPlay {r : RoomId} (h : k.IsHere o r) : k.InPlay o := by
  intro hNone
  rw [Plot.IsHere, hNone] at h
  cases h with
  | inl h => exact nomatch h
  | inr h => exact nomatch h

theorem Plot.InPlay.of_move {loc : Option RoomId} (h : (k.move a loc).InPlay o) :
    o = a ∨ k.InPlay o := by
  rw [Plot.InPlay, Plot.loc_move] at h
  by_cases hThis : o = a
  · exact Or.inl hThis
  · rw [if_neg hThis] at h
    exact Or.inr h

theorem Plot.InPlay.of_remove (h : (k.move a none).InPlay o) : k.InPlay o ∧ o ≠ a := by
  rw [Plot.InPlay, Plot.loc_move] at h
  by_cases hThis : o = a
  · rw [if_pos hThis] at h
    exact absurd rfl h
  · rw [if_neg hThis] at h
    exact ⟨h, hThis⟩

theorem Plot.InPlay.of_other {loc : Option RoomId} (h : (k.move a loc).InPlay o)
    (hNe : o ≠ a) : k.InPlay o :=
  h.of_move.resolve_left hNe

theorem AtMostOne.mono (h : AtMostOne k os) (hPlay : ∀ o ∈ os, k'.InPlay o → k.InPlay o) :
    AtMostOne k' os := by
  intro o ho o' ho' hO hO'
  exact h o ho o' ho' (hPlay o ho hO) (hPlay o' ho' hO')

theorem AtMostOne.of_only (h : ∀ o ∈ os, k.InPlay o → o = a) : AtMostOne k os := by
  intro o ho o' ho' hO hO'
  rw [h o ho hO, h o' ho' hO']

theorem AtMostOne.remove (h : AtMostOne k os) (a : ObjectId) :
    AtMostOne (k.move a none) os :=
  h.mono fun _ _ hO => hO.of_remove.1

theorem AtMostOne.other (h : AtMostOne k os) (ha : a ∉ os) (loc : Option RoomId) :
    AtMostOne (k.move a loc) os := by
  apply h.mono
  intro o ho hO
  apply hO.of_move.resolve_left
  intro hEq
  rw [hEq] at ho
  exact ha ho

/-- One form is put in the place of another, or both are none of these. -/
theorem AtMostOne.exchange (h : AtMostOne k os) (hBoth : a ∈ os ↔ b ∈ os)
    (hOut : k.InPlay a) (loc : Option RoomId) :
    AtMostOne ((k.move a none).move b loc) os := by
  by_cases ha : a ∈ os
  · apply AtMostOne.of_only (a := b)
    intro o ho hO
    apply hO.of_move.resolve_right
    intro hOld
    exact hOld.of_remove.2 (h o ho a ha hOld.of_remove.1 hOut)
  · exact (h.remove a).other (fun hb => ha (hBoth.mpr hb)) loc

/-- Nothing has come into play. -/
theorem Forms.mono (h : Forms k)
    (hPlay : ∀ o ∈ batteries ++ gpss ++ robots, k'.InPlay o → k.InPlay o)
    (hOpen : k.flags .carOpen = true → k'.flags .carOpen = true)
    (hCar : k'.InPlay .battCar → k'.loc .battCar = k.loc .battCar) : Forms k' where
  battery := h.battery.mono fun o ho => hPlay o (by simp [ho])
  gps := h.gps.mono fun o ho => hPlay o (by simp [ho])
  robot := h.robot.mono fun o ho => hPlay o (by simp [ho])
  opened := fun o ho hO => hOpen (h.opened o ho (hPlay o (by simp [ho]) hO))
  inCar := fun hO => by
    rw [hCar hO]
    exact h.inCar (hPlay .battCar (by decide) hO)

/-- The forms stay as they are. -/
theorem Forms.congr (h : Forms k)
    (hLoc : ∀ o ∈ batteries ++ gpss ++ robots, k'.loc o = k.loc o)
    (hOpen : k.flags .carOpen = true → k'.flags .carOpen = true) : Forms k' := by
  apply h.mono _ hOpen
  · intro _
    exact hLoc .battCar (by decide)
  · intro o ho hO
    rw [Plot.InPlay, hLoc o ho] at hO
    exact hO

/-- An object without other forms is moved. -/
theorem Forms.other (h : Forms k) (ha : a ∉ batteries ++ gpss ++ robots)
    (loc : Option RoomId) : Forms (k.move a loc) := by
  refine h.congr ?_ id
  intro o ho
  rw [Plot.loc_move]
  apply if_neg
  intro hEq
  rw [hEq] at ho
  exact ha ho

/-- An object in play is put somewhere else; the battery of the car stays. -/
theorem Forms.moved {loc : Option RoomId} (h : Forms k) (ha : k.InPlay a)
    (hCar : a ≠ .battCar) : Forms (k.move a loc) := by
  refine h.mono ?_ id ?_
  · intro o _ hO
    cases hO.of_move with
    | inl hThis =>
        rw [hThis]
        exact ha
    | inr hOther => exact hOther
  · intro _
    rw [Plot.loc_move, if_neg (Ne.symm hCar)]

/-- The player gets one form for another. -/
theorem Forms.exchange (h : Forms k) (hOut : k.InPlay a)
    (hBattery : a ∈ batteries ↔ b ∈ batteries) (hGps : a ∈ gpss ↔ b ∈ gpss)
    (hRobot : a ∈ robots ↔ b ∈ robots) (hCar : b ≠ .battCar) :
    Forms ((k.move a none).move b (some .inventory)) where
  battery := h.battery.exchange hBattery hOut _
  gps := h.gps.exchange hGps hOut _
  robot := h.robot.exchange hRobot hOut _
  opened := by
    intro o ho hO
    cases hO.of_move with
    | inl hThis =>
        rw [hThis] at ho
        exact h.opened a (hBattery.mpr ho) hOut
    | inr hOld => exact h.opened o ho hOld.of_remove.1
  inCar := by
    intro hO
    have hOld := (hO.of_other hCar.symm).of_remove
    rw [Plot.loc_move, if_neg hCar.symm, Plot.loc_move, if_neg hOld.2]
    exact h.inCar hOld.1

theorem Forms.setFlag (h : Forms k) (fnum : Flag) : Forms (k.setFlag fnum) := by
  refine h.congr (fun _ _ => rfl) ?_
  intro hOpen
  change Function.update k.flags fnum true .carOpen = true
  rw [Function.update_apply, hOpen]
  exact ite_self true

theorem Forms.deed (h : Forms k) (hDeed : Deed k k') : Forms k' := by
  cases hDeed with
  | nothing => exact h
  | go dest => exact h.congr (fun _ _ => rfl) id
  | look hOther => exact h.congr (fun _ _ => rfl) id
  | achieve fnum => exact h.setFlag fnum
  | buyDew => exact h.other (by decide) _
  | drinkDew => exact h.other (by decide) _
  | chargeBattery hEmpty hFull =>
      exact h.exchange hEmpty.inPlay (by decide) (by decide) (by decide) (by decide)
  | fixGps hBad hGood =>
      have hOut : (k.move .gpsSpec none).InPlay .gpsBad := hBad.inPlay
      have hSwap : (k.move .gpsBad none).move .gpsSpec none =
          (k.move .gpsSpec none).move .gpsBad none := by
        rw [Plot.move, Plot.move, Plot.move, Plot.move]
        simp only []
        rw [Function.update_comm (by decide)]
      have hSpec : Forms (k.move .gpsSpec none) := h.other (by decide) none
      rw [hSwap]
      exact hSpec.exchange hOut (by decide) (by decide) (by decide) (by decide)
  | flashRobot hDead hLive =>
      exact h.exchange hDead.inPlay (by decide) (by decide) (by decide) (by decide)
  | installBattery hFull hEmpty =>
      apply Forms.setFlag
      refine h.mono ?_ id ?_
      · intro o _ hO
        exact hO.of_remove.1
      · intro _
        rfl
  | installCard =>
      have hCard : Forms (k.move .mimoCard none) := h.other (by decide) none
      exact hCard.congr (fun _ _ => rfl) id
  | openCar hShut =>
      have hNone : ∀ o ∈ batteries, ¬ k.InPlay o := fun o ho hO => hShut (h.opened o ho hO)
      constructor
      · apply AtMostOne.of_only (a := .battCar)
        intro o ho hO
        apply Plot.InPlay.of_move (k := k.move .carKey none) hO |>.resolve_right
        intro hOld
        exact hNone o ho hOld.of_remove.1
      · exact (h.gps.remove .carKey).other (by decide) _
      · exact (h.robot.remove .carKey).other (by decide) _
      · intro _ _ _
        change Function.update k.flags .carOpen true .carOpen = true
        exact Function.update_self _ _ _
      · intro _
        change ((k.move .carKey none).move .battCar (some .carSite)).loc .battCar = _
        rw [Plot.loc_move, if_pos rfl]
  | lureTux =>
      have hFish : Forms (k.move .fish none) := h.other (by decide) none
      exact (hFish.other (by decide) _).setFlag .luredTux
  | wearSuit => exact (h.other (by decide) none).setFlag .wearingSuit

/-- What is taken was in play before, or has no other form, or comes out of the
car. -/
theorem Forms.got {src : RoomId} {arg : String} {action : TcAction} {g : Game}
    (h : Forms k) (hGot : Got k src arg action g) : Forms g.plot := by
  cases hGot with
  | book hName hBook hPlot =>
      rw [hPlot]
      cases hBook.2 with
      | inl hC =>
          rw [hC.2.2]
          exact h.other (by decide) _
      | inr hWode =>
          rw [hWode.2.2]
          exact h.other (by decide) _
  | battery hCar hPlot =>
      have hOut : k.InPlay .battCar := by
        rw [Plot.InPlay, hCar.2]
        exact Option.some_ne_none _
      rw [hPlot]
      exact h.exchange hOut (by decide) (by decide) (by decide) (by decide)
  | @found g o hThere hName hCar hPlot =>
      have hOut : k.InPlay o := by
        rw [Plot.InPlay, hThere]
        exact Option.some_ne_none _
      rw [hPlot]
      exact h.moved hOut (by
        intro hEq
        subst hEq
        have hSite := h.inCar hOut
        rw [hThere] at hSite
        cases hSite
        exact hCar ⟨rfl, hThere⟩)
  | tux hThere hName hCar hPlot =>
      rw [hPlot]
      exact h
  | nothing hNone hBook hCar hPlot hStatus =>
      rw [hPlot]
      exact h

theorem Forms.dropped {r : RoomId} (h : Forms k) (hDropped : Dropped k r k') : Forms k' := by
  cases hDropped with
  | nothing => exact h
  | @put o dest hCarried hDest =>
      have hOut : k.InPlay o := by
        rw [Plot.InPlay, hCarried]
        exact Option.some_ne_none _
      apply h.moved hOut
      intro hEq
      subst hEq
      have hSite := h.inCar hOut
      rw [hCarried] at hSite
      exact nomatch hSite

end Forms

/-! ## Speeds -/

section Good

variable {k k' : Plot}

/-- The board and the jetpack only are taken and dropped. -/
theorem Deed.kit (h : Deed k k') :
    k'.loc .board = k.loc .board ∧ k'.loc .jetpack = k.loc .jetpack ∧
      k'.xSpeed = k.xSpeed ∧ k'.ySpeed = k.ySpeed := by
  cases h with
  | _ => exact ⟨rfl, rfl, rfl, rfl⟩

theorem Good.deed (h : Good k) (hDeed : Deed k k') : Good k' := by
  obtain ⟨hBoard, hJetpack, hX, hY⟩ := hDeed.kit
  constructor
  · exact h.forms.deed hDeed
  · cases hDeed with
    | @look r hOther =>
        intro hEq
        change Function.update k.enter .inventory (some r) .inventory = _ at hEq
        rw [Function.update_self] at hEq
        exact hOther (Option.some.inj hEq)
    | _ => exact h.back
  · rw [hX, hBoard]
    exact h.xSpeed
  · rw [hY, hJetpack]
    exact h.ySpeed

/-- What `get` leaves of where an object was, the speeds and the ways. -/
theorem Got.kit {src : RoomId} {arg : String} {action : TcAction} {g : Game}
    (h : Got k src arg action g) :
    (∀ o ∈ [ObjectId.board, .jetpack],
      g.plot.loc o = k.loc o ∨ g.plot.loc o = some .inventory) ∧
      g.plot.xSpeed = k.xSpeed ∧ g.plot.ySpeed = k.ySpeed ∧ g.plot.enter = k.enter := by
  have hMove : ∀ (o' o : ObjectId), (k.move o' (some .inventory)).loc o = k.loc o ∨
      (k.move o' (some .inventory)).loc o = some .inventory := by
    intro o' o
    rw [Plot.loc_move]
    split
    · exact Or.inr rfl
    · exact Or.inl rfl
  cases h with
  | book hName hBook hPlot =>
      rw [hPlot]
      exact ⟨fun o _ => hMove _ o, rfl, rfl, rfl⟩
  | battery hCar hPlot =>
      rw [hPlot]
      refine ⟨?_, rfl, rfl, rfl⟩
      intro o ho
      left
      have hOther : ∀ o ∈ [ObjectId.board, .jetpack], o ≠ .battEmpty ∧ o ≠ .battCar := by
        decide
      rw [Plot.loc_move, if_neg (hOther o ho).1, Plot.loc_move, if_neg (hOther o ho).2]
  | found hThere hName hCar hPlot =>
      rw [hPlot]
      exact ⟨fun o _ => hMove _ o, rfl, rfl, rfl⟩
  | tux hThere hName hCar hPlot =>
      rw [hPlot]
      exact ⟨fun _ _ => Or.inl rfl, rfl, rfl, rfl⟩
  | nothing hNone hBook hCar hPlot hStatus =>
      rw [hPlot]
      exact ⟨fun _ _ => Or.inl rfl, rfl, rfl, rfl⟩

/-- An object that is dropped leaves the inventory. -/
theorem Dropped.kit {r : RoomId} (h : Dropped k r k')
    (hBack : k.enter .inventory ≠ some .inventory) :
    (∀ o, k'.loc o = k.loc o ∨ k'.loc o ≠ some .inventory) ∧ k'.xSpeed = k.xSpeed ∧
      k'.ySpeed = k.ySpeed ∧ k'.enter = k.enter := by
  cases h with
  | nothing => exact ⟨fun _ => Or.inl rfl, rfl, rfl, rfl⟩
  | @put o' dest hCarried hDest =>
      refine ⟨?_, rfl, rfl, rfl⟩
      intro o
      rw [Plot.loc_move]
      split
      · right
        intro hEq
        obtain rfl := Option.some.inj hEq
        rw [Plot.StandsIn] at hDest
        split at hDest
        · exact hBack hDest
        · next hOther => exact hOther (Option.some.inj hDest)
      · exact Or.inl rfl

section Speed

variable {before after : Option RoomId} {speed : Nat}
  (h : speed = if before = some .inventory then motionSpeed * 3 else motionSpeed)

include h

private theorem speed_get (hLoc : after = before ∨ after = some .inventory) :
    (if after = some .inventory then motionSpeed * 3 else speed) =
      if after = some .inventory then motionSpeed * 3 else motionSpeed := by
  by_cases hCarried : after = some .inventory
  · rw [if_pos hCarried, if_pos hCarried]
  · have hSame := hLoc.resolve_right hCarried
    rw [if_neg hCarried, if_neg hCarried, h, ← hSame, if_neg hCarried]

private theorem speed_drop (hLoc : after = before ∨ after ≠ some .inventory) :
    (if ¬ after = some .inventory then motionSpeed else speed) =
      if after = some .inventory then motionSpeed * 3 else motionSpeed := by
  by_cases hCarried : after = some .inventory
  · have hSame := hLoc.resolve_right fun hNe => hNe hCarried
    rw [if_neg (not_not.mpr hCarried), if_pos hCarried, h, ← hSame, if_pos hCarried]
  · rw [if_pos hCarried, if_neg hCarried]

end Speed

end Good

/-! ## Runs -/

section Runs

variable {α : Type} {r : RoomId}

/-- In a room of a world that has been built. -/
def GoodAt (r : RoomId) (g : Game) : Prop := At (some r) g ∧ Good g.plot

private theorem good_of_with {m : GameM α}
    (h : ∀ k, Good k → Yields (With (some r) k) m fun _ g => Good g.plot) :
    Yields (GoodAt r) m fun _ g => Good g.plot := by
  constructor
  intro g a g' hg hRun
  exact (h g.plot hg.2).ends g a g' ⟨hg.1, rfl⟩ hRun

theorem Acts.good {m : GameM α} (h : Acts m) :
    Yields (GoodAt r) m fun _ g => Good g.plot := by
  apply good_of_with
  intro k hGood
  apply (with_plot (h k)).conseq
  · intro _ hs
    exact hs
  · intro _ _ hDeed
    exact hGood.deed hDeed

theorem Does.good {m : GameM α} (h : Does m id) :
    Yields (fun g => Good g.plot) m fun _ g => Good g.plot := by
  constructor
  intro g a g' hg hRun
  rw [(h g.plot).ends g a g' rfl hRun]
  exact hg

private theorem get_good (arg : String) :
    Yields (GoodAt r) (typedCmd .get arg) fun _ g => Good g.plot := by
  apply good_of_with
  intro k hGood
  apply Yields.bind (typedCmdGet_got arg)
  intro action
  apply Yields.bind (Q := fun _ g => Good g.plot)
  · apply Yields.modify
    intro g hg
    obtain ⟨src, _, hGot⟩ := hg
    obtain ⟨hLoc, hX, hY, hEnter⟩ := hGot.kit
    have hForms := hGood.forms.got hGot
    constructor
    · exact hForms.congr (fun _ _ => rfl) id
    · change g.plot.enter .inventory ≠ _
      rw [hEnter]
      exact hGood.back
    · exact speed_get (hX.trans hGood.xSpeed) (hLoc .board (by decide))
    · exact speed_get (hY.trans hGood.ySpeed) (hLoc .jetpack (by decide))
  · intro _
    apply Yields.pure
    intro g hg
    exact hg

private theorem drop_good (arg : String) :
    Yields (GoodAt r) (typedCmd .drop arg) fun _ g => Good g.plot := by
  apply good_of_with
  intro k hGood
  apply Yields.bind (typedCmdDrop_dropped arg)
  intro action
  apply Yields.bind (Q := fun _ g => Good g.plot)
  · apply Yields.modify
    intro g hDropped
    obtain ⟨hLoc, hX, hY, hEnter⟩ := hDropped.kit hGood.back
    have hForms := hGood.forms.dropped hDropped
    constructor
    · exact hForms.congr (fun _ _ => rfl) id
    · change g.plot.enter .inventory ≠ _
      rw [hEnter]
      exact hGood.back
    · exact speed_drop (hX.trans hGood.xSpeed) (hLoc .board)
    · exact speed_drop (hY.trans hGood.ySpeed) (hLoc .jetpack)
  · intro _
    apply Yields.pure
    intro g hg
    exact hg

private theorem typedCmd_good (cmd : CmdId) (arg : String) :
    Yields (GoodAt r) (typedCmd cmd arg) fun _ g => Good g.plot := by
  cases cmd with
  | buy => exact (typedCmdBuy_acts arg).good
  | charge => exact (typedCmdCharge_acts arg).good
  | do_ => exact (typedCmdDo_acts arg).good
  | drink => exact (typedCmdDrink_acts arg).good
  | drop => exact drop_good arg
  | fix => exact (typedCmdFix_acts arg).good
  | flash => exact (typedCmdFlash_acts arg).good
  | get => exact get_good arg
  | go => exact (typedCmdGo_acts arg).good
  | install => exact (typedCmdInstall_acts arg).good
  | inventory => exact typedCmdInventory_acts.good
  | sigh => exact typedCmdSigh_acts.good
  | use => exact (typedCmdUse_acts arg).good
  | wear => exact (typedCmdWear_acts arg).good

/-! ## Turns of the loop -/

private theorem roomContents_does (r : RoomId) : Does (roomContents r) id := by
  intro k
  apply reads
  intro g _
  apply Yields.deref_bind
  intro contents _
  apply Yields.deref
  intro _ s _ hs
  exact hs

/-- What is drawn is no part of the plot. -/
theorem draw_does (f : Game → Photo → List Placed → Scroll) : Does (draw f) id := by
  intro k
  apply readsRoom
  intro r _
  apply reads
  intro g _
  apply Yields.deref_bind
  intro photo _
  apply (roomContents_does r).bind
  intro contents
  have hDrawn : Does (modify fun g => { g with scroll := f g photo contents }) id :=
    does_modify fun _ => rfl
  exact hDrawn k

theorem drawEntered_does : Does drawEntered id := by
  intro k
  apply reads
  intro g _
  apply Yields.ite
  · intro _
    apply (draw_does _).seq
    have hDrawn : Does (modify fun g : Game => { g with enterRoom := false }) id :=
      does_modify fun _ => rfl
    exact hDrawn k
  · intro _
    exact does_pure _ k

/-- The program does not leave the plot in a bad state. -/
abbrev EndsGood {α : Type} (m : GameM α) : Prop :=
  Yields (fun g => Good g.plot) m fun _ g => Good g.plot

private theorem done_good {α : Type} (a : α) : EndsGood (pure a) := (does_pure a).good

private theorem handleTyping_good (typed : String) :
    Yields (GoodAt r) (handleTyping typed) fun _ g => Good g.plot := by
  have hDone : ∀ changed : Bool,
      Yields (GoodAt r) (pure changed) fun _ g => Good g.plot := by
    intro changed
    apply Yields.pure
    intro g hg
    exact hg.2
  apply Yields.ite
  · intro _
    exact hDone false
  intro _
  cases cmdList.find? _ with
  | none =>
      apply Yields.bind (Q := fun _ g => Good g.plot)
      · apply Yields.modify
        intro g hg
        exact hg.2
      · intro _
        exact done_good false
  | some c =>
      apply Yields.bind (typedCmd_good c.cmd _)
      intro result
      apply Yields.ite
      · intro _
        exact done_good true
      intro _
      apply Yields.ite
      · intro _
        apply Yields.bind (draw_does _).good
        intro _
        exact done_good false
      · intro _
        exact done_good false

private theorem tryMove_good {move : GameM TcAction} (h : Acts move) :
    Yields (GoodAt r) (tryMove move) fun _ g => Good g.plot := by
  apply Yields.bind h.good
  intro action
  apply Yields.modify
  intro g hg
  exact hg

private theorem doCommand_good (cmd : Cmd) :
    Yields (GoodAt r) (doCommand cmd) fun _ g => Good g.plot := by
  have hDraw : ∀ dir, Yields (GoodAt r) (movePhoto dir) fun _ g => Good g.plot := by
    intro dir
    apply (draw_does _).good.conseq
    · intro g hg
      exact hg.2
    · intro _ _ hGood
      exact hGood
  have hNothing : Yields (GoodAt r) (pure ⟨⟩ : GameM PUnit) fun _ g => Good g.plot := by
    apply Yields.pure
    intro g hg
    exact hg.2
  cases cmd with
  | up => exact hDraw .up
  | right => exact hDraw .right
  | down => exact hDraw .down
  | left => exact hDraw .left
  | moveLeft => exact tryMove_good (tryToMove_acts _)
  | enter => exact tryMove_good tryToEnter_acts
  | moveRight => exact tryMove_good (tryToMove_acts _)
  | typed text =>
      apply Yields.bind (handleTyping_good text)
      intro changed
      apply Yields.ite
      · intro _
        apply Yields.modify
        intro g hg
        exact hg
      · intro _
        exact done_good _
  | none => exact hNothing
  | quit => exact hNothing

/-- A turn that draws, does its command and looks whether the player has won. -/
theorem tick_yields {P R : Game → Prop} {Q : Condition → Game → Prop} {cmd : Cmd}
    (hDraw : Yields P drawEntered fun _ => R)
    (hQuit : cmd = .quit → ∀ g, R g → Q .quit g)
    (hCommand : Yields R (doCommand cmd) fun _ g =>
      Q (if g.whereAt = none then .won else .playing) g) :
    Yields P (tick cmd) Q := by
  have hRest : Yields R (do
      doCommand cmd
      let g ← get
      if g.whereAt = none then return .won else return .playing) Q := by
    apply Yields.bind hCommand
    intro _
    apply Yields.get_bind
    intro g hg
    apply Yields.ite
    · intro hNone
      apply Yields.pure
      intro s hs
      rw [if_pos hNone] at hg
      rw [hs]
      exact hg
    · intro hRoom
      apply Yields.pure
      intro s hs
      rw [if_neg hRoom] at hg
      rw [hs]
      exact hg
  apply Yields.bind hDraw
  intro _
  cases cmd with
  | quit =>
      apply Yields.pure
      exact hQuit rfl
  | _ => exact hRest

private theorem tick_good (cmd : Cmd) :
    Yields (GoodAt r) (tick cmd) fun _ g => Good g.plot := by
  apply tick_yields (R := GoodAt r)
  · apply (drawEntered_at.yields.and drawEntered_does.good).conseq
    · intro g hg
      exact ⟨hg.1, hg.2⟩
    · intro _ g hg
      exact ⟨hg.1, hg.2⟩
  · intro _ g hg
    exact hg.2
  · exact doCommand_good cmd

/-- The loop does not fail, and what is good stays so. -/
theorem gameLoop_good (cmds : List Cmd) :
    Triple (GoodAt r) (gameLoop cmds) fun _ g => Playing g ∧ Good g.plot := by
  have hLoop : Triple (fun g => ∃ r, GoodAt r g) (gameLoop cmds) fun _ g =>
      Playing g ∧ Good g.plot := by
    apply gameLoop_keeps
    · intro g hg
      obtain ⟨r, hAt, hGood⟩ := hg
      exact ⟨⟨_, hAt⟩, hGood⟩
    · intro cmd g hg
      obtain ⟨r, hAt, hGood⟩ := hg
      obtain ⟨condition, g', hRun, hTurned⟩ := tick_turned cmd g hAt
      have hEnd := (tick_good cmd).ends g condition g' ⟨hAt, hGood⟩ hRun
      refine ⟨condition, g', hRun, ⟨hTurned.1, hEnd⟩, ?_⟩
      intro hPlaying
      obtain ⟨dest, hDest⟩ := hTurned.2 hPlaying
      exact ⟨dest, hDest, hEnd⟩
  intro g hg
  exact hLoop g ⟨r, hg⟩

end Runs

/-! ## From the beginning -/

/-- In the beginning there are a broken GPS and a robot to be flashed only. -/
theorem Opening.forms {k : Plot} (h : Opening k) : Forms k := by
  have hPlay : ∀ o, k.InPlay o ↔ (objData o).room ≠ none := by
    intro o
    rw [Plot.InPlay, h.loc]
  have hNone : ∀ o ∈ batteries, ¬ k.InPlay o := by
    intro o ho hO
    rw [hPlay] at hO
    revert o
    decide
  constructor
  · intro o ho _ _ hO
    exact absurd hO (hNone o ho)
  · apply AtMostOne.of_only (a := .gpsBad)
    intro o ho hO
    rw [hPlay] at hO
    revert o
    decide
  · apply AtMostOne.of_only (a := .robotDead)
    intro o ho hO
    rw [hPlay] at hO
    revert o
    decide
  · intro o ho hO
    exact absurd hO (hNone o ho)
  · intro hO
    exact absurd hO (hNone .battCar (by decide))

/-- In the beginning nothing is carried. -/
theorem Opening.not_carried {k : Plot} (h : Opening k) (o : ObjectId) :
    k.loc o ≠ some .inventory := by
  rw [h.loc]
  revert o
  decide

theorem Opening.good {k : Plot} (h : Opening k) (hX : k.xSpeed = motionSpeed)
    (hY : k.ySpeed = motionSpeed) : Good k where
  forms := h.forms
  back := by
    rw [(h.ways .inventory).2.1]
    exact (roomData_exits .inventory).2.1
  xSpeed := by rw [hX, if_neg (h.not_carried .board)]
  ySpeed := by rw [hY, if_neg (h.not_carried .jetpack)]

/-- The plot after `init_game`. -/
theorem initGame_opening {g : Game} (h : Opening g.plot)
    (build : Library.Writes.Memory UInt8) : Opening (initGame build g).plot :=
  ⟨h.idle, h.ways, h.loc⟩

private theorem initGame_good {g : Game} (hBuilt : Built g) (h : Opening g.plot)
    (build : Library.Writes.Memory UInt8) : GoodAt .eastEvrt (initGame build g) :=
  ⟨initGame_at hBuilt build, (initGame_opening h build).good rfl rfl⟩

/-- The build ends; a world that it builds is good to play in. -/
theorem buildWorld_good (readPhoto : String → Option Photo)
    (readObjImage : String → Option Image) (g : Game)
    (build : Library.Writes.Memory UInt8) :
    ∃ ok world, (buildWorld readPhoto readObjImage).run g = some (ok, world) ∧
      (ok = false → Unreadable readPhoto readObjImage) ∧
      (ok = true → GoodAt .eastEvrt (initGame build world)) := by
  obtain ⟨ok, world, hRun, hBuilt, hOpening⟩ :=
    (buildWorld_built.and buildWorld_opening) g trivial
  refine ⟨ok, world, hRun, ?_, ?_⟩
  · rintro rfl
    exact hBuilt
  · rintro rfl
    exact initGame_good hBuilt (hOpening rfl) build

/-- Whatever commands are given in a world that has been built, the game goes on
or comes to an end, at most one battery, one GPS and one robot is in play, and
the player is fast in a direction as long as they carry what makes them fast. -/
theorem forms_and_speeds (readPhoto : String → Option Photo)
    (readObjImage : String → Option Image) (g : Game)
    (build : Library.Writes.Memory UInt8) (commands : List Cmd) :
    ∃ ok world, (buildWorld readPhoto readObjImage).run g = some (ok, world) ∧
      (ok = false → Unreadable readPhoto readObjImage) ∧
      (ok = true → ∃ condition g',
        (gameLoop commands).run (initGame build world) = some (condition, g') ∧
          AtMostOne g'.plot batteries ∧ AtMostOne g'.plot gpss ∧
          AtMostOne g'.plot robots ∧
          g'.xSpeed = (if g'.playerHasBoard then motionSpeed * 3 else motionSpeed) ∧
          g'.ySpeed = if g'.playerHasJetpack then motionSpeed * 3 else motionSpeed) := by
  obtain ⟨ok, world, hRun, hFail, hGood⟩ :=
    buildWorld_good readPhoto readObjImage g build
  refine ⟨ok, world, hRun, hFail, ?_⟩
  intro hOk
  obtain ⟨condition, g', hLoop, _, hEnd⟩ := gameLoop_good commands _ (hGood hOk)
  exact ⟨condition, g', hLoop, hEnd.forms.battery, hEnd.forms.gps, hEnd.forms.robot,
    hEnd.xSpeed, hEnd.ySpeed⟩

end CompE.Adventure
