import CompE.Adventure.Plot

/-!
# The opening of the game

`build_world` leaves the ways and the objects as the tables have them, and
nothing accomplished (`buildWorld_opening`).
-/

namespace CompE.Adventure

open CompE.Library

/-- The ways out of a room are there. -/
def Plot.WaysOf (k : Plot) (r : RoomId) : Prop :=
  k.left r = (roomData r).left ∧ k.enter r = (roomData r).enter ∧
    k.right r = (roomData r).right

/-- Nothing has been accomplished. -/
def Plot.Idle (k : Plot) : Prop := ∀ fnum, k.flags fnum = false

/-- The plot that the tables of the world tell. -/
structure Opening (k : Plot) : Prop where
  idle : k.Idle
  ways : ∀ r, k.WaysOf r
  loc : ∀ o, k.loc o = (objData o).room

section Opening

variable {readPhoto : String → Option Photo} {readObjImage : String → Option Image}

private theorem buildRoom_ways (done : List RoomId) (which : RoomId) :
    Yields (fun g => g.plot.Idle ∧ ∀ r ∈ done, g.plot.WaysOf r)
      (buildRoom readPhoto which) fun ok g =>
        ok = true → g.plot.Idle ∧ ∀ r ∈ done ++ [which], g.plot.WaysOf r := by
  rw [buildRoom]
  cases readPhoto (roomData which).filename with
  | none =>
      apply Yields.pure
      intro g _ hEq
      exact absurd hEq Bool.false_ne_true
  | some view =>
      apply Yields.bind (Q := fun _ g =>
        g.plot.Idle ∧ ∀ r ∈ done ++ [which], g.plot.WaysOf r)
      · apply Yields.modify
        intro g hg
        refine ⟨hg.1, ?_⟩
        intro r hr
        by_cases hThis : r = which
        · rw [hThis]
          exact ⟨Function.update_self _ _ _, Function.update_self _ _ _,
            Function.update_self _ _ _⟩
        · have hDone : r ∈ done := by simpa [hThis] using hr
          obtain ⟨hLeft, hEnter, hRight⟩ := hg.2 r hDone
          exact ⟨(Function.update_of_ne hThis _ _).trans hLeft,
            (Function.update_of_ne hThis _ _).trans hEnter,
            (Function.update_of_ne hThis _ _).trans hRight⟩
      · intro _
        apply Yields.pure
        intro g hg _
        exact hg

/-- An object is put where the table has it. -/
theorem buildObject_moves (which : ObjectId) (k : Plot) :
    Yields (fun g => g.plot = k) (buildObject readObjImage which) fun ok g =>
      ok = true → g.plot = k.move which (objData which).room := by
  rw [buildObject]
  cases readObjImage (objData which).filename with
  | none =>
      apply Yields.pure
      intro g _ hEq
      exact absurd hEq Bool.false_ne_true
  | some img =>
      have hTwice : ∀ loc, (k.move which none).move which loc = k.move which loc := by
        intro loc
        rw [Plot.move, Plot.move, Plot.move]
        simp only [Function.update_idem]
      apply Yields.bind (Q := fun _ g => g.plot = k.move which none)
      · apply Yields.modify
        intro g hPlot
        rw [← hPlot]
        rfl
      intro _
      cases (objData which).room with
      | none =>
          apply Yields.pure
          intro g hPlot _
          exact hPlot
      | some r =>
          apply Yields.ite
          · intro _
            apply (insertObjectAt_does which r _ _).seq
            apply Yields.pure
            intro g hPlot _
            rw [hPlot, hTwice]
          · intro _
            apply (insertObject_does which r).seq
            apply Yields.pure
            intro g hPlot _
            rw [hPlot, hTwice]

/-- The third loop reads photos only. -/
theorem buildSwap_plot (which : Swap) (k : Plot) :
    Yields (fun g => g.plot = k) (buildSwap readPhoto which) fun _ g => g.plot = k := by
  rw [buildSwap]
  cases readPhoto (swapData which) with
  | none =>
      apply Yields.pure
      intro g hPlot
      exact hPlot
  | some photo =>
      apply Yields.bind (Q := fun _ g => g.plot = k)
      · apply Yields.modify
        intro g hPlot
        exact hPlot
      · intro _
        apply Yields.pure
        intro g hPlot
        exact hPlot

/-- The first loop has done all rooms. -/
def Mapped (k : Plot) : Prop := k.Idle ∧ ∀ r, k.WaysOf r

/-- The second loop has done these objects. -/
def Furnished (done : List ObjectId) (k : Plot) : Prop :=
  Mapped k ∧ ∀ o ∈ done, k.loc o = (objData o).room

theorem Furnished.move {done : List ObjectId} {k : Plot} (h : Furnished done k)
    (which : ObjectId) :
    Furnished (done ++ [which]) (k.move which (objData which).room) := by
  refine ⟨h.1, ?_⟩
  intro o ho
  change Function.update k.loc which (objData which).room o = _
  by_cases hThis : o = which
  · rw [hThis]
    exact Function.update_self _ _ _
  · rw [Function.update_of_ne hThis]
    apply h.2
    simpa [hThis] using ho

private theorem buildRooms_mapped :
    Yields (fun g => g.plot.Idle) (rooms.allM (buildRoom readPhoto)) fun ok g =>
      ok = true → Mapped g.plot := by
  have hLoop := Yields.allM (I := fun done (g : Game) =>
      g.plot.Idle ∧ ∀ r ∈ done, g.plot.WaysOf r)
    rooms (@buildRoom_ways readPhoto)
  apply hLoop.conseq
  · intro g hIdle
    exact ⟨hIdle, fun r hr => nomatch hr⟩
  · intro ok g hg hOk
    obtain ⟨hIdle, hWays⟩ := hg hOk
    exact ⟨hIdle, fun r => hWays r (mem_rooms r)⟩

private theorem buildObjects_furnished :
    Yields (fun g => Furnished [] g.plot) (objects.allM (buildObject readObjImage))
      fun ok g => ok = true → Furnished objects g.plot := by
  apply Yields.allM (I := fun done (g : Game) => Furnished done g.plot) objects
  intro done which
  constructor
  intro g ok g' hg hRun hOk
  rw [(buildObject_moves which g.plot).ends g ok g' rfl hRun hOk]
  exact hg.move which

private theorem buildSwaps_plot (k : Plot) :
    Yields (fun g => g.plot = k) (swaps.allM (buildSwap readPhoto)) fun ok g =>
      ok = true → g.plot = k := by
  apply Yields.allM (I := fun _ (g : Game) => g.plot = k) swaps
  intro done which
  apply (buildSwap_plot which k).conseq
  · intro g hPlot
    exact hPlot
  · intro _ g hPlot _
    exact hPlot

/-- A world that has been built is as the tables have it. -/
theorem buildWorld_opening :
    Yields (fun _ => True) (buildWorld readPhoto readObjImage) fun ok g =>
      ok = true → Opening g.plot := by
  apply Yields.bind (Q := fun _ g => g.plot.Idle)
  · apply Yields.modify
    intro g _ fnum
    rfl
  intro _
  apply Yields.andThen buildRooms_mapped
  apply Yields.bind (Q := fun _ g => Furnished [] g.plot)
  · apply Yields.modify
    intro g hMapped
    exact ⟨hMapped, fun o ho => nomatch ho⟩
  intro _
  apply Yields.andThen buildObjects_furnished
  apply Yields.bind (Q := fun _ g => Furnished objects g.plot)
  · apply Yields.modify
    intro g hFurnished
    exact hFurnished
  intro _
  constructor
  intro g ok g' hFurnished hRun hOk
  rw [(buildSwaps_plot g.plot).ends g ok g' rfl hRun hOk]
  obtain ⟨⟨hIdle, hWays⟩, hLoc⟩ := hFurnished
  exact ⟨hIdle, hWays, fun o => hLoc o (mem_objects o)⟩

end Opening

end CompE.Adventure
