import CompE.Adventure.ModeX

/-!
# Scrolling over a room

A room is drawn line by line when the player enters it.  From then on a motion
command moves the view by at most the speed, stopping at the edge of the photo,
and draws only the lines that have come into view.

After any commands the view shows the room as a full redraw there would
(`scroll_eq_redraw`), and lies inside the photo.
-/

namespace CompE.Adventure

/-- The view and `map_x`, `map_y` of `game_info`. -/
structure Scroll where
  view : ModeX
  mapX : Int
  mapY : Int

namespace Scroll

section Room

variable (photo : Photo) (contents : List Placed)

/-- `fill_horiz_buffer` for the current room. -/
def horizLine (x y : Int) : Line :=
  fillHorizBuffer x y photo contents

/-- `fill_vert_buffer` for the current room. -/
def vertLine (x y : Int) : Line :=
  fillVertBuffer x y photo contents

/-- `draw_horiz_line` for one row after the other. -/
def drawRows (rows : List Int) (v : ModeX) : ModeX :=
  rows.foldl (fun v y => v.drawHorizLine (horizLine photo contents) y) v

/-- `draw_vert_line` for one column after the other. -/
def drawColumns (columns : List Int) (v : ModeX) : ModeX :=
  columns.foldl (fun v x => v.drawVertLine (vertLine photo contents) x) v

/-- `for (idx = 0; delta > idx; idx++)`, the values of `idx`. -/
def firstLines (delta : Int) : List Int :=
  (List.range delta.toNat).map fun idx : Nat => (idx : Int)

/-- `for (idx = 1; delta >= idx; idx++)`, the values of `dim - idx`. -/
def lastLines (dim : Nat) (delta : Int) : List Int :=
  (List.range delta.toNat).map fun idx : Nat => dim - ((idx : Int) + 1)

/-- `redraw_room`. -/
def redrawRoom (v : ModeX) : ModeX :=
  drawRows photo contents (firstLines scrollYDim) v

/-- `move_photo_down`; `speed` is `y_speed`. -/
def movePhotoDown (speed : Nat) (s : Scroll) : Scroll :=
  let delta := if speed > s.mapY then s.mapY else (speed : Int)
  let mapY := s.mapY - delta
  let view := s.view.setViewWindow s.mapX mapY
  { s with mapY, view := drawRows photo contents (firstLines delta) view }

/-- `move_photo_left`; `speed` is `x_speed`. -/
def movePhotoLeft (speed : Nat) (s : Scroll) : Scroll :=
  let delta := photo.width - scrollXDim - s.mapX
  let delta := if speed > delta then delta else (speed : Int)
  let mapX := s.mapX + delta
  let view := s.view.setViewWindow mapX s.mapY
  { s with
    mapX
    view := drawColumns photo contents (lastLines scrollXDim delta) view }

/-- `move_photo_right`; `speed` is `x_speed`. -/
def movePhotoRight (speed : Nat) (s : Scroll) : Scroll :=
  let delta := if speed > s.mapX then s.mapX else (speed : Int)
  let mapX := s.mapX - delta
  let view := s.view.setViewWindow mapX s.mapY
  { s with mapX, view := drawColumns photo contents (firstLines delta) view }

/-- `move_photo_up`; `speed` is `y_speed`. -/
def movePhotoUp (speed : Nat) (s : Scroll) : Scroll :=
  let delta := photo.height - scrollYDim - s.mapY
  let delta := if speed > delta then delta else (speed : Int)
  let mapY := s.mapY + delta
  let view := s.view.setViewWindow s.mapX mapY
  { s with
    mapY
    view := drawRows photo contents (lastLines scrollYDim delta) view }

/-- What `game_loop` does when the player has entered the room. -/
def enterRoom (v : ModeX) : Scroll :=
  { view := redrawRoom photo contents (v.setViewWindow 0 0), mapX := 0, mapY := 0 }

/-- The commands that draw; a typed command may have the room redrawn. -/
inductive Command where
  | up
  | right
  | down
  | left
  | redraw

/-- The branches of `game_loop` for these, at the speeds of the moment. -/
def step (s : Scroll) (command : Command × Nat × Nat) : Scroll :=
  let (cmd, xSpeed, ySpeed) := command
  match cmd with
  | .up => movePhotoDown photo contents ySpeed s
  | .right => movePhotoLeft photo contents xSpeed s
  | .down => movePhotoUp photo contents ySpeed s
  | .left => movePhotoRight photo contents xSpeed s
  | .redraw => { s with view := redrawRoom photo contents s.view }

def run (s : Scroll) (commands : List (Command × Nat × Nat)) : Scroll :=
  commands.foldl (step photo contents) s

/-! ## Lines -/

/-- What the view shows of the room. -/
def Shows (v : ModeX) (px py : Int) : Prop :=
  v.pixel px py = pixelAt photo contents px py

/-- The view is at the map position, inside the photo. -/
structure Inside (s : Scroll) : Prop where
  showX : s.view.showX = s.mapX
  showY : s.view.showY = s.mapY
  left : 0 ≤ s.mapX
  right : s.mapX + scrollXDim ≤ photo.width
  top : 0 ≤ s.mapY
  bottom : s.mapY + scrollYDim ≤ photo.height

private theorem mem_firstLines {delta y : Int} :
    y ∈ firstLines delta ↔ 0 ≤ y ∧ y < delta := by
  simp only [firstLines, List.mem_map, List.mem_range]
  constructor
  · intro ⟨idx, hIdx, hEq⟩
    omega
  · intro h
    exact ⟨y.toNat, by omega, by omega⟩

private theorem mem_lastLines {dim : Nat} {delta y : Int} :
    y ∈ lastLines dim delta ↔ dim - delta ≤ y ∧ y < dim := by
  simp only [lastLines, List.mem_map, List.mem_range]
  constructor
  · intro ⟨idx, hIdx, hEq⟩
    omega
  · intro h
    exact ⟨(dim - y - 1).toNat, by omega, by omega⟩

private theorem drawRows_frame (rows : List Int) (v : ModeX) :
    (drawRows photo contents rows v).showX = v.showX ∧
      (drawRows photo contents rows v).showY = v.showY := by
  have hLine := ModeX.drawHorizLine_frame (horizLine photo contents)
  exact (ModeX.foldl_frame hLine rows v).2

private theorem drawColumns_frame (columns : List Int) (v : ModeX) :
    (drawColumns photo contents columns v).showX = v.showX ∧
      (drawColumns photo contents columns v).showY = v.showY := by
  have hLine := ModeX.drawVertLine_frame (vertLine photo contents)
  exact (ModeX.foldl_frame hLine columns v).2

variable {photo contents}

/-- A pixel is as in the room once its row has been drawn, and stays so. -/
theorem drawRows_shows {v : ModeX} {px py : Int} (h : v.InView px py)
    (hPhoto : 0 ≤ px ∧ px < photo.width) {rows : List Int}
    (hRow : Shows photo contents v px py ∨ py - v.showY ∈ rows) :
    Shows photo contents (drawRows photo contents rows v) px py := by
  apply ModeX.rows_pixel _ h _ hRow
  have hLeft : v.showX ≤ px := h.1
  have hRight : px < v.showX + scrollXDim := h.2.1
  have hCol : v.showX + ((px - v.showX).toNat : Int) = px := by omega
  rw [horizLine,
    fillHorizBuffer_apply _ _ _ _ (by omega) (by omega) (by omega), hCol]

/-- A pixel is as in the room once its column has been drawn, and stays so. -/
theorem drawColumns_shows {v : ModeX} {px py : Int} (h : v.InView px py)
    (hPhoto : 0 ≤ py ∧ py < photo.height) {columns : List Int}
    (hCol : Shows photo contents v px py ∨ px - v.showX ∈ columns) :
    Shows photo contents (drawColumns photo contents columns v) px py := by
  apply ModeX.columns_pixel _ h _ hCol
  have hTop : v.showY ≤ py := h.2.2.1
  have hBottom : py < v.showY + scrollYDim := h.2.2.2
  have hRow : v.showY + ((py - v.showY).toNat : Int) = py := by omega
  rw [vertLine,
    fillVertBuffer_apply _ _ _ _ (by omega) (by omega) (by omega), hRow]

/-! ## Commands -/

/-- The view is inside the photo and shows the room. -/
structure Drawn (photo : Photo) (contents : List Placed) (s : Scroll) : Prop where
  inside : Inside photo s
  shows : ∀ px py, s.view.InView px py → Shows photo contents s.view px py

section Moves

variable {s : Scroll} {mapX mapY : Int}
  (h : Drawn photo contents s) (hLeft : 0 ≤ mapX)
  (hRight : mapX + scrollXDim ≤ photo.width) (hTop : 0 ≤ mapY)
  (hBottom : mapY + scrollYDim ≤ photo.height)

include h hLeft hRight hTop hBottom

/-- Every pixel of the new view either was in the old one or is on a line that
is drawn. -/
theorem drawn_of_lines {draw : ModeX → ModeX} {onLine : Int → Int → Prop}
    (hFrame : ∀ v, (draw v).showX = v.showX ∧ (draw v).showY = v.showY)
    (hNew : ∀ px py, (s.view.setViewWindow mapX mapY).InView px py →
      s.view.InView px py ∨ onLine px py)
    (hDraw : ∀ px py, (s.view.setViewWindow mapX mapY).InView px py →
      Shows photo contents (s.view.setViewWindow mapX mapY) px py ∨ onLine px py →
        Shows photo contents (draw (s.view.setViewWindow mapX mapY)) px py) :
    Drawn photo contents
      { view := draw (s.view.setViewWindow mapX mapY), mapX, mapY } := by
  have hSame := hFrame (s.view.setViewWindow mapX mapY)
  have hShowX := s.view.setViewWindow_showX mapX mapY
  have hShowY := s.view.setViewWindow_showY mapX mapY
  constructor
  · exact ⟨hSame.1.trans hShowX, hSame.2.trans hShowY, hLeft, hRight, hTop, hBottom⟩
  · intro px py hView
    rw [ModeX.InView, hSame.1, hSame.2] at hView
    apply hDraw px py hView
    apply (hNew px py hView).imp_left
    intro hOld
    rw [Shows, ModeX.setViewWindow_pixel hOld hView]
    exact h.shows px py hOld

private theorem drawn_of_rows {rows : List Int}
    (hNew : ∀ px py, (s.view.setViewWindow mapX mapY).InView px py →
      s.view.InView px py ∨ py - mapY ∈ rows) :
    Drawn photo contents
      { view := drawRows photo contents rows (s.view.setViewWindow mapX mapY)
        mapX
        mapY } := by
  apply drawn_of_lines h hLeft hRight hTop hBottom (drawRows_frame photo contents rows)
    hNew
  intro px py hView hShown
  have hPhoto : 0 ≤ px ∧ px < photo.width := by
    rw [ModeX.InView, ModeX.setViewWindow_showX] at hView
    omega
  apply drawRows_shows hView hPhoto
  rw [ModeX.setViewWindow_showY]
  exact hShown

private theorem drawn_of_columns {columns : List Int}
    (hNew : ∀ px py, (s.view.setViewWindow mapX mapY).InView px py →
      s.view.InView px py ∨ px - mapX ∈ columns) :
    Drawn photo contents
      { view := drawColumns photo contents columns (s.view.setViewWindow mapX mapY)
        mapX
        mapY } := by
  apply drawn_of_lines h hLeft hRight hTop hBottom
    (drawColumns_frame photo contents columns) hNew
  intro px py hView hShown
  have hPhoto : 0 ≤ py ∧ py < photo.height := by
    rw [ModeX.InView, ModeX.setViewWindow_showY] at hView
    omega
  apply drawColumns_shows hView hPhoto
  rw [ModeX.setViewWindow_showX]
  exact hShown

end Moves

/-- A full redraw shows the room, whatever was in the buffer. -/
theorem redrawRoom_drawn {v : ModeX} {mapX mapY : Int} (hLeft : 0 ≤ mapX)
    (hRight : mapX + scrollXDim ≤ photo.width) (hTop : 0 ≤ mapY)
    (hBottom : mapY + scrollYDim ≤ photo.height) (hShowX : v.showX = mapX)
    (hShowY : v.showY = mapY) :
    Drawn photo contents { view := redrawRoom photo contents v, mapX, mapY } := by
  have hFrame := drawRows_frame photo contents (firstLines scrollYDim) v
  constructor
  · exact ⟨hFrame.1.trans hShowX, hFrame.2.trans hShowY, hLeft, hRight, hTop, hBottom⟩
  · intro px py hView
    rw [ModeX.InView, redrawRoom, hFrame.1, hFrame.2] at hView
    have hPhoto : 0 ≤ px ∧ px < photo.width := by omega
    apply drawRows_shows hView hPhoto
    right
    rw [mem_firstLines]
    omega

private theorem enterRoom_drawn (hWidth : scrollXDim ≤ photo.width)
    (hHeight : scrollYDim ≤ photo.height) (v : ModeX) :
    Drawn photo contents (enterRoom photo contents v) := by
  apply redrawRoom_drawn
  · exact Int.le_refl 0
  · omega
  · exact Int.le_refl 0
  · omega
  · exact v.setViewWindow_showX 0 0
  · exact v.setViewWindow_showY 0 0

/-- What is moved is at most what is left. -/
theorem clamp_range (speed : Nat) {limit : Int} (h : 0 ≤ limit) :
    0 ≤ (if speed > limit then limit else (speed : Int)) ∧
      (if speed > limit then limit else (speed : Int)) ≤ limit := by
  split
  · omega
  · omega

private theorem step_drawn {s : Scroll} (h : Drawn photo contents s)
    (command : Command × Nat × Nat) :
    Drawn photo contents (step photo contents s command) := by
  obtain ⟨cmd, xSpeed, ySpeed⟩ := command
  have hLeft := h.inside.left
  have hRight := h.inside.right
  have hTop := h.inside.top
  have hBottom := h.inside.bottom
  have hShowX := h.inside.showX
  have hShowY := h.inside.showY
  cases cmd with
  | up =>
      simp only [step, movePhotoDown]
      have hRange := clamp_range ySpeed hTop
      generalize (if ySpeed > s.mapY then s.mapY else (ySpeed : Int)) = delta
        at hRange ⊢
      apply drawn_of_rows h hLeft hRight (by omega) (by omega)
      intro px py hNew
      rw [ModeX.InView, ModeX.setViewWindow_showX, ModeX.setViewWindow_showY] at hNew
      rw [mem_firstLines, ModeX.InView]
      omega
  | right =>
      simp only [step, movePhotoLeft]
      have hRest : 0 ≤ photo.width - scrollXDim - s.mapX := by omega
      have hRange := clamp_range xSpeed hRest
      generalize (if xSpeed > photo.width - scrollXDim - s.mapX then
        photo.width - scrollXDim - s.mapX else (xSpeed : Int)) = delta at hRange ⊢
      apply drawn_of_columns h (by omega) (by omega) hTop hBottom
      intro px py hNew
      rw [ModeX.InView, ModeX.setViewWindow_showX, ModeX.setViewWindow_showY] at hNew
      rw [mem_lastLines, ModeX.InView]
      omega
  | down =>
      simp only [step, movePhotoUp]
      have hRest : 0 ≤ photo.height - scrollYDim - s.mapY := by omega
      have hRange := clamp_range ySpeed hRest
      generalize (if ySpeed > photo.height - scrollYDim - s.mapY then
        photo.height - scrollYDim - s.mapY else (ySpeed : Int)) = delta at hRange ⊢
      apply drawn_of_rows h hLeft hRight (by omega) (by omega)
      intro px py hNew
      rw [ModeX.InView, ModeX.setViewWindow_showX, ModeX.setViewWindow_showY] at hNew
      rw [mem_lastLines, ModeX.InView]
      omega
  | left =>
      simp only [step, movePhotoRight]
      have hRange := clamp_range xSpeed hLeft
      generalize (if xSpeed > s.mapX then s.mapX else (xSpeed : Int)) = delta
        at hRange ⊢
      apply drawn_of_columns h (by omega) (by omega) hTop hBottom
      intro px py hNew
      rw [ModeX.InView, ModeX.setViewWindow_showX, ModeX.setViewWindow_showY] at hNew
      rw [mem_firstLines, ModeX.InView]
      omega
  | redraw => exact redrawRoom_drawn hLeft hRight hTop hBottom hShowX hShowY

private theorem run_drawn {s : Scroll} (h : Drawn photo contents s)
    (commands : List (Command × Nat × Nat)) :
    Drawn photo contents (run photo contents s commands) := by
  induction commands generalizing s with
  | nil => exact h
  | cons command commands ih => exact ih (step_drawn h command)

end Room

/-- Scrolling is as good as drawing everything: after any commands in a room
the view is inside the photo at the map position and has the pixels of a full
redraw of any buffer at that position. -/
theorem scroll_eq_redraw (photo : Photo) (contents : List Placed)
    (hWidth : scrollXDim ≤ photo.width) (hHeight : scrollYDim ≤ photo.height)
    (v : ModeX) (commands : List (Command × Nat × Nat)) :
    let s := run photo contents (enterRoom photo contents v) commands
    Inside photo s ∧
      ∀ fresh : ModeX, fresh.showX = s.mapX → fresh.showY = s.mapY →
        ∀ px py, s.view.InView px py →
          s.view.pixel px py = (redrawRoom photo contents fresh).pixel px py := by
  intro s
  have hDrawn : Drawn photo contents s :=
    run_drawn (enterRoom_drawn hWidth hHeight v) commands
  have hIn := hDrawn.inside
  constructor
  · exact hIn
  · intro fresh hFreshX hFreshY px py hView
    have hFresh : Drawn photo contents
        { view := redrawRoom photo contents fresh, mapX := s.mapX, mapY := s.mapY } :=
      redrawRoom_drawn hIn.left hIn.right hIn.top hIn.bottom hFreshX hFreshY
    have hFreshView : (redrawRoom photo contents fresh).InView px py := by
      rw [ModeX.InView, hIn.showX, hIn.showY] at hView
      rw [ModeX.InView, hFresh.inside.showX, hFresh.inside.showY]
      exact hView
    have hOld : Shows photo contents s.view px py := hDrawn.shows px py hView
    have hRedrawn := hFresh.shows px py hFreshView
    exact hOld.trans hRedrawn.symm

/-- A photo with room to scroll, one object, and moves that stop at its edge. -/
theorem scroll_eq_redraw_wide :
    let photo : Photo := ⟨402, 230, fun i => UInt8.ofNat i⟩
    let contents : List Placed := [⟨310, 190, ⟨40, 20, fun _ => 7⟩⟩]
    let s := run photo contents (enterRoom photo contents ⟨fun _ => 0, 10000, 0, 0⟩)
      [(.right, 6, 2), (.down, 2, 50), (.left, 2, 2), (.redraw, 2, 2), (.up, 2, 6)]
    Inside photo s ∧
      ∀ fresh : ModeX, fresh.showX = s.mapX → fresh.showY = s.mapY →
        ∀ px py, s.view.InView px py →
          s.view.pixel px py = (redrawRoom photo contents fresh).pixel px py :=
  scroll_eq_redraw ⟨402, 230, fun i => UInt8.ofNat i⟩
    [⟨310, 190, ⟨40, 20, fun _ => 7⟩⟩] (by decide) (by decide) _ _

end Scroll

end CompE.Adventure
