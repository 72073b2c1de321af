import Mathlib.Logic.Function.Basic

/-!
# Room photos and object images

`fill_horiz_buffer` and `fill_vert_buffer` draw a line of a room: the photo,
and the room's objects over it in the order of its contents list.  A line has
a fixed number of pixels and may start anywhere.

Both give a pixel inside the photo the value `pixelAt`: that of the last object
with a pixel there that is not transparent, or else of the photo.
-/

namespace CompE.Adventure

/-- `SCROLL_X_DIM`. -/
def scrollXDim : Nat := 320

/-- `SCROLL_Y_DIM`. -/
def scrollYDim : Nat := 200

/-- `OBJ_CLR_TRANSP`. -/
def objClrTransp : UInt8 := 0x40

/-- `photo_t`: rows of `width` pixels, from the top. -/
structure Photo where
  width : Nat
  height : Nat
  img : Nat → UInt8

/-- `image_t`. -/
structure Image where
  width : Nat
  height : Nat
  img : Nat → UInt8

/-- An object of the room as it is drawn. -/
structure Placed where
  x : Nat
  y : Nat
  img : Image

/-- A buffer of pixels. -/
abbrev Line := Nat → UInt8

/-- `for (; dim > idx && len > i; idx++, i++)`: copy what is not
transparent. -/
def copyPixels (dim len : Nat) (pixel : Nat → UInt8) (idx i : Nat)
    (buf : Line) : Line :=
  (List.range (min (dim - idx) (len - i))).foldl
    (fun buf k =>
      if pixel (i + k) ≠ objClrTransp then
        Function.update buf (idx + k) (pixel (i + k))
      else buf)
    buf

section Lines

variable (x y : Int)

/-- One object of `fill_horiz_buffer`. -/
def drawHoriz (buf : Line) (obj : Placed) : Line :=
  if y < obj.y ∨ y ≥ obj.y + obj.img.height ∨ x + scrollXDim ≤ obj.x ∨
      x ≥ obj.x + obj.img.width then buf
  else
    let yoff := (y - obj.y) * obj.img.width
    let idx := if x ≤ obj.x then obj.x - x else 0
    let imgx := if x ≤ obj.x then 0 else x - obj.x
    copyPixels scrollXDim obj.img.width
      (fun k => obj.img.img (yoff + k).toNat) idx.toNat imgx.toNat buf

/-- `fill_horiz_buffer`. -/
def fillHorizBuffer (view : Photo) (contents : List Placed) : Line :=
  contents.foldl (drawHoriz x y) fun idx =>
    if 0 ≤ x + idx ∧ view.width > x + idx then
      view.img (view.width * y + x + idx).toNat
    else 0

/-- One object of `fill_vert_buffer`. -/
def drawVert (buf : Line) (obj : Placed) : Line :=
  if x < obj.x ∨ x ≥ obj.x + obj.img.width ∨ y + scrollYDim ≤ obj.y ∨
      y ≥ obj.y + obj.img.height then buf
  else
    let xoff := x - obj.x
    let idx := if y ≤ obj.y then obj.y - y else 0
    let imgy := if y ≤ obj.y then 0 else y - obj.y
    copyPixels scrollYDim obj.img.height
      (fun k => obj.img.img (xoff + obj.img.width * k).toNat) idx.toNat
      imgy.toNat buf

/-- `fill_vert_buffer`. -/
def fillVertBuffer (view : Photo) (contents : List Placed) : Line :=
  contents.foldl (drawVert x y) fun idx =>
    if 0 ≤ y + idx ∧ view.height > y + idx then
      view.img (view.width * (y + idx) + x).toNat
    else 0

end Lines

/-! ## Pixels -/

/-- The pixel of an object at a place of the map, if it has one there. -/
def Placed.pixel (obj : Placed) (px py : Int) : Option UInt8 :=
  if obj.x ≤ px ∧ px < obj.x + obj.img.width ∧ obj.y ≤ py ∧
      py < obj.y + obj.img.height then
    let v := obj.img.img ((py - obj.y) * obj.img.width + (px - obj.x)).toNat
    if v ≠ objClrTransp then some v else none
  else none

private theorem pixel_of_inside {obj : Placed} {px py : Int}
    (h : obj.x ≤ px ∧ px < obj.x + obj.img.width ∧ obj.y ≤ py ∧
      py < obj.y + obj.img.height) :
    obj.pixel px py =
      if obj.img.img ((py - obj.y) * obj.img.width + (px - obj.x)).toNat ≠
          objClrTransp then
        some (obj.img.img ((py - obj.y) * obj.img.width + (px - obj.x)).toNat)
      else none := by
  rw [Placed.pixel, if_pos h]

/-- The value of a pixel with the objects drawn over it. -/
def paint (contents : List Placed) (px py : Int) (v : UInt8) : UInt8 :=
  contents.foldl (fun v obj => (obj.pixel px py).getD v) v

/-- A pixel of a room. -/
def pixelAt (view : Photo) (contents : List Placed) (px py : Int) : UInt8 :=
  paint contents px py (view.img (view.width * py + px).toNat)

private theorem copy_range (pixel : Nat → UInt8) (idx i n : Nat) (buf : Line) (j : Nat) :
    (List.range n).foldl
      (fun buf k =>
        if pixel (i + k) ≠ objClrTransp then
          Function.update buf (idx + k) (pixel (i + k))
        else buf)
      buf j =
    if idx ≤ j ∧ j < idx + n ∧ pixel (i + (j - idx)) ≠ objClrTransp then
      pixel (i + (j - idx))
    else buf j := by
  induction n with
  | zero =>
      rw [if_neg (by omega)]
      rfl
  | succ n ih =>
      rw [List.range_succ, List.foldl_append, List.foldl_cons, List.foldl_nil]
      by_cases hThis : j = idx + n
      · subst hThis
        have hOffset : idx + n - idx = n := by omega
        rw [hOffset]
        by_cases hPixel : pixel (i + n) ≠ objClrTransp
        · rw [if_pos hPixel, Function.update_self, if_pos ⟨by omega, by omega, hPixel⟩]
        · rw [if_neg hPixel, ih, if_neg (by omega), if_neg fun h => hPixel h.2.2]
      · have hStep : ∀ b : Line, (if pixel (i + n) ≠ objClrTransp then
            Function.update b (idx + n) (pixel (i + n)) else b) j = b j := by
          intro b
          split
          · exact Function.update_of_ne hThis _ _
          · rfl
        rw [hStep, ih]
        have hRange : idx ≤ j ∧ j < idx + (n + 1) ↔ idx ≤ j ∧ j < idx + n := by
          omega
        simp only [← and_assoc, hRange]

/-- What is copied to a place of the buffer. -/
theorem copyPixels_apply (dim len : Nat) (pixel : Nat → UInt8) (idx i : Nat)
    (buf : Line) (j : Nat) :
    copyPixels dim len pixel idx i buf j =
      if (idx ≤ j ∧ j < dim ∧ i + (j - idx) < len) ∧
          pixel (i + (j - idx)) ≠ objClrTransp then
        pixel (i + (j - idx))
      else buf j := by
  have hRange : (idx ≤ j ∧ j < idx + min (dim - idx) (len - i)) ↔
      idx ≤ j ∧ j < dim ∧ i + (j - idx) < len := by
    omega
  rw [copyPixels, copy_range]
  simp only [← hRange, and_assoc]

/-- An object on a horizontal line, pixel by pixel. -/
theorem drawHoriz_apply (x y : Int) (obj : Placed) (buf : Line) {j : Nat}
    (hj : j < scrollXDim) :
    drawHoriz x y buf obj j = (obj.pixel (x + j) y).getD (buf j) := by
  have hDim : scrollXDim = 320 := rfl
  rw [drawHoriz]
  split
  · next hOut =>
      rw [Placed.pixel, if_neg (by omega)]
      rfl
  · next hIn =>
      simp only [copyPixels_apply]
      by_cases hThere : obj.x ≤ x + j ∧ x + j < obj.x + obj.img.width
      · have hPlace : (((if x ≤ obj.x then 0 else x - obj.x).toNat +
            (j - (if x ≤ obj.x then obj.x - x else 0).toNat) : Nat) : Int) =
            x + j - obj.x := by
          split <;> omega
        have hRange : (if x ≤ obj.x then obj.x - x else 0).toNat ≤ j ∧
            j < scrollXDim ∧ (if x ≤ obj.x then 0 else x - obj.x).toNat +
              (j - (if x ≤ obj.x then obj.x - x else 0).toNat) <
                obj.img.width := by
          split <;> omega
        rw [hPlace, pixel_of_inside ⟨hThere.1, hThere.2, by omega, by omega⟩]
        simp only [hRange, and_self, true_and]
        split <;> rfl
      · have hRange : ¬ ((if x ≤ obj.x then obj.x - x else 0).toNat ≤ j ∧
            j < scrollXDim ∧ (if x ≤ obj.x then 0 else x - obj.x).toNat +
              (j - (if x ≤ obj.x then obj.x - x else 0).toNat) <
                obj.img.width) := by
          split <;> omega
        rw [if_neg fun h => hRange h.1, Placed.pixel,
          if_neg fun h => hThere ⟨h.1, h.2.1⟩]
        rfl

/-- An object on a vertical line, pixel by pixel. -/
theorem drawVert_apply (x y : Int) (obj : Placed) (buf : Line) {j : Nat}
    (hj : j < scrollYDim) :
    drawVert x y buf obj j = (obj.pixel x (y + j)).getD (buf j) := by
  have hDim : scrollYDim = 200 := rfl
  rw [drawVert]
  split
  · next hOut =>
      rw [Placed.pixel, if_neg (by omega)]
      rfl
  · next hIn =>
      simp only [copyPixels_apply]
      by_cases hThere : obj.y ≤ y + j ∧ y + j < obj.y + obj.img.height
      · have hRow : (((if y ≤ obj.y then 0 else y - obj.y).toNat +
            (j - (if y ≤ obj.y then obj.y - y else 0).toNat) : Nat) : Int) =
            y + j - obj.y := by
          split <;> omega
        have hPlace : x - obj.x + (obj.img.width : Int) * (y + j - obj.y) =
            (y + j - obj.y) * obj.img.width + (x - obj.x) := by
          rw [Int.mul_comm, Int.add_comm]
        have hRange : (if y ≤ obj.y then obj.y - y else 0).toNat ≤ j ∧
            j < scrollYDim ∧ (if y ≤ obj.y then 0 else y - obj.y).toNat +
              (j - (if y ≤ obj.y then obj.y - y else 0).toNat) <
                obj.img.height := by
          split <;> omega
        rw [hRow, hPlace, pixel_of_inside ⟨by omega, by omega, hThere.1, hThere.2⟩]
        simp only [hRange, and_self, true_and]
        split <;> rfl
      · have hRange : ¬ ((if y ≤ obj.y then obj.y - y else 0).toNat ≤ j ∧
            j < scrollYDim ∧ (if y ≤ obj.y then 0 else y - obj.y).toNat +
              (j - (if y ≤ obj.y then obj.y - y else 0).toNat) <
                obj.img.height) := by
          split <;> omega
        rw [if_neg fun h => hRange h.1, Placed.pixel,
          if_neg fun h => hThere ⟨h.2.2.1, h.2.2.2⟩]
        rfl

/-- All objects of a line. -/
theorem foldl_draw {draw : Line → Placed → Line} {px py : Int} {j : Nat}
    (hDraw : ∀ buf obj, draw buf obj j = (obj.pixel px py).getD (buf j))
    (contents : List Placed) (buf : Line) :
    contents.foldl draw buf j = paint contents px py (buf j) := by
  induction contents generalizing buf with
  | nil => rfl
  | cons obj contents ih =>
      rw [List.foldl_cons, ih, hDraw]
      rfl

/-- A horizontal line has the pixels of the room. -/
theorem fillHorizBuffer_apply (view : Photo) (contents : List Placed)
    (x y : Int) {j : Nat} (hj : j < scrollXDim) (hLow : 0 ≤ x + j)
    (hHigh : x + j < view.width) :
    fillHorizBuffer x y view contents j = pixelAt view contents (x + j) y := by
  rw [fillHorizBuffer,
    foldl_draw (fun buf obj => drawHoriz_apply x y obj buf hj), if_pos ⟨hLow, hHigh⟩,
    pixelAt, Int.add_assoc]

/-- A vertical line has the pixels of the room. -/
theorem fillVertBuffer_apply (view : Photo) (contents : List Placed)
    (x y : Int) {j : Nat} (hj : j < scrollYDim) (hLow : 0 ≤ y + j)
    (hHigh : y + j < view.height) :
    fillVertBuffer x y view contents j = pixelAt view contents x (y + j) := by
  rw [fillVertBuffer,
    foldl_draw (fun buf obj => drawVert_apply x y obj buf hj), if_pos ⟨hLow, hHigh⟩,
    pixelAt]

/-- **Rows and columns agree.**  A horizontal and a vertical line that start
anywhere give a pixel inside the photo the same value, whatever objects there
are. -/
theorem fillBuffers_agree (view : Photo) (contents : List Placed) {px py : Int}
    (hCol : 0 ≤ px ∧ px < view.width) (hRow : 0 ≤ py ∧ py < view.height)
    {x y : Int} (hHoriz : x ≤ px ∧ px < x + scrollXDim)
    (hVert : y ≤ py ∧ py < y + scrollYDim) :
    fillHorizBuffer x py view contents (px - x).toNat =
      fillVertBuffer px y view contents (py - y).toNat := by
  have hPx : x + ((px - x).toNat : Int) = px := by omega
  have hPy : y + ((py - y).toNat : Int) = py := by omega
  have hOnRow := fillHorizBuffer_apply view contents x py (j := (px - x).toNat)
    (by omega) (by omega) (by omega)
  have hOnCol := fillVertBuffer_apply view contents px y (j := (py - y).toNat)
    (by omega) (by omega) (by omega)
  rw [hPx] at hOnRow
  rw [hPy] at hOnCol
  rw [hOnRow, hOnCol]

/-- Two objects one over the other and partly outside the photo, the upper one
with transparent pixels; the lines start in front of the photo and above it. -/
theorem fillBuffers_agree_overlap :
    let view : Photo := ⟨330, 210, fun i => UInt8.ofNat (i % 251)⟩
    let contents : List Placed :=
      [⟨300, 190, ⟨60, 40, fun _ => 7⟩⟩,
        ⟨310, 200, ⟨9, 9, fun i => if i % 2 = 0 then objClrTransp else 9⟩⟩]
    fillHorizBuffer (-5) 203 view contents (312 - -5 : Int).toNat =
      fillVertBuffer 312 40 view contents (203 - 40 : Int).toNat :=
  fillBuffers_agree _ _ (by decide) (by decide) (by decide) (by decide)

end CompE.Adventure
