import CompE.Adventure.Photo
import CompE.Library.Writes

/-!
# The build buffer of mode X

The view is drawn into a buffer of four planes, one for each column modulo 4,
highest first.  The buffer has room for the view to move before it has to be
put back into the middle, and `img3_off` is where pixel (0,0) of the map would
be.  Addresses are relative to the start of the buffer behind its fence.

The pixels of a view have different addresses (`pixelAddr_inj`), drawing a line
changes its pixels only, so that a window may be drawn by columns or by rows
(`columns_eq_rows`), and moving the view keeps the pixels that stay in it
(`setViewWindow_pixel`).
-/

namespace CompE.Adventure

open CompE.Library.Writes

/-- `SCROLL_X_WIDTH`. -/
def scrollXWidth : Int := 80

/-- `SCROLL_SIZE`. -/
def scrollSize : Int := 16000

/-- `BUILD_BUF_SIZE`. -/
def buildBufSize : Int := 84001

/-- `BUILD_BASE_INIT`. -/
def buildBaseInit : Int := 10000

/-- The variables of `modex.c`.  `img3` always is at `img3_off`. -/
structure ModeX where
  build : Memory UInt8
  img3Off : Int
  showX : Int
  showY : Int

namespace ModeX

/-- The new view fits into the buffer where it is. -/
def fits (img3Off scrX scrY : Int) : Prop :=
  img3Off + scrX / 4 + scrY * scrollXWidth ≥ 0 ∧
    img3Off + 3 * scrollSize + (scrX + scrollXDim - 1) / 4 +
      (scrY + scrollYDim - 1) * scrollXWidth < buildBufSize

instance (img3Off scrX scrY : Int) : Decidable (fits img3Off scrX scrY) :=
  inferInstanceAs (Decidable (_ ∧ _))

/-- The new view has no pixel of the old one. -/
def apart (oldX oldY scrX scrY : Int) : Prop :=
  scrX ≤ oldX - scrollXDim ∨ scrX ≥ oldX + scrollXDim ∨
    scrY ≤ oldY - scrollYDim ∨ scrY ≥ oldY + scrollYDim

instance (oldX oldY scrX scrY : Int) : Decidable (apart oldX oldY scrX scrY) :=
  inferInstanceAs (Decidable (_ ∨ _))

/-- `img3_off` with the view in the middle of the buffer. -/
def middleOff (scrX scrY : Int) : Int :=
  buildBaseInit - scrX / 4 - scrY * scrollXWidth

/-- `set_view_window`.  `x >> 2` rounds down, as `/` does here. -/
def setViewWindow (v : ModeX) (scrX scrY : Int) : ModeX :=
  if fits v.img3Off scrX scrY then { v with showX := scrX, showY := scrY }
  else if apart v.showX v.showY scrX scrY then
    { v with
      img3Off := middleOff scrX scrY
      showX := scrX
      showY := scrY }
  else
    let startX := if scrX > v.showX then scrX else v.showX
    let endX := (if scrX > v.showX then v.showX else scrX) + scrollXDim - 1
    let startY := if scrY > v.showY then scrY else v.showY
    let endY := (if scrY > v.showY then v.showY else scrY) + scrollYDim - 1
    let startOff := startX / 4 + startY * scrollXWidth
    let length := endX / 4 + endY * scrollXWidth + 1 - startOff + 3 * scrollSize
    let startAddr := v.img3Off + startOff
    let targetAddr := middleOff scrX scrY + startOff
    { build :=
        if startAddr < targetAddr then
          copyDown startAddr targetAddr length.toNat v.build
        else copyUp startAddr targetAddr length.toNat v.build
      img3Off := middleOff scrX scrY
      showX := scrX
      showY := scrY }

/-- `draw_vert_line`; `line` is `vert_line_fn`. -/
def drawVertLine (line : Int → Int → Line) (v : ModeX) (x : Int) : ModeX :=
  if x < 0 ∨ x ≥ scrollXDim then v
  else
    let buf := line (x + v.showX) v.showY
    let addr := v.img3Off + (x + v.showX) / 4 + v.showY * scrollXWidth
    let pOff := 3 - (x + v.showX) % 4
    { v with
      build := writeAll (fun i => addr + i * scrollXWidth + pOff * scrollSize) buf
        scrollYDim v.build }

/-- The loop of `draw_horiz_line`, with `addr` and `p_off` before it and what
they are after `n` pixels. -/
def horizLoop (buf : Line) (addr pOff : Int) (build : Memory UInt8) :
    Nat → Memory UInt8 × Int × Int
  | 0 => (build, addr, pOff)
  | n + 1 =>
      let (build, addr, pOff) := horizLoop buf addr pOff build n
      let build := Function.update build (addr + pOff * scrollSize) (buf n)
      if pOff - 1 < 0 then (build, addr + 1, 3) else (build, addr, pOff - 1)

/-- `draw_horiz_line`; `line` is `horiz_line_fn`. -/
def drawHorizLine (line : Int → Int → Line) (v : ModeX) (y : Int) : ModeX :=
  if y < 0 ∨ y ≥ scrollYDim then v
  else
    let buf := line v.showX (y + v.showY)
    let addr := v.img3Off + v.showX / 4 + (y + v.showY) * scrollXWidth
    let pOff := 3 - v.showX % 4
    { v with build := (horizLoop buf addr pOff v.build scrollXDim).1 }

/-! ## The address of a pixel -/

/-- The address of a pixel of the map. -/
def pixelAddr (img3Off px py : Int) : Int :=
  img3Off + px / 4 + py * scrollXWidth + (3 - px % 4) * scrollSize

/-- The pixel is in the view. -/
def InView (v : ModeX) (px py : Int) : Prop :=
  v.showX ≤ px ∧ px < v.showX + scrollXDim ∧ v.showY ≤ py ∧
    py < v.showY + scrollYDim

/-- Pixels of one plane lie within 80 bytes of a row. -/
theorem pixelAddr_inj_plane {a b c d : Int} (hCol : c < a + 80 ∧ a < c + 80)
    (hEq : a + b * scrollXWidth = c + d * scrollXWidth) : a = c ∧ b = d := by
  rw [scrollXWidth] at hEq
  omega

private theorem pixelAddr_inj {v : ModeX} {px py px' py' : Int} (h : v.InView px py)
    (h' : v.InView px' py')
    (hEq : pixelAddr v.img3Off px py = pixelAddr v.img3Off px' py') :
    px = px' ∧ py = py' := by
  simp only [InView, scrollXDim, scrollYDim] at h h'
  simp only [pixelAddr, scrollSize] at hEq
  have hPlane : px % 4 = px' % 4 := by
    simp only [scrollXWidth] at hEq
    have hr : px % 4 = 0 ∨ px % 4 = 1 ∨ px % 4 = 2 ∨ px % 4 = 3 := by omega
    have hr' : px' % 4 = 0 ∨ px' % 4 = 1 ∨ px' % 4 = 2 ∨ px' % 4 = 3 := by omega
    rcases hr with hr | hr | hr | hr <;> rcases hr' with hr' | hr' | hr' | hr' <;>
      omega
  rw [hPlane] at hEq
  have hPlace : px / 4 = px' / 4 ∧ py = py' := by
    apply pixelAddr_inj_plane
    · omega
    · omega
  omega

/-- A pixel of the map as the buffer has it. -/
def pixel (v : ModeX) (px py : Int) : UInt8 :=
  v.build (pixelAddr v.img3Off px py)

/-! ## Lines -/

/-- After `n` pixels `addr` and `p_off` are those of the next one. -/
theorem horizLoop_eq (buf : Line) (img3Off px py : Int) (build : Memory UInt8)
    (n : Nat) :
    horizLoop buf (img3Off + px / 4 + py * scrollXWidth) (3 - px % 4) build n =
      (writeAll (fun i => pixelAddr img3Off (px + i) py) buf n build,
        img3Off + (px + n) / 4 + py * scrollXWidth, 3 - (px + n) % 4) := by
  induction n with
  | zero => simp [horizLoop, writeAll]
  | succ n ih =>
      have hAddr : img3Off + (px + n) / 4 + py * scrollXWidth +
          (3 - (px + n) % 4) * scrollSize = pixelAddr img3Off (px + n) py := rfl
      rw [horizLoop, ih]
      simp only [hAddr, writeAll]
      by_cases hCarry : 3 - (px + n) % 4 - 1 < 0
      · rw [if_pos hCarry]
        refine Prod.ext rfl (Prod.ext ?_ ?_)
        · simp only []
          omega
        · simp only []
          omega
      · rw [if_neg hCarry]
        refine Prod.ext rfl (Prod.ext ?_ ?_)
        · simp only []
          omega
        · simp only []
          omega

/-- Of a loop that writes different pixels of the view, each is written and no
other is. -/
theorem writeAll_pixels {v : ModeX} {qx qy : Nat → Int} {n : Nat} (buf : Line)
    (hView : ∀ i, i < n → v.InView (qx i) (qy i))
    (hApart : ∀ i j, qx i = qx j → qy i = qy j → i = j) :
    (∀ j, j < n → writeAll (fun i => pixelAddr v.img3Off (qx i) (qy i)) buf n v.build
        (pixelAddr v.img3Off (qx j) (qy j)) = buf j) ∧
      ∀ px py, v.InView px py → (∀ i, i < n → ¬ (qx i = px ∧ qy i = py)) →
        writeAll (fun i => pixelAddr v.img3Off (qx i) (qy i)) buf n v.build
          (pixelAddr v.img3Off px py) = v.pixel px py := by
  constructor
  · intro j hj
    apply writeAll_self _ _ hj
    intro i hi hEq
    have hSame := pixelAddr_inj (hView i hi) (hView j hj) hEq
    exact hApart i j hSame.1 hSame.2
  · intro px py hIn hOther
    apply writeAll_of_ne
    intro i hi hEq
    exact hOther i hi (pixelAddr_inj (hView i hi) hIn hEq)

section Lines

variable (line : Int → Int → Line) (v : ModeX)

theorem drawHorizLine_of_valid {y : Int} (hLow : 0 ≤ y) (hHigh : y < scrollYDim) :
    v.drawHorizLine line y =
      { v with
        build := writeAll (fun i => pixelAddr v.img3Off (v.showX + i) (y + v.showY))
          (line v.showX (y + v.showY)) scrollXDim v.build } := by
  rw [drawHorizLine, if_neg (by omega)]
  simp only [horizLoop_eq]

private theorem drawVertLine_of_valid {x : Int} (hLow : 0 ≤ x) (hHigh : x < scrollXDim) :
    v.drawVertLine line x =
      { v with
        build := writeAll (fun i => pixelAddr v.img3Off (x + v.showX) (v.showY + i))
          (line (x + v.showX) v.showY) scrollYDim v.build } := by
  have hAddr : ∀ i : Nat, v.img3Off + (x + v.showX) / 4 + v.showY * scrollXWidth +
      i * scrollXWidth + (3 - (x + v.showX) % 4) * scrollSize =
        pixelAddr v.img3Off (x + v.showX) (v.showY + i) := by
    intro i
    rw [pixelAddr, Int.add_mul]
    omega
  rw [drawVertLine, if_neg (by omega)]
  simp only [hAddr]

/-- A line leaves the view where it is. -/
@[simp] theorem drawHorizLine_frame (y : Int) :
    (v.drawHorizLine line y).img3Off = v.img3Off ∧
      (v.drawHorizLine line y).showX = v.showX ∧
      (v.drawHorizLine line y).showY = v.showY := by
  rw [drawHorizLine]
  split
  · exact ⟨rfl, rfl, rfl⟩
  · exact ⟨rfl, rfl, rfl⟩

@[simp] theorem drawVertLine_frame (x : Int) :
    (v.drawVertLine line x).img3Off = v.img3Off ∧
      (v.drawVertLine line x).showX = v.showX ∧
      (v.drawVertLine line x).showY = v.showY := by
  rw [drawVertLine]
  split
  · exact ⟨rfl, rfl, rfl⟩
  · exact ⟨rfl, rfl, rfl⟩

variable {v}

/-- A horizontal line has the pixels of its row and no others. -/
theorem drawHorizLine_pixel {px py : Int} (h : v.InView px py) (y : Int) :
    (v.drawHorizLine line y).pixel px py =
      if py = y + v.showY then line v.showX py (px - v.showX).toNat
      else v.pixel px py := by
  have hView := h
  obtain ⟨hLeft, hRight, hTop, hBottom⟩ := h
  by_cases hValid : 0 ≤ y ∧ y < scrollYDim
  · rw [drawHorizLine_of_valid line v hValid.1 hValid.2]
    have hWritten := @writeAll_pixels v (fun i => v.showX + i)
      (fun _ => y + v.showY) scrollXDim (line v.showX (y + v.showY))
      (fun i hi => ⟨by omega, by omega, by omega, by omega⟩)
      (fun i j hX _ => by omega)
    by_cases hRow : py = y + v.showY
    · have hCol : v.showX + ((px - v.showX).toNat : Int) = px := by omega
      have hPixel := hWritten.1 (px - v.showX).toNat (by omega)
      rw [if_pos hRow]
      rw [hCol, ← hRow] at hPixel
      rw [← hRow]
      exact hPixel
    · rw [if_neg hRow]
      apply hWritten.2 px py hView
      intro i _ hEq
      exact hRow hEq.2.symm
  · rw [drawHorizLine, if_pos (by omega), if_neg (by omega)]

/-- A vertical line has the pixels of its column and no others. -/
theorem drawVertLine_pixel {px py : Int} (h : v.InView px py) (x : Int) :
    (v.drawVertLine line x).pixel px py =
      if px = x + v.showX then line px v.showY (py - v.showY).toNat
      else v.pixel px py := by
  have hView := h
  obtain ⟨hLeft, hRight, hTop, hBottom⟩ := h
  by_cases hValid : 0 ≤ x ∧ x < scrollXDim
  · rw [drawVertLine_of_valid line v hValid.1 hValid.2]
    have hWritten := @writeAll_pixels v (fun _ => x + v.showX)
      (fun i => v.showY + i) scrollYDim (line (x + v.showX) v.showY)
      (fun i hi => ⟨by omega, by omega, by omega, by omega⟩)
      (fun i j _ hY => by omega)
    by_cases hCol : px = x + v.showX
    · have hRow : v.showY + ((py - v.showY).toNat : Int) = py := by omega
      have hPixel := hWritten.1 (py - v.showY).toNat (by omega)
      rw [if_pos hCol]
      rw [hRow, ← hCol] at hPixel
      rw [← hCol]
      exact hPixel
    · rw [if_neg hCol]
      apply hWritten.2 px py hView
      intro i _ hEq
      exact hCol hEq.1.symm
  · rw [drawVertLine, if_pos (by omega), if_neg (by omega)]

end Lines

section AllLines

variable {draw : ModeX → Int → ModeX}
  (hFrame : ∀ v i, (draw v i).img3Off = v.img3Off ∧ (draw v i).showX = v.showX ∧
    (draw v i).showY = v.showY)

include hFrame

/-- Lines leave the view where it is. -/
theorem foldl_frame (lines : List Int) (v : ModeX) :
    (lines.foldl draw v).img3Off = v.img3Off ∧
      (lines.foldl draw v).showX = v.showX ∧
      (lines.foldl draw v).showY = v.showY := by
  induction lines generalizing v with
  | nil => exact ⟨rfl, rfl, rfl⟩
  | cons i lines ih =>
      have hLine := hFrame v i
      have hRest := ih (draw v i)
      rw [hLine.1, hLine.2.1, hLine.2.2] at hRest
      exact hRest

/-- A pixel that only one line draws has its value once that line has been
drawn. -/
theorem foldl_pixel {showX showY px py line : Int} {c : UInt8}
    (hDraw : ∀ v i, v.showX = showX → v.showY = showY →
      (draw v i).pixel px py = if i = line then c else v.pixel px py)
    {v : ModeX} (hShowX : v.showX = showX) (hShowY : v.showY = showY)
    {lines : List Int} (hLine : v.pixel px py = c ∨ line ∈ lines) :
    (lines.foldl draw v).pixel px py = c := by
  induction lines generalizing v with
  | nil => exact hLine.resolve_right List.not_mem_nil
  | cons i lines ih =>
      have hSame := hFrame v i
      apply ih (hSame.2.1.trans hShowX) (hSame.2.2.trans hShowY)
      rw [hDraw v i hShowX hShowY]
      by_cases hNow : i = line
      · left
        rw [if_pos hNow]
      · rw [if_neg hNow]
        apply hLine.imp_right
        intro hMem
        exact (List.mem_cons.mp hMem).resolve_left fun hEq => hNow hEq.symm

end AllLines

section AllLines

variable (line : Int → Int → Line) {v : ModeX} {px py : Int}

/-- Rows give a pixel what its row has there. -/
theorem rows_pixel (h : v.InView px py) {rows : List Int} {c : UInt8}
    (hValue : line v.showX py (px - v.showX).toNat = c)
    (hRow : v.pixel px py = c ∨ py - v.showY ∈ rows) :
    (rows.foldl (drawHorizLine line) v).pixel px py = c := by
  have hView := h
  rw [InView] at hView
  apply foldl_pixel (drawHorizLine_frame line) _ rfl rfl hRow
  intro w y hShowX hShowY
  have hThere : w.InView px py := by
    rw [InView, hShowX, hShowY]
    exact hView
  rw [drawHorizLine_pixel line hThere, hShowX, hShowY, hValue]
  have hSame : py = y + v.showY ↔ y = py - v.showY := by omega
  simp only [hSame]

/-- Columns give a pixel what its column has there. -/
theorem columns_pixel (h : v.InView px py) {columns : List Int} {c : UInt8}
    (hValue : line px v.showY (py - v.showY).toNat = c)
    (hColumn : v.pixel px py = c ∨ px - v.showX ∈ columns) :
    (columns.foldl (drawVertLine line) v).pixel px py = c := by
  have hView := h
  rw [InView] at hView
  apply foldl_pixel (drawVertLine_frame line) _ rfl rfl hColumn
  intro w x hShowX hShowY
  have hThere : w.InView px py := by
    rw [InView, hShowX, hShowY]
    exact hView
  rw [drawVertLine_pixel line hThere, hShowX, hShowY, hValue]
  have hSame : px = x + v.showX ↔ x = px - v.showX := by omega
  simp only [hSame]

end AllLines

/-- **Columns and rows.**  If the two callbacks agree on the window, all of its
columns leave the same pixels as all of its rows, in whatever order the lines
are drawn and wherever the window is; and each pixel has a byte of its own. -/
theorem columns_eq_rows (v : ModeX) (horizLine vertLine : Int → Int → Line)
    (hAgree : ∀ i j : Nat, i < scrollXDim → j < scrollYDim →
      horizLine v.showX (v.showY + j) i = vertLine (v.showX + i) v.showY j)
    (columns rows : List Int)
    (hColumns : ∀ x : Int, 0 ≤ x → x < scrollXDim → x ∈ columns)
    (hRows : ∀ y : Int, 0 ≤ y → y < scrollYDim → y ∈ rows) :
    (∀ px py, v.InView px py →
      (columns.foldl (drawVertLine vertLine) v).build (pixelAddr v.img3Off px py) =
        (rows.foldl (drawHorizLine horizLine) v).build (pixelAddr v.img3Off px py)) ∧
    (∀ px py px' py', v.InView px py → v.InView px' py' →
      pixelAddr v.img3Off px py = pixelAddr v.img3Off px' py' →
        px = px' ∧ py = py') := by
  constructor
  · intro px py hView
    have hRange := hView
    rw [InView] at hRange
    have hCol : v.showX + ((px - v.showX).toNat : Int) = px := by omega
    have hRow : v.showY + ((py - v.showY).toNat : Int) = py := by omega
    have hValue := hAgree (px - v.showX).toNat (py - v.showY).toNat (by omega)
      (by omega)
    rw [hCol, hRow] at hValue
    have hByColumns := columns_pixel vertLine hView rfl
      (Or.inr (hColumns _ (by omega) (by omega)))
    have hByRows := rows_pixel horizLine hView hValue
      (Or.inr (hRows _ (by omega) (by omega)))
    have hColumnsOff := (foldl_frame (drawVertLine_frame vertLine) columns v).1
    have hRowsOff := (foldl_frame (drawHorizLine_frame horizLine) rows v).1
    rw [pixel, hColumnsOff] at hByColumns
    rw [pixel, hRowsOff] at hByRows
    rw [hByColumns, hByRows]
  · intro px py px' py' hView hView' hEq
    exact pixelAddr_inj hView hView' hEq

/-- A window that starts in plane 3 of the buffer, columns from the right. -/
theorem columns_eq_rows_reversed :
    let v : ModeX := ⟨fun _ => 0, buildBaseInit, 7, 3⟩
    let horizLine : Int → Int → Line := fun x y i => UInt8.ofNat (x + i + 2 * y).toNat
    let vertLine : Int → Int → Line := fun x y j => UInt8.ofNat (x + 2 * (y + j)).toNat
    let columns := (List.range 320).reverse.map Int.ofNat
    let rows := (List.range 200).map Int.ofNat
    (∀ px py, v.InView px py →
      (columns.foldl (drawVertLine vertLine) v).build (pixelAddr v.img3Off px py) =
        (rows.foldl (drawHorizLine horizLine) v).build (pixelAddr v.img3Off px py)) ∧
    (∀ px py px' py', v.InView px py → v.InView px' py' →
      pixelAddr v.img3Off px py = pixelAddr v.img3Off px' py' →
        px = px' ∧ py = py') := by
  apply columns_eq_rows
  · intro i j _ _
    rfl
  · intro x hLow hHigh
    have hDim : scrollXDim = 320 := rfl
    rw [List.mem_map]
    refine ⟨x.toNat, ?_, Int.toNat_of_nonneg hLow⟩
    rw [List.mem_reverse, List.mem_range]
    omega
  · intro y hLow hHigh
    have hDim : scrollYDim = 200 := rfl
    rw [List.mem_map]
    refine ⟨y.toNat, ?_, Int.toNat_of_nonneg hLow⟩
    rw [List.mem_range]
    omega

/-! ## Moving the view -/

@[simp] theorem setViewWindow_showX (v : ModeX) (scrX scrY : Int) :
    (v.setViewWindow scrX scrY).showX = scrX := by
  rw [setViewWindow]
  split
  · rfl
  · split
    · rfl
    · rfl

@[simp] theorem setViewWindow_showY (v : ModeX) (scrX scrY : Int) :
    (v.setViewWindow scrX scrY).showY = scrY := by
  rw [setViewWindow]
  split
  · rfl
  · split
    · rfl
    · rfl

/-- A block that is copied in the right direction, whichever that is. -/
theorem copy_apply (start target a : Int) (n : Nat) (m : Memory UInt8)
    (hLow : start ≤ a) (hHigh : a < start + n) :
    (if start < target then copyDown start target n m
      else copyUp start target n m) (target - start + a) = m a := by
  have hBack : start + (target - start + a - target) = a := by omega
  by_cases hUp : start < target
  · rw [if_pos hUp, copyDown_apply (by omega), if_pos (by omega), hBack]
  · rw [if_neg hUp, copyUp_apply (by omega), if_pos (by omega), hBack]

/-- A pixel between two corners lies in the block from one to the other. -/
theorem pixelAddr_between {img3Off px py startX startY endX endY : Int}
    (hStart : startX ≤ px ∧ startY ≤ py) (hEnd : px ≤ endX ∧ py ≤ endY) :
    img3Off + (startX / 4 + startY * scrollXWidth) ≤ pixelAddr img3Off px py ∧
      pixelAddr img3Off px py ≤
        img3Off + (endX / 4 + endY * scrollXWidth + 3 * scrollSize) := by
  simp only [pixelAddr, scrollXWidth, scrollSize]
  omega

/-- The pixels that stay in the view keep their values. -/
theorem setViewWindow_pixel {v : ModeX} {scrX scrY px py : Int}
    (hOld : v.InView px py) (hNew : (v.setViewWindow scrX scrY).InView px py) :
    (v.setViewWindow scrX scrY).pixel px py = v.pixel px py := by
  simp only [InView, setViewWindow_showX, setViewWindow_showY] at hOld hNew
  rw [setViewWindow]
  split
  · rfl
  · split
    · next hApart =>
        rw [apart] at hApart
        omega
    · next hNear =>
        generalize hStartX : (if scrX > v.showX then scrX else v.showX) = startX
        generalize hEndX : (if scrX > v.showX then v.showX else scrX) +
          scrollXDim - 1 = endX
        generalize hStartY : (if scrY > v.showY then scrY else v.showY) = startY
        generalize hEndY : (if scrY > v.showY then v.showY else scrY) +
          scrollYDim - 1 = endY
        have hCol : startX ≤ px ∧ px ≤ endX := by
          subst hStartX hEndX
          split
          · omega
          · omega
        have hRow : startY ≤ py ∧ py ≤ endY := by
          subst hStartY hEndY
          split
          · omega
          · omega
        have hBlock := @pixelAddr_between v.img3Off _ _ _ _ _ _
          ⟨hCol.1, hRow.1⟩ ⟨hCol.2, hRow.2⟩
        have hMoved : pixelAddr (middleOff scrX scrY) px py =
            middleOff scrX scrY + (startX / 4 + startY * scrollXWidth) -
              (v.img3Off + (startX / 4 + startY * scrollXWidth)) +
                pixelAddr v.img3Off px py := by
          simp only [pixelAddr]
          omega
        simp only [pixel]
        rw [hMoved]
        apply copy_apply
        · exact hBlock.1
        · omega

end ModeX

end CompE.Adventure
