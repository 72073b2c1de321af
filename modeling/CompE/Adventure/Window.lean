import CompE.Adventure.Display

/-!
# The view stays in the build buffer

The build buffer lies between two fences that nothing may write to.  The window
always is where `set_view_window` found that it fits (`Fitted`), or in the
middle of the buffer, where any window fits.  From that follow the places of
all pixels, of what `show_screen` reads and of the block that is relocated; so
`clear_mode_X` finds the fences as `set_mode_X` has left them.
-/

namespace CompE.Adventure

open CompE.Library.Writes

namespace ModeX

/-- An address between the fences. -/
def InBuffer (a : Int) : Prop := 0 ≤ a ∧ a < buildBufSize

/-- The address that `draw_vert_line` writes to in round `i` of its loop. -/
def vertAddr (v : ModeX) (x : Int) (i : Nat) : Int :=
  v.img3Off + (x + v.showX) / 4 + v.showY * scrollXWidth + i * scrollXWidth +
    (3 - (x + v.showX) % 4) * scrollSize

/-- The address that `draw_horiz_line` writes to in round `i` of its loop: what
`addr` and `p_off` are then does not depend on what is drawn. -/
def horizAddr (v : ModeX) (y : Int) (i : Nat) : Int :=
  let (_, addr, pOff) :=
    horizLoop (fun _ => 0) (v.img3Off + v.showX / 4 + (y + v.showY) * scrollXWidth)
      (3 - v.showX % 4) v.build i
  addr + pOff * scrollSize

/-- The addresses of the build buffer that drawing and showing a window use. -/
inductive Uses (v : ModeX) : Int → Prop where
  | vertLine {x : Int} {i : Nat} (hLow : 0 ≤ x) (hHigh : x < scrollXDim)
      (hRound : i < scrollYDim) : Uses v (vertAddr v x i)
  | horizLine {y : Int} {i : Nat} (hLow : 0 ≤ y) (hHigh : y < scrollYDim)
      (hRound : i < scrollXDim) : Uses v (horizAddr v y i)
  | screen {plane k : Nat} (hPlane : plane < 4) (hByte : k < 14560) :
      Uses v (Display.planeSource v plane + k)

/-- The start, the target and the length of what `set_view_window` copies, if it
copies anything. -/
def relocation (v : ModeX) (scrX scrY : Int) : Option (Int × Int × Nat) :=
  if fits v.img3Off scrX scrY then none
  else if apart v.showX v.showY scrX scrY then none
  else
    let startX := if scrX > v.showX then scrX else v.showX
    let endX := (if scrX > v.showX then v.showX else scrX) + scrollXDim - 1
    let startY := if scrY > v.showY then scrY else v.showY
    let endY := (if scrY > v.showY then v.showY else scrY) + scrollYDim - 1
    let startOff := startX / 4 + startY * scrollXWidth
    let length := endX / 4 + endY * scrollXWidth + 1 - startOff + 3 * scrollSize
    some (v.img3Off + startOff, middleOff scrX scrY + startOff, length.toNat)

/-! ## The addresses are those of the code -/

private theorem drawVertLine_writes (line : Int → Int → Line) (v : ModeX) {x : Int}
    (hLow : 0 ≤ x) (hHigh : x < scrollXDim) :
    v.drawVertLine line x =
      { v with
        build := writeAll (vertAddr v x) (line (x + v.showX) v.showY) scrollYDim
          v.build } := by
  rw [drawVertLine, if_neg (by omega)]
  rfl

private theorem horizAddr_eq (v : ModeX) (y : Int) (i : Nat) :
    horizAddr v y i = pixelAddr v.img3Off (v.showX + i) (y + v.showY) := by
  rw [horizAddr, horizLoop_eq]
  rfl

private theorem drawHorizLine_writes (line : Int → Int → Line) (v : ModeX) {y : Int}
    (hLow : 0 ≤ y) (hHigh : y < scrollYDim) :
    v.drawHorizLine line y =
      { v with
        build := writeAll (horizAddr v y) (line v.showX (y + v.showY)) scrollXDim
          v.build } := by
  have hAddr : horizAddr v y =
      fun i : Nat => pixelAddr v.img3Off (v.showX + i) (y + v.showY) := by
    funext i
    exact horizAddr_eq v y i
  rw [drawHorizLine_of_valid line v hLow hHigh, hAddr]

private theorem setViewWindow_build (v : ModeX) (scrX scrY : Int) :
    (v.setViewWindow scrX scrY).build =
      match relocation v scrX scrY with
      | none => v.build
      | some (start, target, length) =>
          if start < target then copyDown start target length v.build
          else copyUp start target length v.build := by
  rw [setViewWindow, relocation]
  split
  · rfl
  · split
    · rfl
    · rfl

/-! ## The window fits -/

/-- The window is where it fits. -/
def Fitted (v : ModeX) : Prop := fits v.img3Off v.showX v.showY

/-- Any window fits into the middle of the buffer. -/
theorem middleOff_fits (scrX scrY : Int) : fits (middleOff scrX scrY) scrX scrY := by
  simp only [fits, middleOff, buildBaseInit, buildBufSize, scrollSize, scrollXWidth,
    scrollXDim, scrollYDim]
  omega

private theorem setViewWindow_fitted (v : ModeX) (scrX scrY : Int) :
    Fitted (v.setViewWindow scrX scrY) := by
  rw [setViewWindow]
  split
  · next hFits => exact hFits
  · split
    · exact middleOff_fits scrX scrY
    · exact middleOff_fits scrX scrY

/-- All pixels of a window that fits lie between the fences. -/
theorem pixelAddr_inBuffer {v : ModeX} (h : Fitted v) {px py : Int}
    (hView : v.InView px py) : InBuffer (pixelAddr v.img3Off px py) := by
  simp only [Fitted, fits, buildBufSize, scrollSize, scrollXWidth, scrollXDim,
    scrollYDim] at h
  simp only [InView, scrollXDim, scrollYDim] at hView
  simp only [InBuffer, pixelAddr, buildBufSize, scrollSize, scrollXWidth]
  omega

/-- Byte `k` of a plane is pixel `4 * (k % 80)`, plus the plane, of row `k / 80`. -/
theorem uses_inBuffer {v : ModeX} (h : Fitted v) {a : Int} (hUses : Uses v a) :
    InBuffer a := by
  cases hUses with
  | @vertLine x i hLow hHigh hRound =>
      have hAddr : vertAddr v x i = pixelAddr v.img3Off (x + v.showX) (v.showY + i) := by
        rw [vertAddr, pixelAddr, Int.add_mul]
        omega
      rw [hAddr]
      apply pixelAddr_inBuffer h
      exact ⟨by omega, by omega, by omega, by omega⟩
  | @horizLine y i hLow hHigh hRound =>
      rw [horizAddr_eq]
      apply pixelAddr_inBuffer h
      exact ⟨by omega, by omega, by omega, by omega⟩
  | @screen plane k hPlane hByte =>
      have hPixel := Display.planeSource_pixelAddr v (4 * (k % 80) + plane) (k / 80)
      have hColumn : (4 * (k % 80) + plane) % 4 = plane := by omega
      have hOffset : ((k / 80 : Nat) : Int) * scrollXWidth +
          ((4 * (k % 80) + plane) / 4 : Nat) = k := by
        simp only [scrollXWidth]
        omega
      rw [hColumn, hOffset] at hPixel
      rw [hPixel]
      apply pixelAddr_inBuffer h
      have hWidth : scrollXDim = 320 := rfl
      have hHeight : scrollYDim = 200 := rfl
      exact ⟨by omega, by omega, by omega, by omega⟩

private theorem larger_eq (a b : Int) : (if a > b then a else b) = max a b := by
  split
  · omega
  · omega

private theorem smaller_eq (a b : Int) : (if a > b then b else a) = min a b := by
  split
  · omega
  · omega

/-- What is relocated lies in both windows, so between the fences before and
after. -/
theorem relocation_inBuffer {v : ModeX} (h : Fitted v) {scrX scrY start target : Int}
    {length : Nat} (hMove : relocation v scrX scrY = some (start, target, length))
    {k : Nat} (hByte : k < length) : InBuffer (start + k) ∧ InBuffer (target + k) := by
  rw [relocation] at hMove
  split at hMove
  · exact nomatch hMove
  · split at hMove
    · exact nomatch hMove
    · next hNear =>
        have hNew := middleOff_fits scrX scrY
        simp only [Fitted, fits, apart, buildBufSize, scrollSize, scrollXWidth,
          scrollXDim, scrollYDim] at h hNew hNear
        simp only [Option.some.injEq, Prod.mk.injEq, larger_eq, smaller_eq,
          scrollSize, scrollXWidth, scrollXDim, scrollYDim] at hMove
        obtain ⟨hStart, hTarget, hLength⟩ := hMove
        subst hStart hTarget hLength
        simp only [InBuffer, buildBufSize]
        omega

/-- A relocation writes between the fences only. -/
theorem setViewWindow_outside {v : ModeX} (h : Fitted v) (scrX scrY : Int) {a : Int}
    (hOut : ¬ InBuffer a) : (v.setViewWindow scrX scrY).build a = v.build a := by
  rw [setViewWindow_build]
  cases hMove : relocation v scrX scrY with
  | none => rfl
  | some block =>
      obtain ⟨start, target, length⟩ := block
      have hBeside : ¬ (target ≤ a ∧ a < target + length) := by
        intro hIn
        have hByte := relocation_inBuffer h hMove (k := (a - target).toNat) (by omega)
        have hPlace : target + ((a - target).toNat : Int) = a := by omega
        rw [hPlace] at hByte
        exact hOut hByte.2
      show (if start < target then copyDown start target length v.build
        else copyUp start target length v.build) a = v.build a
      by_cases hDown : start < target
      · rw [if_pos hDown, copyDown_apply (by omega), if_neg hBeside]
      · rw [if_neg hDown, copyUp_apply (by omega), if_neg hBeside]

/-- So do lines. -/
theorem drawVertLine_outside {v : ModeX} (h : Fitted v) (line : Int → Int → Line)
    (x : Int) {a : Int} (hOut : ¬ InBuffer a) :
    (v.drawVertLine line x).build a = v.build a := by
  by_cases hColumn : 0 ≤ x ∧ x < scrollXDim
  · rw [drawVertLine_writes line v hColumn.1 hColumn.2]
    apply writeAll_of_ne
    intro i hi hEq
    have hUses : Uses v (vertAddr v x i) := .vertLine hColumn.1 hColumn.2 hi
    exact hOut (hEq ▸ uses_inBuffer h hUses)
  · rw [drawVertLine, if_pos (by omega)]

private theorem drawHorizLine_outside {v : ModeX} (h : Fitted v) (line : Int → Int → Line)
    (y : Int) {a : Int} (hOut : ¬ InBuffer a) :
    (v.drawHorizLine line y).build a = v.build a := by
  by_cases hRow : 0 ≤ y ∧ y < scrollYDim
  · rw [drawHorizLine_writes line v hRow.1 hRow.2]
    apply writeAll_of_ne
    intro i hi hEq
    have hUses : Uses v (horizAddr v y i) := .horizLine hRow.1 hRow.2 hi
    exact hOut (hEq ▸ uses_inBuffer h hUses)
  · rw [drawHorizLine, if_pos (by omega)]

/-- The offsets and places that `set_view_window` computes. -/
def windowValues (v : ModeX) (scrX scrY : Int) : List Int :=
  [v.img3Off + scrX / 4, v.img3Off + scrX / 4 + scrY * scrollXWidth,
    v.img3Off + 3 * scrollSize + (scrX + scrollXDim - 1) / 4,
    v.img3Off + 3 * scrollSize + (scrX + scrollXDim - 1) / 4 +
      (scrY + scrollYDim - 1) * scrollXWidth,
    v.img3Off, middleOff scrX scrY, scrX / 4 + scrY * scrollXWidth,
    v.showX / 4 + v.showY * scrollXWidth,
    (v.showX + scrollXDim - 1) / 4 + (v.showY + scrollYDim - 1) * scrollXWidth,
    (scrX + scrollXDim - 1) / 4 + (scrY + scrollYDim - 1) * scrollXWidth]

/-- A position that no addition of `set_view_window` takes out of an `int`. -/
def SmallPosition (x y : Int) : Prop :=
  0 ≤ x ∧ x < 2 ^ 24 ∧ 0 ≤ y ∧ y < 2 ^ 24

private theorem windowValues_int {v : ModeX} (h : Fitted v) {scrX scrY : Int}
    (hOld : SmallPosition v.showX v.showY) (hNew : SmallPosition scrX scrY) :
    ∀ value ∈ windowValues v scrX scrY, -2 ^ 31 ≤ value ∧ value < 2 ^ 31 := by
  simp only [Fitted, fits, buildBufSize, scrollSize, scrollXWidth, scrollXDim,
    scrollYDim] at h
  simp only [SmallPosition] at hOld hNew
  intro value hValue
  simp only [windowValues, List.mem_cons, List.not_mem_nil, or_false, middleOff,
    buildBaseInit, scrollSize, scrollXWidth, scrollXDim, scrollYDim] at hValue
  omega

end ModeX

/-! ## Runs -/

namespace Display

open ModeX

private theorem setModeX_fitted (d : Display) : Fitted d.setModeX.view := by
  change fits buildBaseInit 0 0
  decide

private theorem call_fitted {d : Display} (h : Fitted d.view) (c : Call) :
    Fitted (d.call c).view := by
  cases c with
  | setViewWindow scrX scrY => exact setViewWindow_fitted d.view scrX scrY
  | drawVertLine line x =>
      have hFrame := drawVertLine_frame line d.view x
      rw [Fitted, call, hFrame.1, hFrame.2.1, hFrame.2.2]
      exact h
  | drawHorizLine line y =>
      have hFrame := drawHorizLine_frame line d.view y
      rw [Fitted, call, hFrame.1, hFrame.2.1, hFrame.2.2]
      exact h
  | showScreen => exact h
  | showStatusBar statusBarBuf => exact h

private theorem run_fitted {d : Display} (h : Fitted d.view) (calls : List Call) :
    Fitted (d.run calls).view := by
  induction calls generalizing d with
  | nil => exact h
  | cons c calls ih => exact ih (call_fitted h c)

/-- Nothing is written outside of the buffer. -/
theorem call_outside {d : Display} (h : Fitted d.view) (c : Call) {a : Int}
    (hOut : ¬ InBuffer a) : (d.call c).view.build a = d.view.build a := by
  cases c with
  | setViewWindow scrX scrY => exact setViewWindow_outside h scrX scrY hOut
  | drawVertLine line x => exact drawVertLine_outside h line x hOut
  | drawHorizLine line y => exact drawHorizLine_outside h line y hOut
  | showScreen => rfl
  | showStatusBar statusBarBuf => rfl

private theorem run_outside {d : Display} (h : Fitted d.view) (calls : List Call) {a : Int}
    (hOut : ¬ InBuffer a) : (d.run calls).view.build a = d.view.build a := by
  induction calls generalizing d with
  | nil => rfl
  | cons c calls ih =>
      have hRest := ih (call_fitted h c)
      exact hRest.trans (call_outside h c hOut)

/-! ## The fences -/

/-- What `clear_mode_X` checks. -/
def FencesIntact (build : Memory UInt8) : Prop :=
  ∀ i : Nat, i < memFenceWidth →
    build ((i : Int) - memFenceWidth) = memFenceMagic ∧
      build (buildBufSize + i) = memFenceMagic

private theorem fencesIntact_run (d : Display) (calls : List Call) :
    FencesIntact (d.setModeX.run calls).view.build := by
  intro i hi
  have hWidth : memFenceWidth = 256 := rfl
  have hSize : buildBufSize = 84001 := rfl
  have hFitted := setModeX_fitted d
  have hLower : ¬ InBuffer ((i : Int) - memFenceWidth) := by
    rw [InBuffer]
    omega
  have hUpper : ¬ InBuffer (buildBufSize + i) := by
    rw [InBuffer]
    omega
  rw [run_outside hFitted calls hLower, run_outside hFitted calls hUpper]
  exact memFence_fence d.view.build (Nat.le_refl _) hi

/-- **Moving the window.**  After `set_mode_X` and any calls, wherever the window
is moved: it is there; what is used for it lies between the fences, and so does
what is relocated, all that the build buffer changes by; no byte outside of the
buffer is any other than after `set_mode_X`, and the fences are intact; and the
pixels that are in both windows keep their values.  From one small position to
another nothing leaves the range of an `int`. -/
theorem setViewWindow_safe (d : Display) (calls : List Call) (scrX scrY : Int) :
    let v := (d.setModeX.run calls).view
    let w := v.setViewWindow scrX scrY
    (w.showX = scrX ∧ w.showY = scrY) ∧
      (∀ a, Uses w a → InBuffer a) ∧
      (w.build =
        match relocation v scrX scrY with
        | none => v.build
        | some (start, target, length) =>
            if start < target then copyDown start target length v.build
            else copyUp start target length v.build) ∧
      (∀ start target length, relocation v scrX scrY = some (start, target, length) →
        ∀ k : Nat, k < length → InBuffer (start + k) ∧ InBuffer (target + k)) ∧
      (∀ a, ¬ InBuffer a → w.build a = d.setModeX.view.build a) ∧
      FencesIntact w.build ∧
      (∀ px py, v.InView px py → w.InView px py → w.pixel px py = v.pixel px py) ∧
      (SmallPosition v.showX v.showY → SmallPosition scrX scrY →
        ∀ value ∈ windowValues v scrX scrY, -2 ^ 31 ≤ value ∧ value < 2 ^ 31) := by
  intro v w
  have hFitted : Fitted v := run_fitted (setModeX_fitted d) calls
  have hMoved : Fitted w := setViewWindow_fitted v scrX scrY
  refine ⟨⟨setViewWindow_showX v scrX scrY, setViewWindow_showY v scrX scrY⟩, ?_,
    setViewWindow_build v scrX scrY, ?_, ?_, ?_, ?_, windowValues_int hFitted⟩
  · intro a hUses
    exact uses_inBuffer hMoved hUses
  · intro start target length hMove k hByte
    exact relocation_inBuffer hFitted hMove hByte
  · intro a hOut
    have hHere : w.build a = v.build a := setViewWindow_outside hFitted scrX scrY hOut
    exact hHere.trans (run_outside (setModeX_fitted d) calls hOut)
  · have hRun := fencesIntact_run d (calls ++ [.setViewWindow scrX scrY])
    rw [run, List.foldl_append] at hRun
    exact hRun
  · intro px py hOld hNew
    exact setViewWindow_pixel hOld hNew

end Display

end CompE.Adventure
