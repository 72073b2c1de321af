import CompE.Adventure.ModeX
import Mathlib.Order.CompletePartialOrder
import Mathlib.Tactic.IntervalCases

/-!
# The display of mode X

`show_screen` copies the view from the build buffer to one of two pages of video
memory and has the adapter display that page; `show_status_bar` copies the
status bar.  Plane `i` of video memory has the pixels of the columns that are
`i` modulo 4 on the screen, so which plane of the buffer goes there depends on
where the view starts.

`copy_image` copies 182 rows of the 200 (`showScreen_iff`), and one of the two
pages starts where the status bar is (`separate_iff`).
-/

namespace CompE.Adventure

open CompE.Library.Writes

/-- The variables of `modex.c`, video memory from `mem_image` on, plane by plane,
and the registers behind port 0x03D4. -/
structure Display where
  view : ModeX
  video : Nat → Memory UInt8
  targetImg : UInt16
  crtc : UInt8 → UInt8

namespace Display

/-- `MODE_X_MEM_SIZE`. -/
def modeXMemSize : Int := 65536

/-- `STATUS_BAR_SIZE`. -/
def statusBarSize : Nat := 1440

/-- `MEM_FENCE_WIDTH`, without `NDEBUG`. -/
def memFenceWidth : Nat := 256

/-- `MEM_FENCE_MAGIC`. -/
def memFenceMagic : UInt8 := 0xF3

/-- `mode_X_CRTC`. -/
def modeXCrtc : List UInt16 :=
  [0x5F00, 0x4F01, 0x5002, 0x8203, 0x5404, 0x8005, 0xBF06, 0x1F07,
    0x0008, 0x4109, 0x000A, 0x000B, 0x000C, 0x000D, 0x000E, 0x000F,
    0x9C10, 0x8E11, 0x8F12, 0x2813, 0x0014, 0x9615, 0xB916, 0xE317,
    0x6B18]

/-- `OUTW (0x03D4, val)`: a register in the low byte, its value in the high
one. -/
def outCrtc (crtc : UInt8 → UInt8) (val : UInt16) : UInt8 → UInt8 :=
  Function.update crtc val.toUInt8 (val >>> 8).toUInt8

/-- Where the adapter starts the picture. -/
def displayed (d : Display) : Int :=
  (d.crtc 0x0C).toNat * 256 + (d.crtc 0x0D).toNat

/-- The loop of `set_mode_X` over the fences, after `n` rounds. -/
def memFence (build : Memory UInt8) : Nat → Memory UInt8
  | 0 => build
  | n + 1 =>
      let build := memFence build n
      let build := Function.update build ((n : Int) - memFenceWidth) memFenceMagic
      Function.update build (buildBufSize + n) memFenceMagic

/-- `set_mode_X`, with the memories as they were before. -/
def setModeX (d : Display) : Display where
  view :=
    { build := memFence d.view.build memFenceWidth
      img3Off := buildBaseInit
      showX := 0
      showY := 0 }
  video := fun plane a =>
    if plane < 4 ∧ 0 ≤ a ∧ a < modeXMemSize then 0 else d.video plane a
  targetImg := 0x0000
  crtc := modeXCrtc.foldl outCrtc (outCrtc d.crtc 0x0011)

/-- `rep movsb` with `ecx` bytes, to the plane that the write mask selects. -/
def repMovsb (ecx : Nat) (img : Nat → UInt8) (scrAddr : UInt16) (plane : Nat)
    (video : Nat → Memory UInt8) : Nat → Memory UInt8 :=
  Function.update video plane
    (writeAll (fun k => (scrAddr.toNat : Int) + k) img ecx (video plane))

/-- `copy_image`. -/
def copyImage (img : Nat → UInt8) (scrAddr : UInt16) (plane : Nat)
    (video : Nat → Memory UInt8) : Nat → Memory UInt8 :=
  repMovsb 14560 img scrAddr plane video

/-- `copy_status_bar`. -/
def copyStatusBar (statusBarImg : Nat → UInt8) (scrAddr : UInt16) (plane : Nat)
    (video : Nat → Memory UInt8) : Nat → Memory UInt8 :=
  repMovsb 1440 statusBarImg scrAddr plane video

/-- The source address of `show_screen` for a plane. -/
def planeSource (v : ModeX) (i : Nat) : Int :=
  let pOff := 3 - v.showX % 4
  let addr := v.img3Off + v.showX / 4 + v.showY * scrollXWidth
  addr + (pOff - i + 4) % 4 * scrollSize + if pOff < i then 1 else 0

/-- `show_screen`. -/
def showScreen (d : Display) : Display :=
  let targetImg := d.targetImg ^^^ 0x4000
  { d with
    targetImg
    video := (List.range 4).foldl
      (fun video i =>
        copyImage (fun k => d.view.build (planeSource d.view i + k)) targetImg i video)
      d.video
    crtc := outCrtc (outCrtc d.crtc ((targetImg &&& 0xFF00) ||| 0x0C))
      (((targetImg &&& 0x00FF) <<< 8) ||| 0x0D) }

/-- `show_status_bar`. -/
def showStatusBar (statusBarBuf : Nat → UInt8) (d : Display) : Display :=
  { d with
    video := (List.range 4).foldl
      (fun video i =>
        copyStatusBar (fun k => statusBarBuf (statusBarSize * i + k)) 0x0000 i video)
      d.video }

/-- What the game does to the display.  The callbacks of `set_mode_X` draw what
there is to see at the moment of the call. -/
inductive Call where
  | setViewWindow (scrX scrY : Int)
  | drawVertLine (line : Int → Int → Line) (x : Int)
  | drawHorizLine (line : Int → Int → Line) (y : Int)
  | showScreen
  | showStatusBar (statusBarBuf : Nat → UInt8)

def call (d : Display) : Call → Display
  | .setViewWindow scrX scrY => { d with view := d.view.setViewWindow scrX scrY }
  | .drawVertLine line x => { d with view := d.view.drawVertLine line x }
  | .drawHorizLine line y => { d with view := d.view.drawHorizLine line y }
  | .showScreen => d.showScreen
  | .showStatusBar statusBarBuf => d.showStatusBar statusBarBuf

def run (d : Display) (calls : List Call) : Display :=
  calls.foldl call d

/-! ## Fences -/

/-- The fences lie outside of the buffer. -/
theorem memFence_inside (build : Memory UInt8) {n : Nat} (hn : n ≤ memFenceWidth) {a : Int}
    (hLow : 0 ≤ a) (hHigh : a < buildBufSize) : memFence build n a = build a := by
  have hWidth : memFenceWidth = 256 := rfl
  induction n with
  | zero => rfl
  | succ n ih =>
      rw [memFence, Function.update_of_ne (by omega), Function.update_of_ne (by omega)]
      exact ih (by omega)

theorem memFence_fence (build : Memory UInt8) {n : Nat} (hn : n ≤ memFenceWidth) {i : Nat}
    (hi : i < n) :
    memFence build n ((i : Int) - memFenceWidth) = memFenceMagic ∧
      memFence build n (buildBufSize + i) = memFenceMagic := by
  have hWidth : memFenceWidth = 256 := rfl
  have hSize : buildBufSize = 84001 := rfl
  induction n with
  | zero => exact absurd hi (Nat.not_lt_zero i)
  | succ n ih =>
      rw [memFence]
      by_cases hLast : i = n
      · subst hLast
        rw [Function.update_of_ne (by omega), Function.update_self, Function.update_self]
        exact ⟨rfl, rfl⟩
      · rw [Function.update_of_ne (by omega), Function.update_of_ne (by omega),
          Function.update_of_ne (by omega), Function.update_of_ne (by omega)]
        exact ih (by omega) (by omega)

/-! ## Pages -/

/-- A block that has been copied to each of the planes. -/
theorem repMovsb_apply (ecx : Nat) (img : Nat → Nat → UInt8) (scrAddr : UInt16)
    (planes : Nat) (video : Nat → Memory UInt8) (plane : Nat) (a : Int) :
    (List.range planes).foldl (fun video i => repMovsb ecx (img i) scrAddr i video)
        video plane a =
      if plane < planes ∧ scrAddr.toNat ≤ a ∧ a < scrAddr.toNat + ecx then
        img plane (a - scrAddr.toNat).toNat
      else video plane a := by
  induction planes with
  | zero =>
      rw [if_neg (by omega)]
      rfl
  | succ planes ih =>
      rw [List.range_succ, List.foldl_append, List.foldl_cons, List.foldl_nil, repMovsb]
      by_cases hThis : plane = planes
      · subst hThis
        rw [Function.update_self, writeAll_block, ih]
        by_cases hIn : scrAddr.toNat ≤ a ∧ a < scrAddr.toNat + ecx
        · rw [if_pos hIn, if_pos ⟨by omega, hIn⟩]
        · rw [if_neg hIn, if_neg (by omega), if_neg fun h => hIn h.2]
      · rw [Function.update_of_ne hThis, ih]
        have hBefore : plane < planes + 1 ↔ plane < planes := by omega
        simp only [hBefore]

private theorem showScreen_video (d : Display) (plane : Nat) (a : Int) :
    d.showScreen.video plane a =
      if plane < 4 ∧ (d.targetImg ^^^ 0x4000).toNat ≤ a ∧
          a < (d.targetImg ^^^ 0x4000).toNat + 14560 then
        d.view.build
          (planeSource d.view plane + (a - (d.targetImg ^^^ 0x4000).toNat).toNat)
      else d.video plane a :=
  repMovsb_apply 14560 (fun i k => d.view.build (planeSource d.view i + k)) _ 4 _ _ _

private theorem showStatusBar_video (statusBarBuf : Nat → UInt8) (d : Display) (plane : Nat)
    (a : Int) :
    (d.showStatusBar statusBarBuf).video plane a =
      if plane < 4 ∧ 0 ≤ a ∧ a < 1440 then
        statusBarBuf (statusBarSize * plane + a.toNat)
      else d.video plane a := by
  have hCopied := repMovsb_apply 1440
    (fun i k => statusBarBuf (statusBarSize * i + k)) 0 4 d.video plane a
  have hZero : ((0 : UInt16).toNat : Int) = 0 := rfl
  rw [hZero, Int.zero_add, Int.sub_zero] at hCopied
  exact hCopied

/-- The high byte of the page's address and the register it goes to. -/
theorem startHigh (target : UInt16) :
    ((target &&& 0xFF00) ||| 0x0C).toUInt8 = 0x0C ∧
      (((target &&& 0xFF00) ||| 0x0C) >>> 8).toUInt8.toBitVec =
        (target.toBitVec >>> 8).setWidth 8 := by
  constructor
  · apply UInt8.toBitVec_inj.mp
    change ((target.toBitVec &&& 0xFF00#16) ||| 0x0C#16).setWidth 8 = 0x0C#8
    ext i hi
    interval_cases i <;> simp
  · change (((target.toBitVec &&& 0xFF00#16) ||| 0x0C#16) >>> 8).setWidth 8 = _
    ext i hi
    interval_cases i <;> simp

/-- The low byte and its register. -/
theorem startLow (target : UInt16) :
    (((target &&& 0x00FF) <<< 8) ||| 0x0D).toUInt8 = 0x0D ∧
      ((((target &&& 0x00FF) <<< 8) ||| 0x0D) >>> 8).toUInt8.toBitVec =
        target.toBitVec.setWidth 8 := by
  constructor
  · apply UInt8.toBitVec_inj.mp
    change (((target.toBitVec &&& 0x00FF#16) <<< 8) ||| 0x0D#16).setWidth 8 = 0x0D#8
    ext i hi
    interval_cases i <;> simp
  · change ((((target.toBitVec &&& 0x00FF#16) <<< 8) ||| 0x0D#16) >>> 8).setWidth 8 = _
    ext i hi
    interval_cases i <;> simp

/-- The page that is displayed is the one just copied to. -/
theorem showScreen_displayed (d : Display) :
    d.showScreen.displayed = (d.targetImg ^^^ 0x4000).toNat := by
  have hHigh := startHigh (d.targetImg ^^^ 0x4000)
  have hLow := startLow (d.targetImg ^^^ 0x4000)
  simp only [displayed, showScreen, outCrtc, hHigh.1, hLow.1]
  rw [Function.update_self, Function.update_of_ne (by decide), Function.update_self,
    ← UInt8.toNat_toBitVec, ← UInt8.toNat_toBitVec, hHigh.2, hLow.2,
    BitVec.toNat_setWidth, BitVec.toNat_setWidth, BitVec.toNat_ushiftRight,
    ← UInt16.toNat_toBitVec]
  omega

/-! ## The view on the screen -/

/-- A pixel of the view and the byte of the buffer that is copied to its place
on the screen. -/
theorem planeSource_pixelAddr (v : ModeX) (i j : Nat) :
    planeSource v (i % 4) + (j * scrollXWidth + (i / 4 : Nat)) =
      ModeX.pixelAddr v.img3Off (v.showX + i) (v.showY + j) := by
  simp only [planeSource, ModeX.pixelAddr, scrollXWidth, scrollSize]
  split
  · omega
  · omega

/-- **What the screen shows.**  The page displayed has all pixels of the view in
their places if and only if its rows from 182 on had them before: `copy_image`
ends in front of these. -/
theorem showScreen_iff (d : Display) :
    (∀ i j : Nat, i < scrollXDim → j < scrollYDim →
      d.showScreen.video (i % 4)
          (d.showScreen.displayed + (j * scrollXWidth + (i / 4 : Nat))) =
        d.view.pixel (d.view.showX + i) (d.view.showY + j)) ↔
    ∀ i j : Nat, i < scrollXDim → 182 ≤ j → j < scrollYDim →
      d.video (i % 4)
          ((d.targetImg ^^^ 0x4000).toNat + (j * scrollXWidth + (i / 4 : Nat))) =
        d.view.pixel (d.view.showX + i) (d.view.showY + j) := by
  have hRow : ∀ j : Nat, j * scrollXWidth = j * 80 := fun _ => rfl
  have hDim : scrollXDim = 320 := rfl
  rw [showScreen_displayed]
  constructor
  · intro h i j hi hLow hj
    have hShown := h i j hi hj
    have hPlace := hRow j
    rw [showScreen_video, if_neg (by omega)] at hShown
    exact hShown
  · intro h i j hi hj
    have hPlace := hRow j
    rw [showScreen_video]
    by_cases hCopied : j < 182
    · have hSource : (((d.targetImg ^^^ 0x4000).toNat +
          (j * scrollXWidth + (i / 4 : Nat)) - (d.targetImg ^^^ 0x4000).toNat).toNat
            : Int) = j * scrollXWidth + (i / 4 : Nat) := by
        omega
      rw [if_pos (by omega), hSource, planeSource_pixelAddr, ModeX.pixel]
    · rw [if_neg (by omega)]
      exact h i j hi (by omega) hj

/-- The first screen of a buffer full of ones over memory that was cleared: the
last row stays black. -/
theorem lastRow_notShown :
    ¬ ∀ i j : Nat, i < scrollXDim → j < scrollYDim →
      let d : Display :=
        setModeX ⟨⟨fun _ => 1, 0, 0, 0⟩, fun _ _ => 0, 0, fun _ => 0⟩
      d.showScreen.video (i % 4)
          (d.showScreen.displayed + (j * scrollXWidth + (i / 4 : Nat))) =
        d.view.pixel (d.view.showX + i) (d.view.showY + j) := by
  intro h
  have hShown := h 0 199 (by decide) (by decide)
  have hNow : (((0 : UInt16) ^^^ 0x4000).toNat : Int) = 16384 := by decide
  have hWidth : scrollXWidth = 80 := rfl
  simp only [showScreen_displayed, showScreen_video, setModeX, hNow, hWidth,
    modeXMemSize, ModeX.pixel] at hShown
  norm_num at hShown
  rw [memFence_inside _ (Nat.le_refl _) (by decide) (by decide)] at hShown
  exact absurd hShown (by decide)

/-! ## Screens and status bars -/

/-- The bytes of each plane that `show_screen` writes. -/
def screenBytes (d : Display) : Set (Nat × Int) :=
  { byte | byte.1 < 4 ∧ (d.targetImg ^^^ 0x4000).toNat ≤ byte.2 ∧
    byte.2 < (d.targetImg ^^^ 0x4000).toNat + 14560 }

/-- The bytes of each plane that `show_status_bar` writes. -/
def barBytes : Set (Nat × Int) :=
  { byte | byte.1 < 4 ∧ 0 ≤ byte.2 ∧ byte.2 < 1440 }

/-- A run with what was shown last and the bytes written so far. -/
structure Session where
  display : Display
  lastScreen : Option ModeX
  lastBar : Option (Nat → UInt8)
  byScreen : Set (Nat × Int)
  byBar : Set (Nat × Int)

namespace Session

def start (d : Display) : Session := ⟨d.setModeX, none, none, ∅, ∅⟩

def call (s : Session) (c : Call) : Session :=
  match c with
  | .showScreen =>
      { s with
        display := s.display.call c
        lastScreen := some s.display.view
        byScreen := s.byScreen ∪ s.display.screenBytes }
  | .showStatusBar statusBarBuf =>
      { s with
        display := s.display.call c
        lastBar := some statusBarBuf
        byBar := s.byBar ∪ barBytes }
  | _ => { s with display := s.display.call c }

def run (s : Session) (calls : List Call) : Session :=
  calls.foldl call s

@[simp] theorem call_display (s : Session) (c : Call) :
    (s.call c).display = s.display.call c := by
  cases c with
  | setViewWindow => rfl
  | drawVertLine => rfl
  | drawHorizLine => rfl
  | showScreen => rfl
  | showStatusBar => rfl

/-- The page that is displayed has what `copy_image` copied. -/
def PageHolds (d : Display) (v : ModeX) : Prop :=
  ∀ plane k : Nat, plane < 4 → k < 14560 →
    d.video plane (d.displayed + k) = v.build (planeSource v plane + k)

/-- The status-bar area has what `copy_status_bar` copied. -/
def BarHolds (d : Display) (statusBarBuf : Nat → UInt8) : Prop :=
  ∀ plane k : Nat, plane < 4 → k < statusBarSize →
    d.video plane k = statusBarBuf (statusBarSize * plane + k)

/-- Screens and status bars are kept apart. -/
structure Separate (s : Session) : Prop where
  bytes : Disjoint s.byScreen s.byBar
  page : ∀ v, s.lastScreen = some v → PageHolds s.display v
  bar : ∀ statusBarBuf, s.lastBar = some statusBarBuf → BarHolds s.display statusBarBuf

/-! ### One call -/

private theorem showScreen_page (d : Display) : PageHolds d.showScreen d.view := by
  intro plane k hPlane hK
  have hOffset : (((d.targetImg ^^^ 0x4000).toNat + k -
      (d.targetImg ^^^ 0x4000).toNat : Int).toNat : Int) = k := by
    omega
  rw [showScreen_displayed, showScreen_video, if_pos (by omega), hOffset]

private theorem showStatusBar_bar (d : Display) (statusBarBuf : Nat → UInt8) :
    BarHolds (d.showStatusBar statusBarBuf) statusBarBuf := by
  intro plane k hPlane hK
  rw [statusBarSize] at hK
  rw [showStatusBar_video, if_pos (by omega), Int.toNat_natCast]

/-- The page at 0x4000 lies behind the status bar. -/
theorem showScreen_keeps_bar {d : Display} {statusBarBuf : Nat → UInt8}
    (hTarget : (d.targetImg ^^^ 0x4000).toNat = 0x4000)
    (h : BarHolds d statusBarBuf) : BarHolds d.showScreen statusBarBuf := by
  intro plane k hPlane hK
  have hBar := h plane k hPlane hK
  rw [statusBarSize] at hK
  rw [showScreen_video, hTarget, if_neg (by omega), hBar]

private theorem showStatusBar_keeps_page {d : Display} {v : ModeX} (statusBarBuf : Nat → UInt8)
    (hDisplayed : d.displayed = 0x4000) (h : PageHolds d v) :
    PageHolds (d.showStatusBar statusBarBuf) v := by
  intro plane k hPlane hK
  have hPage := h plane k hPlane hK
  have hSame : (d.showStatusBar statusBarBuf).displayed = d.displayed := rfl
  rw [hDisplayed] at hPage
  rw [hSame, hDisplayed, showStatusBar_video, if_neg (by omega), hPage]

/-! ### Runs -/

def isScreen : Call → Bool
  | .showScreen => true
  | _ => false

def isBar : Call → Bool
  | .showStatusBar _ => true
  | _ => false

/-- The byte is on the page that starts at `target`. -/
def OnPage (target : Int) (byte : Nat × Int) : Prop :=
  byte.1 < 4 ∧ target ≤ byte.2 ∧ byte.2 < target + 14560

/-- What holds after so many screens and status bars. -/
structure After (s : Session) (screens bars : Nat) : Prop where
  target : s.display.targetImg = if screens % 2 = 0 then 0x0000 else 0x4000
  displayed : 1 ≤ screens → s.display.displayed = s.display.targetImg.toNat
  byScreen : ∀ byte, byte ∈ s.byScreen ↔
    1 ≤ screens ∧ OnPage 0x4000 byte ∨ 2 ≤ screens ∧ OnPage 0x0000 byte
  byBar : ∀ byte, byte ∈ s.byBar ↔ 1 ≤ bars ∧ byte ∈ barBytes
  noScreen : screens = 0 → s.lastScreen = none
  noBar : bars = 0 → s.lastBar = none
  page : screens < 2 ∨ bars = 0 → ∀ v, s.lastScreen = some v → PageHolds s.display v
  bar : screens < 2 ∨ bars = 0 → ∀ statusBarBuf, s.lastBar = some statusBarBuf →
    BarHolds s.display statusBarBuf

private theorem start_after (d : Display) : After (start d) 0 0 where
  target := rfl
  displayed := fun h => absurd h (by decide)
  byScreen := fun byte => by
    constructor
    · intro h
      exact absurd h (Set.notMem_empty byte)
    · intro h
      omega
  byBar := fun byte => by
    constructor
    · intro h
      exact absurd h (Set.notMem_empty byte)
    · intro h
      omega
  noScreen := fun _ => rfl
  noBar := fun _ => rfl
  page := fun _ v h => nomatch h
  bar := fun _ statusBarBuf h => nomatch h

variable {s : Session} {screens bars : Nat}

/-- Only the view changes. -/
theorem draw_after (h : After s screens bars) (view : ModeX) :
    After { s with display := { s.display with view } } screens bars where
  target := h.target
  displayed := h.displayed
  byScreen := h.byScreen
  byBar := h.byBar
  noScreen := h.noScreen
  noBar := h.noBar
  page := h.page
  bar := h.bar

/-- The pages take turns. -/
theorem After.next_target (h : After s screens bars) :
    s.display.targetImg ^^^ 0x4000 =
      if (screens + 1) % 2 = 0 then 0x0000 else 0x4000 := by
  rw [h.target]
  by_cases hEven : screens % 2 = 0
  · rw [if_pos hEven, if_neg (by omega)]
    rfl
  · rw [if_neg hEven, if_pos (by omega)]
    rfl

private theorem showScreen_after (h : After s screens bars) :
    After (s.call .showScreen) (screens + 1) bars := by
  have hNext := h.next_target
  constructor
  · exact hNext
  · intro _
    exact showScreen_displayed s.display
  · intro byte
    have hBefore := h.byScreen byte
    simp only [call, Set.mem_union, hBefore, screenBytes, Set.mem_ofPred_eq, hNext]
    by_cases hEven : (screens + 1) % 2 = 0
    · have hTarget : ((0x0000 : UInt16).toNat : Int) = 0 := rfl
      rw [if_pos hEven, hTarget]
      simp only [OnPage]
      omega
    · have hTarget : ((0x4000 : UInt16).toNat : Int) = 0x4000 := rfl
      rw [if_neg hEven, hTarget]
      simp only [OnPage]
      omega
  · exact h.byBar
  · intro hNone
    omega
  · exact h.noBar
  · intro _ v hLast
    cases hLast
    exact showScreen_page s.display
  · intro hFew statusBarBuf hLast
    cases hFew with
    | inl hFirst =>
        have hNow : screens = 0 := by omega
        subst hNow
        have hHeld := h.bar (Or.inl (by omega)) statusBarBuf hLast
        apply showScreen_keeps_bar _ hHeld
        rw [hNext]
        rfl
    | inr hNoBar =>
        have hNone : s.lastBar = some statusBarBuf := hLast
        rw [h.noBar hNoBar] at hNone
        exact nomatch hNone

private theorem showStatusBar_after (h : After s screens bars) (statusBarBuf : Nat → UInt8) :
    After (s.call (.showStatusBar statusBarBuf)) screens (bars + 1) := by
  constructor
  · exact h.target
  · exact h.displayed
  · exact h.byScreen
  · intro byte
    have hBefore := h.byBar byte
    simp only [call, Set.mem_union, hBefore]
    constructor
    · intro hIn
      exact ⟨by omega, hIn.elim And.right id⟩
    · intro hIn
      exact Or.inr hIn.2
  · exact h.noScreen
  · intro hNone
    omega
  · intro hFew v hLast
    have hLastScreen : s.lastScreen = some v := hLast
    have hHeld := h.page (Or.inl (by omega)) v hLastScreen
    by_cases hNone : screens = 0
    · rw [h.noScreen hNone] at hLastScreen
      exact nomatch hLastScreen
    · apply showStatusBar_keeps_page statusBarBuf _ hHeld
      rw [h.displayed (by omega), h.target, if_neg (by omega)]
      rfl
  · intro _ lastBuf hLast
    have hThis : statusBarBuf = lastBuf := Option.some.inj hLast
    rw [← hThis]
    exact showStatusBar_bar s.display statusBarBuf

private theorem call_after (h : After s screens bars) (c : Call) :
    After (s.call c) (screens + if isScreen c then 1 else 0)
      (bars + if isBar c then 1 else 0) := by
  cases c with
  | setViewWindow scrX scrY => exact draw_after h _
  | drawVertLine line x => exact draw_after h _
  | drawHorizLine line y => exact draw_after h _
  | showScreen => exact showScreen_after h
  | showStatusBar statusBarBuf => exact showStatusBar_after h statusBarBuf

private theorem run_after (h : After s screens bars) (calls : List Call) :
    After (s.run calls) (screens + calls.countP isScreen)
      (bars + calls.countP isBar) := by
  induction calls generalizing s screens bars with
  | nil => exact h
  | cons c calls ih =>
      have hRest := ih (call_after h c)
      have hScreens : screens + (if isScreen c then 1 else 0) + calls.countP isScreen =
          screens + (c :: calls).countP isScreen := by
        rw [List.countP_cons]
        omega
      have hBars : bars + (if isBar c then 1 else 0) + calls.countP isBar =
          bars + (c :: calls).countP isBar := by
        rw [List.countP_cons]
        omega
      rw [hScreens, hBars] at hRest
      exact hRest

/-- **Screens beside status bars.**  After `set_mode_X` and any calls the two are
kept apart exactly as long as one page has not been used yet, or there is no
status bar: the second page is at 0x0000, where the status bar is. -/
theorem separate_iff (d : Display) (calls : List Call) :
    Separate ((start d).run calls) ↔
      calls.countP isScreen < 2 ∨ calls.countP isBar = 0 := by
  have hAfter := run_after (start_after d) calls
  rw [Nat.zero_add, Nat.zero_add] at hAfter
  constructor
  · intro hSeparate
    by_contra hMany
    have hByScreen : (0, 0) ∈ ((start d).run calls).byScreen := by
      rw [hAfter.byScreen]
      exact Or.inr ⟨by omega, by decide, by decide, by decide⟩
    have hByBar : (0, 0) ∈ ((start d).run calls).byBar := by
      rw [hAfter.byBar]
      exact ⟨by omega, by decide, by decide, by decide⟩
    exact Set.disjoint_left.mp hSeparate.bytes hByScreen hByBar
  · intro hFew
    constructor
    · rw [Set.disjoint_left]
      intro byte hByScreen hByBar
      rw [hAfter.byScreen] at hByScreen
      rw [hAfter.byBar] at hByBar
      simp only [OnPage, barBytes, Set.mem_ofPred_eq] at hByScreen hByBar
      omega
    · exact hAfter.page hFew
    · exact hAfter.bar hFew

/-- The first two rounds of `game_loop`: the second screen is drawn over the
status bar. -/
theorem statusBar_overwritten :
    ¬ Separate ((start ⟨⟨fun _ => 0, 0, 0, 0⟩, fun _ _ => 0, 0, fun _ => 0⟩).run
      [.showScreen, .showStatusBar fun _ => 1, .showScreen]) := by
  intro h
  have hBar := h.bar (fun _ => 1) rfl 0 0 (by decide) (by decide)
  have hOver : ∀ d : Display, d.targetImg ^^^ 0x4000 = 0 →
      d.showScreen.video 0 0 = d.view.build (planeSource d.view 0 + (0 : Nat)) := by
    intro d hTarget
    rw [showScreen_video, hTarget]
    rfl
  let d := setModeX ⟨⟨fun _ => 0, 0, 0, 0⟩, fun _ _ => 0, 0, fun _ => 0⟩
  have hShown := hOver (d.showScreen.showStatusBar fun _ => 1) (by decide)
  have hView : (d.showScreen.showStatusBar fun _ => 1).view = d.view := rfl
  rw [hView] at hShown
  simp only [d, setModeX] at hShown
  rw [memFence_inside _ (Nat.le_refl _) (by decide) (by decide)] at hShown
  have hOne : (0 : UInt8) = 1 := hShown.symm.trans hBar
  exact absurd hOne (by decide)

end Session

end Display

end CompE.Adventure
