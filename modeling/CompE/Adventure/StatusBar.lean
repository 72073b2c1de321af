import CompE.Adventure.Font
import CompE.Library.WriteLog
import CompE.Library.Writes

/-!
# The status bar

`text_to_graphics` puts a line of 40 characters together and draws it into a
buffer of four planes: a message in the middle, or else the name of the room at
the left and what has been typed at the right.

The planes decode to the bitmap of the line.  A command of 20 characters starts
one column too early, in the last column of the name (`textToGraphics_iff`).
-/

namespace CompE.Adventure

open CompE.Library CompE.Library.Writes

namespace StatusBar

/-- `MAX_NUMBER_TEXT`. -/
def maxNumberText : Nat := 40

/-- `STATUS_BAR_SIZE`. -/
def statusBarSize : Nat := 1440

/-- `NUM_PLANES`. -/
def numPlanes : Nat := 4

/-- `PLANE_WIDTH`. -/
def planeWidth : Nat := 80

/-- `PADDING`. -/
def padding : Nat := 80

/-- `STATUS_BAR_COLOR`, as an `unsigned char`. -/
def statusBarColor : UInt8 := UInt8.ofNat 0x13294b

/-- `STATUS_BAR_FONT_COLOR`, as an `unsigned char`. -/
def statusBarFontColor : UInt8 := UInt8.ofNat 0x284A27

/-- The characters of a string in front of its end. -/
abbrev CString := List UInt8

/-- `' '`. -/
def space : UInt8 := 32

/-- `'_'`. -/
def underscore : UInt8 := 95

/-- `temp_text_buffer`, filled. -/
def tempTextBuffer (message cmd location : CString) : Memory UInt8 :=
  let text : Memory UInt8 := fun i => if i = maxNumberText then 0 else space
  if message.length ≠ 0 then
    let messageAlignOffset := ((maxNumberText : Int) - message.length).tdiv 2
    writeAll (fun i => messageAlignOffset + i) (fun i => message.getD i 0)
      message.length text
  else
    let text :=
      writeAll (fun i => i) (fun i => location.getD i 0) (min location.length 20) text
    if cmd.length < 20 then
      let text :=
        writeAll (fun i => maxNumberText - 2 - i)
          (fun i => cmd.getD (cmd.length - 1 - i) 0) cmd.length text
      Function.update text (maxNumberText - 1) underscore
    else
      writeAll (fun i => maxNumberText - 21 + i) (fun i => cmd.getD i 0) 20 text

/-- Where pixel `(x, y)` of the character in column `i` goes. -/
def place (i x y : Nat) : Nat :=
  y * planeWidth + padding + i * 2 + statusBarSize * (x % 4) + x / 4

/-- The loops over the rows and columns of a character. -/
def drawCharacter (rows i : Nat) (buffer : Logged UInt8) : Logged UInt8 :=
  (List.range fontHeight).foldl
    (fun buffer y =>
      (List.range fontWidth).foldl
        (fun buffer x =>
          if (0x100 >>> (x + 1)) &&& fontRow rows y ≠ 0 then
            buffer.set (place i x y) statusBarFontColor
          else buffer)
        buffer)
    buffer

/-- The loop over the first `n` characters of the line. -/
def drawText (text : Memory UInt8) : Nat → Logged UInt8 → Option (Logged UInt8)
  | 0, buffer => some buffer
  | n + 1, buffer => do
      let buffer ← drawText text n buffer
      let rows ← fontRows (charValue (text n))
      some (drawCharacter rows n buffer)

/-- `text_to_graphics`.  There is no result if the font is read outside its
table. -/
def textToGraphics (buffer : Logged UInt8) (message cmd location : CString) :
    Option (Logged UInt8) :=
  let text := tempTextBuffer message cmd location
  let buffer :=
    (List.range (statusBarSize * numPlanes)).foldl
      (fun buffer i => buffer.set i statusBarColor) buffer
  drawText text maxNumberText buffer

/-! ## What is to be shown -/

/-- The line has the characters of `s` from column `col` on. -/
def HasAt (line : Nat → UInt8) (col : Nat) (s : CString) : Prop :=
  ∀ i (h : i < s.length), line (col + i) = s[i]

/-- A command as it is shown while it can grow. -/
def typed (cmd : CString) : CString :=
  if cmd.length < 20 then cmd ++ [underscore] else cmd

/-- The line of 40 columns for a message, or for a room and a command whose last
character is in column 38. -/
def Layout (message cmd location : CString) (line : Nat → UInt8) : Prop :=
  if message.length ≠ 0 then
    HasAt line ((40 - message.length) / 2) message ∧
      ∀ col < 40, (col < (40 - message.length) / 2 ∨
        (40 - message.length) / 2 + message.length ≤ col) → line col = space
  else
    HasAt line 0 (location.take 20) ∧ HasAt line (39 - cmd.length) (typed cmd) ∧
      ∀ col < 40, (location.take 20).length ≤ col →
        (col < 39 - cmd.length ∨ 39 - cmd.length + (typed cmd).length ≤ col) →
          line col = space

/-- The picture of a line: 320 by 18 pixels, with an empty row above and below
the characters. -/
def bitmap (line : Nat → UInt8) (px py : Nat) : UInt8 :=
  if 1 ≤ py ∧ py ≤ 16 ∧ ink (glyph (line (px / 8))) (px % 8) (py - 1) then
    statusBarFontColor
  else statusBarColor

/-- A pixel of the four planes: plane `i` has the columns that are `i` modulo
4. -/
def decode (buffer : Logged UInt8) (px py : Nat) : UInt8 :=
  buffer.cells (1440 * (px % 4) + py * 80 + px / 4)

/-- The buffer has the picture of the right line, and nothing was written outside
it. -/
def Rendered (message cmd location : CString) (buffer : Logged UInt8) : Prop :=
  (∃ line, Layout message cmd location line ∧
    ∀ px < 320, ∀ py < 18, decode buffer px py = bitmap line px py) ∧
  ∀ a ∈ buffer.written, a < 5760

/-- The characters that are shown. -/
def shown (message cmd location : CString) : CString :=
  if message.length ≠ 0 then message else location.take 20 ++ cmd

/-- The first character of a command and the last of a name differ, and both are
to be in column 19. -/
def Overlap (message cmd location : CString) : Prop :=
  message.length = 0 ∧ cmd.length = 20 ∧ 20 ≤ location.length ∧
    location.getD 19 0 ≠ cmd.getD 0 0

/-! ## The line -/

private theorem getD_of_lt (s : CString) {i : Nat} (h : i < s.length) : s.getD i 0 = s[i] :=
  List.getD_eq_getElem s 0 h

private theorem typed_length {cmd : CString} (h : cmd.length ≤ 20) :
    (typed cmd).length = min (cmd.length + 1) 20 := by
  rw [typed]
  split
  · rw [List.length_append, List.length_singleton]
    omega
  · omega

/-- The line that is drawn. -/
def textLine (message cmd location : CString) (col : Nat) : UInt8 :=
  tempTextBuffer message cmd location col

section Line

variable {message cmd location : CString} {col : Nat}

private theorem textLine_message (cmd location : CString) (hSome : message.length ≠ 0)
    (hMessage : message.length ≤ 40) (hCol : col < 40) :
    textLine message cmd location col =
      if (40 - message.length) / 2 ≤ col ∧
          col < (40 - message.length) / 2 + message.length then
        message.getD (col - (40 - message.length) / 2) 0
      else space := by
  have hOffset : ((maxNumberText : Int) - message.length).tdiv 2 =
      ((40 - message.length) / 2 : Nat) := by
    rw [maxNumberText, Int.tdiv_eq_ediv_of_nonneg (by omega)]
    omega
  have hLast : (col : Int) ≠ maxNumberText := by
    rw [maxNumberText]
    omega
  rw [textLine, tempTextBuffer, if_pos hSome]
  simp only [hOffset]
  rw [writeAll_block]
  by_cases hIn : (40 - message.length) / 2 ≤ col ∧
      col < (40 - message.length) / 2 + message.length
  · have hIndex : ((col : Int) - ((40 - message.length) / 2 : Nat)).toNat =
        col - (40 - message.length) / 2 := by
      omega
    rw [if_pos hIn, if_pos (by omega), hIndex]
  · rw [if_neg hIn, if_neg (by omega), if_neg hLast]

/-- The name of the room, in front of the command. -/
theorem roomText_apply (hCol : col < 40) :
    writeAll (fun i => (i : Int)) (fun i => location.getD i 0) (min location.length 20)
        (fun i => if i = maxNumberText then 0 else space) col =
      if col < (location.take 20).length then (location.take 20).getD col 0
      else space := by
  have hAddr : (fun i : Nat => (i : Int)) = fun i : Nat => 0 + (i : Int) := by
    funext i
    omega
  have hLast : (col : Int) ≠ maxNumberText := by
    rw [maxNumberText]
    omega
  rw [hAddr, writeAll_block]
  by_cases hIn : col < (location.take 20).length
  · have hLength := hIn
    rw [List.length_take] at hLength
    have hIndex : ((col : Int) - 0).toNat = col := by omega
    rw [if_pos hIn, if_pos (by omega), hIndex, getD_of_lt _ hIn, List.getElem_take,
      getD_of_lt location (by omega)]
  · have hLength := hIn
    rw [List.length_take] at hLength
    rw [if_neg hIn, if_neg (by omega), if_neg hLast]

private theorem typed_of_short (h : cmd.length < 20) : typed cmd = cmd ++ [underscore] := by
  rw [typed, if_pos h]

private theorem typed_of_full (h : ¬ cmd.length < 20) : typed cmd = cmd := by
  rw [typed, if_neg h]

/-- A short command, up to column 38, with an underscore behind it. -/
theorem textLine_short (hNone : message.length = 0) (hShort : cmd.length < 20)
    (hCol : col < 40) :
    textLine message cmd location col =
      if 39 - cmd.length ≤ col ∧ col < 39 - cmd.length + (typed cmd).length then
        (typed cmd).getD (col - (39 - cmd.length)) 0
      else if col < (location.take 20).length then (location.take 20).getD col 0
      else space := by
  have hLength : (typed cmd).length = cmd.length + 1 := by
    rw [typed_length (by omega)]
    omega
  rw [textLine, tempTextBuffer, if_neg (by omega)]
  simp only []
  rw [if_pos hShort, hLength]
  by_cases hLast : col = 39
  · subst hLast
    have hIndex : 39 - (39 - cmd.length) = cmd.length := by omega
    have hAt : ((39 : Nat) : Int) = maxNumberText - 1 := rfl
    rw [if_pos (by omega), hIndex, typed_of_short hShort, hAt, Function.update_self,
      List.getD_eq_getElem _ _ (by rw [List.length_append, List.length_singleton]; omega),
      List.getElem_concat_length rfl]
  · have hAt : (col : Int) ≠ maxNumberText - 1 := by
      rw [maxNumberText]
      omega
    have hTop : (maxNumberText : Int) - 2 = 38 := rfl
    rw [Function.update_of_ne hAt, hTop, writeAll_reversed 38 fun k => cmd.getD k 0,
      roomText_apply hCol]
    by_cases hIn : 39 - cmd.length ≤ col
    · have hIndex : ((col : Int) - (38 - cmd.length + 1)).toNat =
          col - (39 - cmd.length) := by
        omega
      have hPlace : col - (39 - cmd.length) < cmd.length := by omega
      rw [if_pos (by omega), if_pos (by omega), hIndex, typed_of_short hShort,
        getD_of_lt cmd hPlace, List.getD_append _ _ _ _ hPlace, getD_of_lt cmd hPlace]
    · have hLeft : ¬ (38 - (cmd.length : Int) < col ∧ (col : Int) ≤ 38) := by omega
      have hRight : ¬ (39 - cmd.length ≤ col ∧
          col < 39 - cmd.length + (cmd.length + 1)) := by
        omega
      rw [if_neg hLeft, if_neg hRight]

/-- A command of 20 characters, from column 19 on. -/
theorem textLine_full (hNone : message.length = 0) (hFull : cmd.length = 20)
    (hCol : col < 40) :
    textLine message cmd location col =
      if 39 - cmd.length ≤ col ∧ col < 39 - cmd.length + (typed cmd).length then
        (typed cmd).getD (col - (39 - cmd.length)) 0
      else if col < (location.take 20).length then (location.take 20).getD col 0
      else space := by
  have hLong : ¬ cmd.length < 20 := by omega
  have hBase : (maxNumberText : Int) - 21 = 19 := rfl
  rw [textLine, tempTextBuffer, if_neg (by omega)]
  simp only []
  rw [if_neg hLong, hBase, writeAll_block, typed_of_full hLong, hFull,
    roomText_apply hCol]
  by_cases hIn : 19 ≤ col ∧ col < 39
  · have hIndex : ((col : Int) - 19).toNat = col - (39 - 20) := by omega
    rw [if_pos (by omega), if_pos (by omega), hIndex]
  · have hLeft : ¬ ((19 : Int) ≤ col ∧ (col : Int) < 19 + (20 : Nat)) := by omega
    have hRight : ¬ (39 - 20 ≤ col ∧ col < 39 - 20 + 20) := by omega
    rw [if_neg hLeft, if_neg hRight]

private theorem textLine_prompt (hNone : message.length = 0) (hCmd : cmd.length ≤ 20)
    (hCol : col < 40) :
    textLine message cmd location col =
      if 39 - cmd.length ≤ col ∧ col < 39 - cmd.length + (typed cmd).length then
        (typed cmd).getD (col - (39 - cmd.length)) 0
      else if col < (location.take 20).length then (location.take 20).getD col 0
      else space := by
  by_cases hShort : cmd.length < 20
  · exact textLine_short hNone hShort hCol
  · exact textLine_full hNone (by omega) hCol

/-- The line is the right one unless two characters are to be in one column. -/
theorem textLine_layout (hMessage : message.length ≤ 40)
    (hCmd : message.length = 0 → cmd.length ≤ 20)
    (hApart : ¬ Overlap message cmd location) :
    Layout message cmd location (textLine message cmd location) := by
  rw [Layout]
  by_cases hSome : message.length ≠ 0
  · rw [if_pos hSome]
    constructor
    · intro i hi
      have hIndex : (40 - message.length) / 2 + i - (40 - message.length) / 2 = i := by
        omega
      rw [textLine_message cmd location hSome hMessage (by omega),
        if_pos (by omega), hIndex, getD_of_lt message hi]
    · intro col hCol hOut
      rw [textLine_message cmd location hSome hMessage hCol, if_neg (by omega)]
  · have hNone : message.length = 0 := by omega
    have hLength := typed_length (hCmd hNone)
    rw [if_neg hSome]
    refine ⟨?_, ?_, ?_⟩
    · intro i hi
      have hRoom := hi
      rw [List.length_take] at hRoom
      rw [Nat.zero_add, textLine_prompt hNone (hCmd hNone) (by omega)]
      by_cases hBoth : 39 - cmd.length ≤ i
      · have hLast : i = 19 := by omega
        have hFull : cmd.length = 20 := by omega
        subst hLast
        have hSame : location.getD 19 0 = cmd.getD 0 0 := by
          by_contra hNe
          exact hApart ⟨hNone, hFull, by omega, hNe⟩
        rw [if_pos (by omega), typed_of_full (by omega), hFull, ← hSame,
          getD_of_lt location (by omega), List.getElem_take]
      · rw [if_neg (by omega), if_pos hi, getD_of_lt _ hi]
    · intro i hi
      have hIndex : 39 - cmd.length + i - (39 - cmd.length) = i := by omega
      rw [textLine_prompt hNone (hCmd hNone) (by omega), if_pos (by omega), hIndex,
        getD_of_lt _ hi]
    · intro col hCol hRoom hOut
      rw [textLine_prompt hNone (hCmd hNone) hCol, if_neg (by omega),
        if_neg (by omega)]

/-- All characters of a string are ASCII. -/
def Ascii (s : CString) : Prop := ∀ c ∈ s, c < 128

theorem Ascii.append_iff {s t : CString} : Ascii (s ++ t) ↔ Ascii s ∧ Ascii t :=
  List.forall_mem_append

private theorem ascii_typed : Ascii (typed cmd) ↔ Ascii cmd := by
  by_cases hShort : cmd.length < 20
  · rw [typed_of_short hShort, Ascii.append_iff]
    constructor
    · intro h
      exact h.1
    · intro h
      refine ⟨h, ?_⟩
      intro c hMem
      rw [List.mem_singleton.mp hMem]
      decide
  · rw [typed_of_full hShort]

theorem HasAt.ascii_iff {line : Nat → UInt8} {s : CString} (h : HasAt line col s) :
    Ascii s ↔ ∀ i < s.length, line (col + i) < 128 := by
  constructor
  · intro hAscii i hi
    rw [h i hi]
    exact hAscii _ (List.getElem_mem hi)
  · intro hLine c hMem
    obtain ⟨i, hi, hEq⟩ := List.mem_iff_getElem.mp hMem
    rw [← hEq, ← h i hi]
    exact hLine i hi

/-- A column of a string that is ASCII. -/
theorem HasAt.ascii_column {line : Nat → UInt8} {s : CString} {start : Nat}
    (h : HasAt line start s) (hAscii : Ascii s)
    (hThere : start ≤ col ∧ col < start + s.length) : line col < 128 := by
  have hPlace : start + (col - start) = col := by omega
  rw [← hPlace]
  exact h.ascii_iff.mp hAscii _ (by omega)

/-- A string in a line that is ASCII. -/
theorem HasAt.ascii_of_line {line : Nat → UInt8} {s : CString} {start : Nat}
    (h : HasAt line start s) (hIn : start + s.length ≤ 40)
    (hLine : ∀ col < 40, line col < 128) : Ascii s := by
  rw [h.ascii_iff]
  intro i hi
  exact hLine _ (by omega)

/-- A line is ASCII if what it shows is. -/
theorem layout_ascii {line : Nat → UInt8} (hMessage : message.length ≤ 40)
    (hCmd : message.length = 0 → cmd.length ≤ 20)
    (h : Layout message cmd location line) :
    (∀ col < 40, line col < 128) ↔ Ascii (shown message cmd location) := by
  have hSpace : space < 128 := by decide
  rw [Layout] at h
  rw [shown]
  by_cases hSome : message.length ≠ 0
  · rw [if_pos hSome] at h ⊢
    constructor
    · exact h.1.ascii_of_line (by omega)
    · intro hAscii col hCol
      by_cases hThere : (40 - message.length) / 2 ≤ col ∧
          col < (40 - message.length) / 2 + message.length
      · exact h.1.ascii_column hAscii hThere
      · rw [h.2 col hCol (by omega)]
        exact hSpace
  · rw [if_neg hSome] at h ⊢
    obtain ⟨hRoom, hTyped, hBlank⟩ := h
    have hLength := typed_length (hCmd (by omega))
    have hRoomLength : (location.take 20).length ≤ 20 := by
      rw [List.length_take]
      omega
    rw [Ascii.append_iff, ← @ascii_typed cmd]
    constructor
    · intro hLine
      exact ⟨hRoom.ascii_of_line (by omega) hLine, hTyped.ascii_of_line (by omega) hLine⟩
    · intro hAscii col hCol
      by_cases hName : col < (location.take 20).length
      · exact hRoom.ascii_column hAscii.1 (by omega)
      · by_cases hThere : 39 - cmd.length ≤ col ∧
            col < 39 - cmd.length + (typed cmd).length
        · exact hTyped.ascii_column hAscii.2 hThere
        · rw [hBlank col hCol (by omega) (by omega)]
          exact hSpace

/-- No line has two characters in one column. -/
theorem layout_apart {line : Nat → UInt8} (h : Layout message cmd location line) :
    ¬ Overlap message cmd location := by
  intro ⟨hNone, hFull, hLong, hDiffer⟩
  rw [Layout, if_neg (by omega)] at h
  have hRoom := h.1 19 (by rw [List.length_take]; omega)
  have hTyped := h.2.1 0 (by rw [typed_of_full (by omega)]; omega)
  rw [List.getElem_take, ← getD_of_lt location] at hRoom
  simp only [typed_of_full (show ¬ cmd.length < 20 by omega), hFull] at hTyped
  rw [← getD_of_lt cmd] at hTyped
  exact hDiffer (hRoom.symm.trans hTyped)

end Line

/-! ## The picture -/

private theorem drawCharacter_paints (rows i : Nat) (buffer : Logged UInt8) :
    Logged.Paints statusBarFontColor
      (fun a => ∃ y, y < fontHeight ∧ ∃ x, x < fontWidth ∧
        ink rows x y = true ∧ a = place i x y)
      buffer (drawCharacter rows i buffer) := by
  apply Logged.Paints.range
  intro y hY buffer
  apply Logged.Paints.range
  intro x hX buffer
  have hMask := bitmask_and (fontRow rows y) hX
  by_cases hInk : ink rows x y = true
  · rw [if_pos (hMask.mpr hInk)]
    apply (Logged.Paints.set buffer (place i x y)).congr
    intro a
    exact (and_iff_right hInk).symm
  · rw [if_neg fun h => hInk (hMask.mp h)]
    apply (Logged.Paints.none buffer).congr
    intro a
    exact (iff_of_false id fun h => hInk h.1)

/-- All characters are drawn if each has a picture. -/
theorem drawText_paints {text : Memory UInt8} {n : Nat}
    (h : ∀ i < n, text (i : Nat) < 128) (buffer : Logged UInt8) :
    ∃ out, drawText text n buffer = some out ∧
      Logged.Paints statusBarFontColor
        (fun a => ∃ i, i < n ∧ ∃ y, y < fontHeight ∧ ∃ x, x < fontWidth ∧
          ink (glyph (text (i : Nat))) x y = true ∧ a = place i x y)
        buffer out := by
  induction n with
  | zero =>
      refine ⟨buffer, rfl, ?_⟩
      apply (Logged.Paints.none buffer).congr
      intro a
      exact iff_of_false id fun ⟨i, hi, _⟩ => Nat.not_lt_zero i hi
  | succ n ih =>
      obtain ⟨out, hOut, hPaints⟩ := ih fun i hi => h i (by omega)
      have hRows : fontRows (charValue (text n)) = some (glyph (text n)) := by
        rw [fontRows_charValue, if_pos (h n (by omega))]
      refine ⟨drawCharacter (glyph (text n)) n out, ?_, ?_⟩
      · simp only [drawText, hOut, hRows, Option.bind_eq_bind, Option.bind_some]
      · apply (hPaints.trans (drawCharacter_paints (glyph (text n)) n out)).congr
        intro a
        constructor
        · intro hPainted
          cases hPainted with
          | inl hEarlier =>
              obtain ⟨i, hi, hAt⟩ := hEarlier
              exact ⟨i, by omega, hAt⟩
          | inr hNow => exact ⟨n, by omega, hNow⟩
        · intro ⟨i, hi, hAt⟩
          by_cases hLast : i = n
          · right
            rw [← hLast]
            exact hAt
          · left
            exact ⟨i, by omega, hAt⟩

/-- A result has all its characters from the table. -/
theorem ascii_of_drawText {text : Memory UInt8} {n : Nat} {buffer out : Logged UInt8}
    (h : drawText text n buffer = some out) : ∀ i < n, text (i : Nat) < 128 := by
  induction n generalizing out with
  | zero =>
      intro i hi
      exact absurd hi (Nat.not_lt_zero i)
  | succ n ih =>
      rw [drawText, Option.bind_eq_bind, Option.bind_eq_some_iff] at h
      obtain ⟨before, hBefore, hRest⟩ := h
      rw [fontRows_charValue] at hRest
      intro i hi
      by_cases hLast : i = n
      · subst hLast
        by_contra hHigh
        rw [if_neg hHigh] at hRest
        exact nomatch hRest
      · exact ih hBefore i (by omega)

/-- A plane, a row and a byte of the row are a place in the buffer. -/
theorem bytePlace_inj {plane row byte plane' row' byte' : Nat} (hRow : row < 18)
    (hByte : byte < 80) (hRow' : row' < 18) (hByte' : byte' < 80)
    (hEq : 1440 * plane + row * 80 + byte = 1440 * plane' + row' * 80 + byte') :
    plane = plane' ∧ row = row' ∧ byte = byte' := by
  have hPlane : plane = plane' := by omega
  omega

/-- The bytes of two pixels are different. -/
theorem place_eq_iff {px py i x y : Nat} (hPx : px < 320) (hPy : py < 18) (hI : i < 40)
    (hX : x < fontWidth) (hY : y < fontHeight) :
    1440 * (px % 4) + py * 80 + px / 4 = place i x y ↔
      i = px / 8 ∧ x = px % 8 ∧ py = y + 1 := by
  rw [fontWidth] at hX
  rw [fontHeight] at hY
  have hPlace : place i x y = 1440 * (x % 4) + (y + 1) * 80 + (2 * i + x / 4) := by
    simp only [place, planeWidth, padding, statusBarSize]
    omega
  rw [hPlace]
  constructor
  · intro hEq
    have hSame := bytePlace_inj hPy (by omega) (by omega) (by omega) hEq
    clear hEq hPlace
    omega
  · intro hPixel
    obtain ⟨rfl, rfl, rfl⟩ := hPixel
    omega

private theorem fillBackground_paints (n : Nat) (buffer : Logged UInt8) :
    Logged.Paints statusBarColor (fun a => a < n) buffer
      ((List.range n).foldl (fun buffer i => buffer.set i statusBarColor) buffer) := by
  apply (Logged.Paints.range (fun i _ a => Logged.Paints.set a i) buffer).congr
  intro a
  constructor
  · intro ⟨i, hi, hAt⟩
    rw [hAt]
    exact hi
  · intro hLow
    exact ⟨a, hLow, rfl⟩

/-- Text over the background is the bitmap. -/
theorem decode_eq_bitmap {text : Memory UInt8} {before background out : Logged UInt8}
    (hBackground : Logged.Paints statusBarColor (fun a => a < 5760) before background)
    (hText : Logged.Paints statusBarFontColor
      (fun a => ∃ i, i < 40 ∧ ∃ y, y < fontHeight ∧ ∃ x, x < fontWidth ∧
        ink (glyph (text (i : Nat))) x y = true ∧ a = place i x y)
      background out)
    {px py : Nat} (hPx : px < 320) (hPy : py < 18) :
    decode out px py = bitmap (fun col => text (col : Nat)) px py := by
  rw [decode, bitmap]
  by_cases hInk : 1 ≤ py ∧ py ≤ 16 ∧
      ink (glyph (text (px / 8 : Nat))) (px % 8) (py - 1) = true
  · have hY : py - 1 < fontHeight := by
      rw [fontHeight]
      omega
    have hX : px % 8 < fontWidth := Nat.mod_lt px (by decide)
    rw [if_pos hInk]
    apply hText.inside
    refine ⟨px / 8, by omega, py - 1, hY, px % 8, hX, hInk.2.2, ?_⟩
    rw [place_eq_iff hPx hPy (by omega) hX hY]
    omega
  · rw [if_neg hInk, hText.outside, hBackground.inside _ (by omega)]
    intro ⟨i, hI, y, hY, x, hX, hSet, hAt⟩
    rw [place_eq_iff hPx hPy hI hX hY] at hAt
    obtain ⟨hCol, hPixel, hRow⟩ := hAt
    subst hCol hPixel hRow
    rw [fontHeight] at hY
    exact hInk ⟨by omega, by omega, hSet⟩

/-- **Rendering.**  Of a message of at most 40 characters, or a command of at most
20, the buffer gets the picture of the right line, and nothing is written outside
it, if and only if what is shown is ASCII and does not overlap. -/
theorem textToGraphics_iff (cells : Nat → UInt8) {message cmd location : CString}
    (hMessage : message.length ≤ 40) (hCmd : message.length = 0 → cmd.length ≤ 20) :
    (∃ buffer,
      textToGraphics (Logged.fresh cells) message cmd location = some buffer ∧
        Rendered message cmd location buffer) ↔
      Ascii (shown message cmd location) ∧ ¬ Overlap message cmd location := by
  have hBackground := fillBackground_paints (statusBarSize * numPlanes)
    (Logged.fresh cells)
  constructor
  · intro ⟨buffer, hDrawn, hRendered⟩
    obtain ⟨⟨line, hLayout, _⟩, _⟩ := hRendered
    have hApart := layout_apart hLayout
    have hAscii := ascii_of_drawText hDrawn
    refine ⟨?_, hApart⟩
    exact (layout_ascii hMessage hCmd (textLine_layout hMessage hCmd hApart)).mp hAscii
  · intro ⟨hAscii, hApart⟩
    have hLayout := textLine_layout hMessage hCmd hApart
    obtain ⟨buffer, hDrawn, hText⟩ := @drawText_paints
      (tempTextBuffer message cmd location) maxNumberText
      ((layout_ascii hMessage hCmd hLayout).mpr hAscii)
      ((List.range (statusBarSize * numPlanes)).foldl
        (fun buffer i => buffer.set i statusBarColor) (Logged.fresh cells))
    refine ⟨buffer, hDrawn, ⟨textLine message cmd location, hLayout, ?_⟩, ?_⟩
    · intro px hPx py hPy
      exact decode_eq_bitmap hBackground hText hPx hPy
    · intro a hWritten
      cases hText.written a hWritten with
      | inl hBefore =>
          cases hBackground.written a hBefore with
          | inl hNone => exact absurd hNone List.not_mem_nil
          | inr hIn => exact hIn
      | inr hPlace =>
          obtain ⟨i, hI, y, hY, x, hX, _, hAt⟩ := hPlace
          have hBits : x < 8 := hX
          have hRows : y < 16 := hY
          have hColumns : i < 40 := hI
          rw [hAt, place, planeWidth, padding, statusBarSize]
          omega

/-- A room and a command that is still being typed. -/
theorem textToGraphics_iff_get :
    (∃ buffer,
      textToGraphics (Logged.fresh fun _ => 0) [] [103, 101, 116]
          [51, 57, 49, 32, 76, 97, 98] = some buffer ∧
        Rendered [] [103, 101, 116] [51, 57, 49, 32, 76, 97, 98] buffer) ↔
      Ascii (shown [] [103, 101, 116] [51, 57, 49, 32, 76, 97, 98]) ∧
        ¬ Overlap [] [103, 101, 116] [51, 57, 49, 32, 76, 97, 98] :=
  textToGraphics_iff _ (by decide) (by decide)

/-- A name and a command of 20 characters each. -/
theorem lastOfName_overwritten :
    ¬ ∃ buffer,
      textToGraphics (Logged.fresh fun _ => 0) [] (List.replicate 20 97)
          (List.replicate 20 98) = some buffer ∧
        Rendered [] (List.replicate 20 97) (List.replicate 20 98) buffer := by
  intro ⟨buffer, _, ⟨line, hLayout, _⟩, _⟩
  exact layout_apart hLayout ⟨rfl, rfl, by decide, by decide⟩

end StatusBar

end CompE.Adventure
